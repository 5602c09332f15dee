import ScriptHost.Proofs.AbortCourses

/-!
Aborting a stopped debugger. The loop of a debugger resumes with the first signal that it
accepted, whatever it is sent later, and an abort sends the innermost one the order to stop.
So the abort stops the debugger exactly if the loop had not accepted another order before.
A debugger that stops ends the invocation that it was stopped in.
-/

namespace ScriptHost.Service

variable {past later earlier : List Transition} {w w' : World} {mover : Option Nat} {k id : Nat}
  {x s : Transition} {l : MessageLoop}

theorem accepted_append (id : Nat) (later earlier : List Transition) :
    accepted id (later ++ earlier) = accepted id earlier ++ accepted id later := by
  induction later with
  | nil => simp [accepted]
  | cons x later ih => rw [List.cons_append, accepted, accepted, ih, List.append_assoc]

/-- A loop that was closed is not opened again. -/
theorem closed_after (h : Run past w) (hstep : Step w mover w') (hid : id < w.nextLoop)
    (hl : w.findLoop id = none) : w'.findLoop id = none ∧ id < w'.nextLoop := by
  have hchannel := (next_of_step hstep).channel (orderly_of_run h) id
  have hle : w.nextLoop ≤ w'.nextLoop := (next_of_step hstep).nextLoop_le
  refine ⟨?_, hid.trans_le hle⟩
  have hl' : w.exchange.findLoop id = none := hl
  generalize w.exchange.pumping id = p, w'.exchange.pumping id = p' at hchannel
  cases hchannel with
  | idle hloop | served r reply signal hloop => exact hloop.trans hl'
  | opened l hfresh => exact absurd hid (by simp [hfresh, World.exchange])
  | posted l r hfound | skipped l r requests signal hfound | taken l r requests signal hfound
  | signalled l signal hfound | consumed l signal hfound | locked l signal hfound
  | closed l signal locked hfound =>
    rw [hfound] at hl'
    cases hl'

/-- After a step, a loop that was registered is still of its kind, or closed for good. -/
theorem kind_after (h : Run past w) (hstep : Step w mover w') (hl : w.findLoop id = some l) :
    (∃ l', w'.findLoop id = some l' ∧ l'.kind = l.kind) ∨
      w'.findLoop id = none ∧ id < w'.nextLoop := by
  refine (loop_after h hstep hl).imp_right ?_
  rintro ⟨k, signal, rest, -, hleft⟩
  obtain rfl : l.id = id := Exchange.findLoop_id (x := w.exchange) hl
  have hmade : l.id < w.nextLoop :=
    (orderly_of_run h).sound.loops_made l (List.mem_of_find?_eq_some hl)
  exact ⟨hleft.gone, hmade.trans_le (next_of_step hstep).nextLoop_le⟩

/-- A registered loop keeps its kind as long as it is registered. -/
theorem kind_of_run (h : Run (later ++ s :: earlier) w) (hl : s.before.findLoop id = some l) :
    (∃ l', w.findLoop id = some l' ∧ l'.kind = l.kind) ∨
      w.findLoop id = none ∧ id < w.nextLoop := by
  induction later generalizing w with
  | nil => cases h with | step h hstep => exact kind_after h hstep hl
  | cons y later ih =>
    cases h with
    | step h hstep =>
      rcases ih h with ⟨l', hl', hkind⟩ | ⟨hnone, hmade⟩
      · rw [← hkind]
        exact kind_after h hstep hl'
      · exact Or.inr (closed_after h hstep hmade hnone)

/-- A registered loop is pumped on its thread. -/
theorem exists_pumping (h : Run past w) (hl : w.findLoop id = some l) :
    ∃ t phase above, w.threads[l.thread]? = some t ∧ .loop id phase ∈ t.stack ∧
      phase.pumps = true ∧ (phase.parting?, above) ∈ w.exchange.pumping id := by
  have hmem : l ∈ w.loops := List.mem_of_find?_eq_some hl
  have hfitted := fitted_of_run h
  have ht := List.getElem?_eq_getElem (hfitted.made l hmem)
  obtain ⟨phase, hphase, hpumps⟩ := (hfitted.fit _ _ ht).manned l hmem rfl
  obtain rfl : l.id = id := Exchange.findLoop_id (x := w.exchange) hl
  obtain ⟨above, hpump⟩ := pumping_of_thread ht hphase hpumps
  exact ⟨_, phase, above, ht, hphase, hpumps, hpump⟩

/-- A registered loop that has accepted no signal holds none. -/
theorem signal_of_unsignalled (h : Run past w) (hl : w.findLoop id = some l)
    (hnone : accepted id past = []) : l.signal = none := by
  obtain ⟨t, phase, above, -, -, -, hpump⟩ := exists_pumping h hl
  have hkept := signal_of_run h hl _ hpump
  rw [hnone] at hkept
  cases hparting : phase.parting? with
  | none =>
    rw [hparting] at hkept
    have hkept : [] = l.signal.toList := hkept
    cases hsignal : l.signal with
    | none => rfl
    | some signal =>
      rw [hsignal] at hkept
      cases hkept
  | some parting =>
    rw [hparting] at hkept
    cases hkept

/-- The innermost loop of a kind accepts a signal if it holds none. -/
theorem accepted_of_signalInnermost {kind : LoopKind} {signal : Signal} (h : Run past s.before)
    (hloops : s.after.loops = (s.before.signalInnermost kind signal).2.loops)
    (hl : s.before.loops.find? (·.kind == kind) = some l) (hempty : l.signal = none) :
    s.accepted l.id = [signal] := by
  have hsound := (orderly_of_run h).sound
  have hmem : l ∈ s.before.loops := List.mem_of_find?_eq_some hl
  have hfound : s.before.findLoop l.id = some l := hsound.findLoop_of_mem hmem
  have hloops : s.after.loops = (s.before.updateLoop l.id fun l =>
      { l with signal := some signal }).loops := by
    rw [hloops, World.signalInnermost, hl]
    simp only [World.signalLoop, hfound]
    rcases l with ⟨id, kind, frame, thread, requests, signal'⟩
    obtain rfl : signal' = none := hempty
    rfl
  have hafter : s.after.findLoop l.id = some { l with signal := some signal } := by
    have hupdate := hsound.findLoop_update hmem (fun l => { l with signal := some signal }) rfl l.id
    rw [if_pos rfl] at hupdate
    rw [World.findLoop, hloops]
    exact hupdate
  rw [Transition.accepted, hfound, hafter]
  simp [hempty]

/-- An abort's signal is the first that the innermost debugger accepts, unless it accepted one
before. -/
theorem accepted_of_signals {signal : Signal} (h : Run past s.before)
    (hsignals : s.Signals k .debuggerStop signal)
    (hl : s.before.loops.find? (·.kind == .debuggerStop) = some l)
    (hnone : accepted l.id past = []) : s.accepted l.id = [signal] := by
  have hfound : s.before.findLoop l.id = some l :=
    (orderly_of_run h).sound.findLoop_of_mem (List.mem_of_find?_eq_some hl)
  exact accepted_of_signalInnermost h hsignals.loops hl (signal_of_unsignalled h hfound hnone)

/-- Whether an abort has not yet signalled a debugger. -/
def AbortPhase.beforeDebugger : AbortPhase → Bool
  | .checkingDebugger _ | .marking _ | .stopping _ | .signalling .debuggerStop _ => true
  | _ => false

theorem loops_of_abortStep {phase next : AbortPhase} (h : AbortStep w phase (some next) w')
    (hnext : next.beforeDebugger = true) :
    phase.beforeDebugger = true ∧ w'.loops = w.loops := by
  cases h with
  | found hbusy hloops => exact ⟨rfl, hloops⟩
  | marked inDebugger hloops => exact ⟨rfl, hloops⟩
  | halted hengine hloops => exact ⟨rfl, hloops⟩
  | passed | stopped | prompted | unprompted | signalled | reading => cases hnext

theorem abortThread_injective {next next' : Option AbortPhase}
    (h : abortThread next = abortThread next') : next = next' := by
  cases next <;> cases next' <;> simp_all [abortThread]

/-- While only the abort itself moves, it finds the loops as they were when it looked. -/
theorem loops_of_undisturbed {state : SessionState} {phase : AbortPhase}
    (h : Run (later ++ x :: earlier) w) (hlook : x.Looks k state)
    (hown : ∀ y ∈ later, y.mover = some k)
    (ht : w.threads[k]? = some (abortThread (some phase))) (hphase : phase.beforeDebugger = true) :
    w.loops = x.before.loops := by
  induction later generalizing w phase with
  | nil =>
    obtain ⟨-, hstep⟩ := run_before h
    cases h with
    | step => exact (hlook.after hstep).2
  | cons y later ih =>
    cases h with
    | @step _ w₀ _ mover h hstep =>
      obtain rfl : mover = some k := hown _ List.mem_cons_self
      obtain ⟨next, ht₀, hcourse⟩ := abort_course h hlook
      cases hstep with
      | move hfree hmove =>
        obtain ⟨t, ht₁, m, hm, rfl⟩ := mem_next.mp hmove
        obtain rfl := Option.some.inj (ht₁.symm.trans ht₀)
        cases next with
        | none => cases hm
        | some phase₀ =>
          obtain ⟨next', hthread, hstep'⟩ :=
            abortStep_of_moves hm fun hlooking => hcourse.ne_looking (congrArg some hlooking)
          have hsame := Option.some.inj ((thread_of_moves ht₀ hm).symm.trans ht)
          obtain rfl := abortThread_injective (hthread.symm.trans hsame)
          obtain ⟨hbefore, hloops⟩ := loops_of_abortStep (hstep' (m.1.threads.set k m.2)) hphase
          exact hloops.trans (ih h (fun z hz => hown z (List.mem_cons_of_mem _ hz)) ht₀ hbefore)

/-- The thread of a debugger that was told to stop, `n` steps of its own after its loop was left:
the invocation that was stopped in it fails, and ends with that. -/
def stopCourse (id depth : Nat) (i : Invocation) (rest : List Activation) : Nat → Thread
  | 0 => { depth, stack := .loop id (.resuming .stop) :: .invocation i :: rest }
  | 1 => { depth, control := .back (.action .stop), stack := .invocation i :: rest }
  | 2 => { depth, stack := .invocation (i.fail .pipelineStopped) :: rest }
  | 3 =>
    { depth, stack := .invocation { i with phase := .ending (.error .pipelineStopped) } :: rest }
  | _ =>
    { depth := depth - 1, control := .back (.evaluated (.error .pipelineStopped)), stack := rest }

theorem stopCourse_moves (w : World) (k id depth : Nat) (i : Invocation) (rest : List Activation)
    {n : Nat} (hn : n < 4) : ∃ w',
      (stopCourse id depth i rest n).moves w k = [(w', stopCourse id depth i rest (n + 1))] := by
  match n, hn with
  | 0, _ => exact ⟨_, rfl⟩
  | 1, _ => exact ⟨_, rfl⟩
  | 2, _ =>
    cases houtermost : i.outermost <;>
      simp [stopCourse, Thread.moves, proceed, invocationMoves, Invocation.step, Invocation.fail,
        houtermost, Invocation.finalCall, callHost, Thread.goOn]
  | 3, _ => exact ⟨_, rfl⟩

theorem stopCourse_held (id depth : Nat) (i : Invocation) (rest : List Activation) {n : Nat}
    (hgo : (stopCourse id depth i rest n).control = .go) :
    ¬ Suspended (stopCourse id depth i rest n).stack := by
  intro hsuspended
  have hnone := hsuspended.plain.1
  match n with
  | 0 | 1 | 2 | 3 => simp [stopCourse, invocations] at hnone
  | n + 4 => simp [stopCourse] at hgo

/-- None but its own steps take a debugger that stops further, and it never waits. -/
theorem stops_of_run {y : Transition} {depth : Nat} {i : Invocation} {rest : List Activation}
    (h : Run (later ++ y :: earlier) w)
    (hy : y.after.threads[k]? = some (stopCourse id depth i rest 0))
    (hn : (ownSteps k later).length ≤ 4) :
    w.threads[k]? = some (stopCourse id depth i rest (ownSteps k later).length) := by
  induction later generalizing w with
  | nil => cases h with | step h hstep => exact hy
  | cons z later ih =>
    cases h with
    | @step _ w₀ _ mover h hstep =>
      by_cases hmover : mover = some k
      · subst hmover
        rw [ownSteps_cons_self rfl, List.length_cons] at hn ⊢
        have ht := ih h (by omega)
        cases hstep with
        | move hfree hmove =>
          obtain ⟨t, ht₀, m, hm, rfl⟩ := mem_next.mp hmove
          obtain rfl := Option.some.inj (ht₀.symm.trans ht)
          have hmoved := thread_of_moves ht hm
          obtain ⟨w₁, hmoves⟩ := stopCourse_moves w₀ k id depth i rest (Nat.lt_of_succ_le hn)
          rw [hmoves] at hm
          obtain rfl := List.mem_singleton.mp hm
          exact hmoved
      · rw [ownSteps_cons_other hmover] at hn ⊢
        refine thread_stays hstep (ih h hn) hmover (stopCourse_held id depth i rest) ?_
        intro _ handle
        match (ownSteps k later).length with
        | 0 | 1 | 2 | 3 => simp [stopCourse]
        | n + 4 => simp [stopCourse]

theorem stops_on {depth : Nat} {i : Invocation} {rest : List Activation} {n : Nat} (hn : n < 4)
    (ht : w.threads[k]? = some (stopCourse id depth i rest n)) : w.next k ≠ [] := by
  obtain ⟨w', hmoves⟩ := stopCourse_moves w k id depth i rest hn
  unfold World.next
  simp [ht, hmoves]

theorem go_of_leaving {t : Thread} {m : World × Thread} {phase : LoopPhase} {signal : Signal}
    {action : ResumeAction} {rest : List Activation} (hm : m ∈ t.moves w k)
    (hs : t.stack = .loop id phase :: rest) (hphase : phase.last? = some signal)
    (hs' : m.2.stack = .loop id (.resuming action) :: rest) : m.2.control = .go := by
  have hne : rest ≠ .loop id (.resuming action) :: rest :=
    fun hcyclic => absurd (congrArg List.length hcyclic) (by simp)
  cases turn_of_stack hm hs with
  | goes hgo hmove =>
    cases hmove with
    | onward | locked => rfl
    | ended hend => cases hend
    | closedCovered _ _ _ _ _ hcloses | closed _ _ _ hcloses =>
      cases hcloses with
      | debugger => rfl
      | prompt => exact absurd hs' hne
    | taken _ _ _ _ _ htakes => cases htakes <;> cases hphase
    | skipped _ _ _ _ _ htakes => cases htakes <;> cases hphase
    | announced | published | consumed | interruptedReads | stayed | resumed => cases hphase
  | receives o hback hmove =>
    cases hmove with
    | loop => rfl
  | unwinds p hunwind hmove =>
    cases hmove with
    | other => exact absurd hs' hne

/-- A debugger resumes the invocation that was stopped in it, with the first signal that its loop
accepted. -/
theorem resumes_of_gone {y : Transition} (h : Run past y.before)
    (hstep : Step y.before y.mover y.after) (hl : y.before.findLoop id = some l)
    (hkind : l.kind = .debuggerStop) (hgone : y.after.findLoop id = none) :
    ∃ j signal depth i rest, y.mover = some j ∧ (accepted id past).head? = some signal ∧
      y.after.threads[j]? = some
        { depth, stack := .loop id (.resuming signal.action) :: .invocation i :: rest } := by
  obtain rfl : l.id = id := Exchange.findLoop_id (x := y.before.exchange) hl
  rcases loop_after h hstep hl with ⟨l', hl', -⟩ | ⟨j, signal, rest, hmover, hleft⟩
  · rw [hgone] at hl'
    cases hl'
  obtain ⟨t, phase, ht, hs, hlast⟩ := hleft.leaving
  obtain ⟨t', ht', hgoes⟩ := hleft.goes_on
  rw [hkind] at hgoes
  have hgoes : t'.stack = .loop l.id (.resuming signal.action) :: rest := hgoes
  have hsits := ((fitted_of_run h).fit j t ht).sits
  rw [hs] at hsits
  obtain ⟨i, below, rfl, -⟩ := hsits.1.2
  refine ⟨j, signal, t'.depth, i, below, hmover, hleft.first, ht'.trans (congrArg some ?_)⟩
  rw [hmover] at hstep
  cases hstep with
  | move hfree hmove =>
    obtain ⟨t₀, ht₀, m, hm, heq⟩ := mem_next.mp hmove
    obtain rfl := Option.some.inj (ht₀.symm.trans ht)
    rw [heq] at ht'
    obtain rfl : m.2 = t' := Option.some.inj ((thread_of_moves ht hm).symm.trans ht')
    have hgo := go_of_leaving hm hs hlast hgoes
    rcases hm2 : m.2 with ⟨depth, control, stack⟩
    simp_all

/-- In the step `y`, thread `j` leaves the loop `id` of a debugger, to resume the invocation `i`
that was stopped in it. -/
def Transition.Resumes (y : Transition) (id j depth : Nat) (action : ResumeAction)
    (i : Invocation) (rest : List Activation) : Prop :=
  y.mover = some j ∧ y.after.threads[j]? = some
    { depth, stack := .loop id (.resuming action) :: .invocation i :: rest }

/-- A debugger whose loop was open at some time resumes, when its loop is closed, with the first
signal that the loop accepted. -/
theorem resumes_with_first {newer older : List Transition} {y : Transition}
    (h : Run (newer ++ y :: older ++ s :: past) w) (hfound : s.before.findLoop id = some l)
    (hkind : l.kind = .debuggerStop) (hopen : (y.before.findLoop id).isSome = true)
    (hgone : y.after.findLoop id = none) :
    ∃ j depth signal i rest, y.Resumes id j depth signal.action i rest ∧
      (accepted id past ++ s.accepted id ++ accepted id older).head? = some signal := by
  rw [List.append_assoc, List.cons_append] at h
  obtain ⟨hy, hstep⟩ := run_before h
  rcases kind_of_run hy hfound with ⟨l', hl', hsame⟩ | ⟨hnone, -⟩
  swap
  · rw [hnone] at hopen
    cases hopen
  obtain ⟨j, signal, depth, i, rest, hmover, hfirst, ht⟩ :=
    resumes_of_gone hy hstep hl' (hsame.trans hkind) hgone
  rw [accepted_append, accepted] at hfirst
  exact ⟨j, depth, signal, i, rest, ⟨hmover, ht⟩, hfirst⟩

/-- The innermost debugger that an abort signals resumes with the order to stop exactly if its
loop had accepted no other signal before. -/
theorem resumes_of_signals {mid newer older : List Transition} {y : Transition}
    (h : Run (mid ++ s :: past) w) (hsignals : s.Signals k .debuggerStop (.resume .stop))
    (hl : s.before.loops.find? (·.kind == .debuggerStop) = some l)
    (hmid : mid = newer ++ y :: older) (hopen : (y.before.findLoop l.id).isSome = true)
    (hgone : y.after.findLoop l.id = none) :
    ∃ j depth action i rest, y.Resumes l.id j depth action i rest ∧
      (action = .stop ↔ ∀ signal, (accepted l.id past).head? = some signal →
        signal.action = .stop) := by
  obtain ⟨hpast, -⟩ := run_before h
  have hfound : s.before.findLoop l.id = some l :=
    (orderly_of_run hpast).sound.findLoop_of_mem (List.mem_of_find?_eq_some hl)
  have hkind : l.kind = .debuggerStop := by simpa using List.find?_some hl
  obtain ⟨j, depth, signal, i, rest, hresumes, hfirst⟩ :=
    resumes_with_first (hmid ▸ h) hfound hkind hopen hgone
  refine ⟨j, depth, signal.action, i, rest, hresumes, ?_⟩
  cases hearlier : accepted l.id past with
  | nil =>
    rw [hearlier, accepted_of_signals hpast hsignals hl hearlier] at hfirst
    cases hfirst
    simp [Signal.action]
  | cons first others =>
    rw [hearlier] at hfirst
    cases hfirst
    simp

/-- An abort that looked at a session neither aborting nor disposed never waits, and when it has
returned, it told the innermost debugger to stop, unless it found none. It finds the debugger that
was innermost when it looked if nobody else moves meanwhile. The debugger that it told to stop
resumes so exactly if its loop had not accepted another order before, whatever comes later; and
then the invocation that was stopped ends as stopped, after four steps of its thread, none of
which waits. -/
theorem abort_stops_debugger_iff {state : SessionState} (h : Run (later ++ x :: earlier) w)
    (hlook : x.Looks k state) :
    (∃ next, w.threads[k]? = some (abortThread next) ∧ (next ≠ none → w.next k ≠ []) ∧
      (next = none → (∃ s ∈ later, s.Signals k .debuggerStop (.resume .stop)) ∨
        Found k state false later)) ∧
    ∀ mid s early, later = mid ++ s :: early → s.Signals k .debuggerStop (.resume .stop) →
      ((∀ y ∈ early, y.mover = some k) → s.before.loops = x.before.loops) ∧
      ∀ l newer y older, s.before.loops.find? (·.kind == .debuggerStop) = some l →
        mid = newer ++ y :: older → (y.before.findLoop l.id).isSome = true →
        y.after.findLoop l.id = none →
        ∃ j depth action i rest, y.Resumes l.id j depth action i rest ∧
          (action = .stop ↔ ∀ signal, (accepted l.id (early ++ x :: earlier)).head? = some signal →
            signal.action = .stop) ∧
          (action = .stop → (ownSteps j newer).length ≤ 4 →
            w.threads[j]? = some (stopCourse l.id depth i rest (ownSteps j newer).length) ∧
              ((ownSteps j newer).length < 4 → w.next j ≠ [])) := by
  have hown : ∀ {P : Transition → Prop}, (∃ y ∈ ownSteps k later, P y) → ∃ y ∈ later, P y :=
    fun ⟨y, hy, hP⟩ => ⟨y, List.mem_of_mem_filter hy, hP⟩
  refine ⟨?_, ?_⟩
  · obtain ⟨next, ht, hcourse⟩ := abort_course h hlook
    refine ⟨next, ht, abort_never_waits ht, fun hnext => ?_⟩
    cases (hnext ▸ hcourse).aborted with
    | debugger hfound hsignals => exact Or.inl (hown hsignals)
    | engine hfound | idle hfound => exact Or.inr (hown hfound)
  · rintro mid s early rfl hsignals
    rw [List.append_assoc, List.cons_append] at h
    refine ⟨fun hundisturbed => ?_, ?_⟩
    · exact loops_of_undisturbed (run_before h).1 hlook hundisturbed hsignals.thread rfl
    · intro l newer y older hl hmid hopen hgone
      obtain ⟨j, depth, action, i, rest, hresumes, hiff⟩ :=
        resumes_of_signals h hsignals hl hmid hopen hgone
      refine ⟨j, depth, action, i, rest, hresumes, hiff, ?_⟩
      rintro rfl hn
      rw [hmid, List.append_assoc, List.cons_append] at h
      have ht := stops_of_run h hresumes.2 hn
      exact ⟨ht, fun hlt => stops_on hlt ht⟩

/-- A stopped debugger has a request posted to it and is aborted; an order to go on that comes
later is refused. The request is processed, and the invocation that was stopped ends as
stopped. -/
theorem abort_stops_debugger_iff_posted : ∃ later x earlier w, Run (later ++ x :: earlier) w ∧
    x.Looks 3 .ready ∧ ∃ depth i rest, w.threads[1]? = some (stopCourse 0 depth i rest 4) := by
  have hstart : Run [] _ := @Run.start {} {} _ rfl rfl rfl
  have hopen := run_of_follow (hstart.step (.call (.execute
    { command := .ofScript "breakpoint", options := {} })))
    (List.replicate 10 0 ++ List.replicate 8 1)
  have hposted := run_of_follow (hopen.step (.call (.execute
    { command := .ofScript "echo hi", options := {} }))) [2, 2]
  have hlooked := (hposted.step (.call .abort)).step
    (.move (k := 3) rfl (List.mem_singleton_self _))
  have hsignal := (run_of_follow hlooked [3, 3, 3]).step
    (.move (k := 3) rfl (List.mem_singleton_self _))
  have hrefused := (run_of_follow hsignal [3]).step (.act (s := .resume .proceed) rfl fun _ => rfl)
  have hgone := (run_of_follow hrefused (List.replicate 14 1)).step
    (.move (k := 1) rfl (List.mem_singleton_self _))
  have hended := run_of_follow hgone (List.replicate 4 1)
  have hsplit : ∀ (A B C D E : List Transition) (y z s x : Transition),
      A ++ y :: (B ++ z :: (C ++ s :: (D ++ x :: E))) =
        (A ++ y :: (B ++ z :: C) ++ s :: D) ++ x :: E := by simp
  have hrun := (congrArg (Run · _) (hsplit _ _ _ _ _ _ _ _ _)).mp hended
  have habort := fun hlooks : Transition.Looks _ 3 .ready => abort_stops_debugger_iff hrun hlooks
  obtain ⟨-, hsignalled⟩ := habort ⟨rfl, rfl, by decide +kernel, by simp, by simp⟩
  obtain ⟨-, hresumed⟩ := hsignalled _ _ _ rfl ⟨rfl, rfl, rfl⟩
  obtain ⟨j, depth, action, i, rest, hresumes, hiff, hstops⟩ :=
    hresumed _ _ _ _ rfl rfl (by decide +kernel) rfl
  obtain rfl : 1 = j := Option.some.inj hresumes.1
  have hstop := hiff.mpr fun signal hfirst =>
    absurd (show none = some signal from hfirst) (by simp)
  obtain ⟨hlast, -⟩ := hstops hstop (by decide +kernel)
  exact ⟨_, _, _, _, hrun, ⟨rfl, rfl, by decide +kernel, by simp, by simp⟩, depth, i, rest, hlast⟩

/-- The order with which a thread leaves a message loop. -/
def Thread.resuming? (t : Thread) : Option ResumeAction :=
  match t.stack with
  | .loop _ (.resuming action) :: _ => some action
  | _ => none

/-- The loop of a stopped debugger holds an order to go on when it is aborted, and the debugger
goes on. -/
theorem abort_leaves_debugger : ¬ ∀ later x earlier w k state l newer y older,
    Run (later ++ x :: earlier) w → x.Looks k state →
    x.before.loops.find? (·.kind == .debuggerStop) = some l →
    w.threads[k]? = some (abortThread none) → later = newer ++ y :: older →
    (y.before.findLoop l.id).isSome = true → y.after.findLoop l.id = none →
    ∃ j depth i rest, y.Resumes l.id j depth .stop i rest := by
  intro hclaim
  have hstart : Run [] _ := @Run.start {} {} _ rfl rfl rfl
  have hopen := run_of_follow (hstart.step (.call (.execute
    { command := .ofScript "breakpoint", options := {} })))
    (List.replicate 10 0 ++ List.replicate 8 1)
  have hheld := hopen.step (.act (s := .resume .proceed) rfl fun _ => rfl)
  have hlooked := (hheld.step (.call .abort)).step (.move (k := 2) rfl (List.mem_singleton_self _))
  have hleaving := run_of_follow hlooked (List.replicate 5 2 ++ List.replicate 4 1)
  have hgone := hleaving.step (.move (k := 1) rfl (List.mem_singleton_self _))
  obtain ⟨j, depth, i, rest, hresumes⟩ := hclaim _ _ _ _ 2 .ready _ [] _ _ hgone
    ⟨rfl, rfl, by decide +kernel, by simp, by simp⟩ rfl rfl rfl (by decide +kernel) rfl
  obtain rfl : 1 = j := Option.some.inj hresumes.1
  have haction := congrArg (Option.bind · Thread.resuming?) hresumes.2
  change _ = some ResumeAction.stop at haction
  exact absurd haction (by decide +kernel)

end ScriptHost.Service
