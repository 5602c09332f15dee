import ScriptHost.Proofs.AbortCourses
import ScriptHost.Proofs.SessionStates

/-!
The session while a command runs. An outermost invocation that told of its beginning keeps
the session running or aborting, unless a debugger is stopped. Only two things make the
session ready over it: a debugger that is resumed with the order to stop, and the end of
another outermost invocation; between the end of a debugger's loop and its word to the
session the session is ready, too. An abort that sees a running session does its work.
-/

namespace ScriptHost

/-- An invocation that told the session of its beginning and not yet of its end. -/
def Invocation.announced (i : Invocation) : Bool :=
  i.inProgress &&
    match i.phase with
    | .opening => false
    | _ => true

namespace Service

variable {past : List Transition} {w w' : World} {mover : Option Nat} {k : Nat}

/-- An outermost invocation told of its beginning and not yet of its end. -/
def World.announced (w : World) : Bool :=
  w.threads.any fun t => (invocations t.stack).any Invocation.announced

/-- A debugger's loop is over, and the session was not told yet. -/
def World.Resuming (w : World) : Prop :=
  ∃ t ∈ w.threads, ∃ id action rest, t.stack = .loop id (.resuming action) :: rest

/-- A debugger is resumed with the order to stop. -/
def Transition.StopsDebugger (x : Transition) : Prop :=
  ∃ k id rest, x.mover = some k ∧ x.before.stackOf k = .loop id (.resuming .stop) :: rest ∧
    x.after.stackOf k = rest

/-- An outermost invocation tells of its end. -/
def Transition.Concludes (x : Transition) : Prop :=
  ∃ k i r rest, x.mover = some k ∧ x.before.stackOf k = .invocation i :: rest ∧
    i.phase = .closing r ∧ i.outermost = true

/-- The session has been ready since a debugger was resumed with the order to stop, or since an
outermost invocation ended. -/
def ReadySince : List Transition → Prop :=
  Since (fun x => x.StopsDebugger ∨ x.Concludes) fun y => y.after.session.state = .ready

/-- What can have made a session ready while an outermost invocation goes on. -/
def MadeReady (past : List Transition) (w : World) : Prop :=
  w.session.state = .ready ∧ (w.Resuming ∨ ReadySince past)

theorem ne_ready_of_running {s : Session} {result : ExecutionResult} {reason : Option String}
    (h : s.state ≠ .ready) : (s.transition .running result reason).1.state ≠ .ready := by
  rw [Session.state_transition]
  split
  · simp
  · exact h

theorem started_of_run (h : Run past w) : w.session.state ≠ .notStarted := by
  induction h with
  | start hactive hpeak h => simp [state_of_start h]
  | step h hstep ih =>
    rcases (session_step h hstep).session with hsession | ⟨state, result, reason, hstate, hsession⟩
    · rwa [hsession]
    · rw [hsession, Session.state_transition]
      split
      · exact hstate
      · exact ih

/-- A debugger that has not told of its stop yet has its loop registered. -/
theorem opening_of_run (h : Run past w) {t : Thread} {id : Nat} {stop : DebuggerStop}
    (ht : w.threads[k]? = some t) (hmem : .loop id (.opening stop) ∈ t.stack) :
    ∃ l, w.findLoop id = some l ∧ l.kind = .debuggerStop := by
  induction h generalizing k t with
  | start hactive hpeak h =>
    rw [(fresh_of_start h).threads] at ht
    cases ht
  | @step past w w' mover h hstep ih =>
    have hstays : ∀ {j : Nat} {t : Thread}, w.threads[j]? = some t →
        .loop id (.opening stop) ∈ t.stack → ∃ l, w'.findLoop id = some l ∧
          l.kind = .debuggerStop := by
      intro j t ht hmem
      obtain ⟨l, hl, hkind⟩ := ih ht hmem
      rcases loop_after h hstep hl with ⟨l', hl', hsame⟩ | ⟨j', signal, rest, -, hleft⟩
      · exact ⟨l', hl', hsame.trans hkind⟩
      · obtain ⟨above, hpump⟩ := pumping_of_thread ht hmem rfl
        obtain rfl : l.id = id := Exchange.findLoop_id (x := w.exchange) hl
        obtain ⟨locked, halone⟩ := hleft.alone
        rw [halone] at hpump
        cases Multiset.mem_singleton.mp hpump
    cases thread_after hstep ht with
    | same ht => exact hstays ht hmem
    | @moved t₀ m ht₀ hm heq hw' =>
      obtain ⟨a, rest, hs, new, hs', hdeed⟩ := deed_of_moves (poised_of_run h ht₀) hm
      have hold : .loop id (.opening stop) ∈ a :: rest → ∃ l, w'.findLoop id = some l ∧
          l.kind = .debuggerStop := by
        intro hmem
        exact hstays ht₀ (hs ▸ hmem)
      rw [heq, hs'] at hmem
      rcases List.mem_append.mp hmem with hmem | hmem
      swap
      · exact hold (List.mem_cons_of_mem a hmem)
      cases hdeed with
      | aside ha hnew =>
        rcases hnew _ hmem with hbare | rfl | halike
        · cases hbare
        · exact hold List.mem_cons_self
        · cases a <;> cases halike
      | told hgo htold =>
        generalize m.1.session = session at htold
        cases htold <;> simp at hmem
      | begun i below ha hbelow =>
        rcases List.mem_cons.mp hmem with hmem | hmem
        · cases hmem
        · cases hbelow _ hmem
      | announced | concluded => simp at hmem
      | onward i i' above ha honward habove =>
        rcases List.mem_append.mp hmem with hmem | hmem
        · rcases habove _ hmem with hbare | ⟨id', stop', l, heq', hid, hl, hkind⟩
          · cases hbare
          · cases heq'
            rw [hw']
            exact ⟨l, hl, hkind⟩
        · simp at hmem
      | left => cases hmem
    | started hnewly hk =>
      cases hnewly with
      | called hentry => cases hentry <;> simp at hmem
      | reader handle read => simp at hmem
      | worker handle o => simp at hmem
    | dropped ht hgo hs hs' hc' | returned ht hs hc hs' hc' =>
      rw [hs'] at hmem
      cases hmem

/-- An announced invocation was so before a move, unless the move announces it. -/
theorem announced_of_deed {t : Thread} {a : Activation} {rest new : List Activation}
    {m : World × Thread} (hs : t.stack = a :: rest) (hs' : m.2.stack = new ++ rest)
    (hdeed : Deed w t a m new)
    (hannounced : (invocations m.2.stack).any Invocation.announced = true) :
    (invocations t.stack).any Invocation.announced = true ∨
      m.1.session = (w.session.follow .running none).1 := by
  have hrest : (invocations rest).any Invocation.announced = true →
      (invocations t.stack).any Invocation.announced = true := by
    intro hany
    rw [hs, ← List.singleton_append, invocations_append, List.any_append, hany, Bool.or_true]
  rw [hs', invocations_append, List.any_append, Bool.or_eq_true] at hannounced
  refine hannounced.elim (fun hnew => ?_) fun hany => Or.inl (hrest hany)
  cases hdeed with
  | aside ha hbare hsession =>
    rw [invocations_of_aside ha hbare] at hnew
    cases hnew
  | told hgo htold =>
    rw [(invocations_of_told htold).2] at hnew
    cases hnew
  | begun i below ha hbelow houtermost hphase =>
    rw [invocations_of_begun i hbelow] at hnew
    cases hout : i.outermost <;>
      simp [Invocation.announced, Invocation.inProgress, hphase, hout] at hnew
  | announced i ha hphase hgo hsession => exact Or.inr hsession
  | concluded i r ha hphase houtermost =>
    simp [invocations, Invocation.announced, Invocation.inProgress] at hnew
  | onward i i' above ha honward habove =>
    rw [(invocations_of_onward i' habove).2] at hnew
    refine Or.inl ?_
    have hprogress : i.inProgress = true := by
      rw [← honward.progress]
      simp only [List.any_cons, List.any_nil, Bool.or_false, Invocation.announced,
        Bool.and_eq_true] at hnew
      exact hnew.1
    have hbegun := honward.begun
    rw [hs, ha, invocations_cons, List.any_cons]
    have hannounced : i.announced = true := by
      rw [Invocation.announced, hprogress, Bool.true_and]
      split
      · next hphase => exact absurd hphase hbegun
      · rfl
    rw [hannounced, Bool.true_or]
  | left => cases hnew

/-- An announced invocation was so before a step, unless the step announces it. -/
theorem announced_of_step (h : Run past w) (hstep : Step w mover w')
    (hannounced : w'.announced = true) :
    w.announced = true ∨ w'.session = (w.session.follow .running none).1 := by
  obtain ⟨t', hmem, hany⟩ := List.any_eq_true.mp hannounced
  obtain ⟨k, ht'⟩ := List.mem_iff_getElem?.mp hmem
  have hthread : ∀ {t : Thread}, w.threads[k]? = some t →
      (invocations t.stack).any Invocation.announced = true → w.announced = true :=
    fun ht hany => List.any_eq_true.mpr ⟨_, List.mem_of_getElem? ht, hany⟩
  cases thread_after hstep ht' with
  | same ht => exact Or.inl (hthread ht hany)
  | moved ht hm heq hw' =>
    obtain ⟨a, rest, hs, new, hs', hdeed⟩ := deed_of_moves (poised_of_run h ht) hm
    rw [heq] at hany
    rw [hw']
    exact (announced_of_deed hs hs' hdeed hany).imp_left (hthread ht)
  | started hnewly hk =>
    rw [hnewly.calm.2.2.2] at hany
    cases hany
  | dropped ht hgo hs hs' hc' | returned ht hs hc hs' hc' =>
    rw [hs'] at hany
    cases hany

theorem moves_of_resuming {t : Thread} {m : World × Thread} {id : Nat} {action : ResumeAction}
    {rest : List Activation} (hm : m ∈ t.moves w k)
    (hs : t.stack = .loop id (.resuming action) :: rest) (hcalm : ∀ p, t.control ≠ .unwind p) :
    m.2.stack = t.stack ∨ m.2.stack = rest ∧ m.1 = resumeSession w action := by
  cases turn_of_stack hm hs with
  | goes hgo hmove =>
    cases hmove with
    | onward hnext => cases hnext
    | ended hend => cases hend
    | skipped _ _ _ _ _ hphase | taken _ _ _ _ _ hphase => cases hphase
    | stayed => exact Or.inr ⟨rfl, rfl⟩
    | resumed _ _ hne =>
      rw [resumeSession, if_neg hne]
      exact Or.inr ⟨rfl, rfl⟩
  | receives o hback hmove =>
    cases hmove with
    | loop => exact Or.inl hs.symm
  | unwinds p hunwind => exact absurd hunwind (hcalm p)

/-- A debugger that is about to resume stays so until it tells the session. -/
theorem resuming_after (h : Run past w) (hstep : Step w mover w') (hresuming : w.Resuming) :
    w'.Resuming ∨ Transition.StopsDebugger ⟨w, mover, w'⟩ ∨
      w'.session = (w.session.transition .running .notFinished none).1 := by
  obtain ⟨t, hmem, id, action, rest, hs⟩ := hresuming
  obtain ⟨k, ht⟩ := List.mem_iff_getElem?.mp hmem
  have hcalm : ∀ p, t.control ≠ .unwind p :=
    ((fitted_of_run h).fit k t ht).calm (by rw [hs]; rfl)
  by_cases hmover : mover = some k
  · subst hmover
    cases hstep with
    | move hfree hmove =>
      obtain ⟨t₀, ht₀, m, hm, rfl⟩ := mem_next.mp hmove
      obtain rfl := Option.some.inj (ht₀.symm.trans ht)
      have hafter := thread_of_moves ht hm
      rcases moves_of_resuming hm hs hcalm with hsame | ⟨hrest, hworld⟩
      · exact Or.inl ⟨m.2, List.mem_of_getElem? hafter, id, action, rest, hsame.trans hs⟩
      · refine Or.inr ?_
        by_cases hstop : action = .stop
        · subst hstop
          refine Or.inl ⟨k, id, rest, rfl, (stackOf_of_thread ht).trans hs, ?_⟩
          exact (stackOf_of_thread hafter).trans hrest
        · refine Or.inr ?_
          change m.1.session = _
          rw [hworld, resumeSession, if_neg hstop, session_setSession]
  · have hstays : w'.threads[k]? = some t := by
      refine thread_stays hstep ht hmover ?_ (by simp [hs])
      exact fun _ hsuspended => hsuspended.plain.2 id (.resuming action) (by simp [hs])
    exact Or.inl ⟨t, List.mem_of_getElem? hstays, id, action, rest, hs⟩

theorem exists_of_hasLoop (h : Run past w) {kind : LoopKind} (hloop : w.hasLoop kind = true) :
    ∃ l, w.findLoop l.id = some l ∧ l.kind = kind := by
  obtain ⟨l, hl, hkind⟩ := List.any_eq_true.mp hloop
  exact ⟨l, (orderly_of_run h).sound.findLoop_of_mem hl, by simpa using hkind⟩

theorem hasLoop_of_findLoop {id : Nat} {l : MessageLoop} (hl : w.findLoop id = some l) :
    w.hasLoop l.kind = true :=
  List.any_eq_true.mpr ⟨l, List.mem_of_find?_eq_some hl, by simp⟩

/-- A debugger stays stopped, or its thread is about to resume. -/
theorem stopped_after (h : Run past w) (hstep : Step w mover w')
    (hloop : w.hasLoop .debuggerStop = true) :
    w'.hasLoop .debuggerStop = true ∨ w'.Resuming := by
  obtain ⟨l, hl, hkind⟩ := exists_of_hasLoop h hloop
  rcases loop_after h hstep hl with ⟨l', hl', hsame⟩ | ⟨k, signal, rest, -, hleft⟩
  · rw [← hkind, ← hsame]
    exact Or.inl (hasLoop_of_findLoop hl')
  · obtain ⟨t, ht, hgoes⟩ := hleft.goes_on
    rw [hkind] at hgoes
    exact Or.inr ⟨t, List.mem_of_getElem? ht, l.id, signal.action, rest, hgoes⟩

/-- A step that makes the session ready is a debugger's stop or its resumption with the order to
stop, or the end of an outermost invocation. -/
theorem ready_after (h : Run past w) (hstep : Step w mover w')
    (hready : w.session.state ≠ .ready) (hready' : w'.session.state = .ready) :
    w'.hasLoop .debuggerStop = true ∨ Transition.StopsDebugger ⟨w, mover, w'⟩ ∨
      Transition.Concludes ⟨w, mover, w'⟩ := by
  cases session_step h hstep with
  | client hsession => exact absurd (hsession ▸ hready') hready
  | @moved k t a rest new m ht hm hw' hs hs' hdeed =>
    have hbefore : w.stackOf k = a :: rest := (stackOf_of_thread ht).trans hs
    have hafter : w'.stackOf k = new ++ rest := by
      rw [hw']
      exact (stackOf_of_thread (thread_of_moves ht hm)).trans hs'
    have hsession' : w'.session = m.1.session := by rw [hw']
    rw [hsession'] at hready'
    cases hdeed with
    | aside _ _ hsession | begun _ _ _ _ _ _ _ hsession | onward _ _ _ _ _ _ _ hsession
    | left _ _ hsession => exact absurd (hsession ▸ hready') hready
    | announced _ _ _ _ hsession =>
      rw [hsession] at hready'
      exact absurd hready' (ne_ready_of_running hready)
    | concluded i r ha hphase houtermost =>
      exact Or.inr (Or.inr ⟨k, i, r, rest, rfl, ha ▸ hbefore, hphase, houtermost⟩)
    | told hgo htold =>
      generalize m.1.session = session at htold hready'
      cases htold with
      | stopped id stop =>
        obtain ⟨l, hl, hkind⟩ := opening_of_run h ht (by rw [hs]; exact List.mem_cons_self)
        rcases loop_after h hstep hl with ⟨l', hl', hsame⟩ | ⟨k', signal, rest', hmover, hleft⟩
        · rw [← hkind, ← hsame]
          exact Or.inl (hasLoop_of_findLoop hl')
        · obtain ⟨t', phase, ht', hs'', hlast⟩ := hleft.leaving
          obtain rfl := Option.some.inj hmover
          obtain rfl := Option.some.inj (ht'.symm.trans ht)
          rw [hs] at hs''
          cases (List.cons.inj hs'').1
          cases hlast
      | resumed id action =>
        by_cases hstop : action = .stop
        · subst hstop
          exact Or.inr (Or.inl ⟨k, id, rest, rfl, hbefore, hafter⟩)
        · rw [resumeSession, if_neg hstop, session_setSession] at hready'
          exact absurd hready' (ne_ready_of_running hready)
      | aborted =>
        rw [Session.state_transition] at hready'
        split at hready'
        · cases hready'
        · exact absurd hready' hready
      | disposed =>
        rw [Session.state_disposed] at hready'
        cases hready'

theorem madeReady_of_run (h : Run past w) (hready : w.session.state = .ready)
    (hannounced : w.announced = true) (hnone : w.hasLoop .debuggerStop = false) :
    MadeReady past w := by
  induction h with
  | start hactive hpeak h =>
    rw [World.announced, (fresh_of_start h).threads] at hannounced
    cases hannounced
  | @step past w w' mover h hstep ih =>
    refine ⟨hready, ?_⟩
    by_cases hwas : w.session.state = .ready
    · -- the session was ready before, and the step did not announce an invocation
      have hrunning : ∀ result reason,
          w'.session ≠ (w.session.transition .running result reason).1 := by
        intro result reason hsession
        rw [hsession, Session.state_transition, hwas] at hready
        cases hready
      rcases announced_of_step h hstep hannounced with hannounced | hsession
      swap
      · exact absurd hsession (hrunning _ _)
      cases hloop : w.hasLoop .debuggerStop with
      | true =>
        rcases stopped_after h hstep hloop with hstopped | hresuming
        · rw [hnone] at hstopped
          cases hstopped
        · exact Or.inl hresuming
      | false =>
        rcases (ih hwas hannounced hloop).2 with hresuming | hsince
        · rcases resuming_after h hstep hresuming with hresuming | hstops | hsession
          · exact Or.inl hresuming
          · exact Or.inr (.of_last hready (Or.inl hstops))
          · exact absurd hsession (hrunning _ _)
        · exact Or.inr (hsince.extend hready)
    · rcases ready_after h hstep hwas hready with hloop | hcause
      · rw [hnone] at hloop
        cases hloop
      · exact Or.inr (.of_last hready hcause)

/-- While an outermost invocation that told of its beginning goes on and no debugger is stopped,
the session of a service that was not disposed is running or aborting, unless it was made ready.
An abort that is then made finds it aborting already, or does its work by the time it returns;
and it never waits. -/
theorem running_session_abortable_iff (h : Run past w) (hdisposed : w.session.state ≠ .disposed)
    (hannounced : w.announced = true) (hnone : w.hasLoop .debuggerStop = false) :
    ((w.session.state = .running ∨ w.session.state = .aborting) ↔ ¬ MadeReady past w) ∧
      (¬ MadeReady past w → ∀ later x w' k, Run (later ++ x :: past) w' → x.before = w →
        x.mover = some k → w.threads[k]? = some (abortThread (some .looking)) →
        w.session.state = .aborting ∨
          ∃ next, w'.threads[k]? = some (abortThread next) ∧
            (next ≠ none → w'.next k ≠ []) ∧
            (next = none → Aborted k .running (ownSteps k later))) := by
  have hiff : (w.session.state = .running ∨ w.session.state = .aborting) ↔
      ¬ MadeReady past w := by
    constructor
    · rintro hbusy ⟨hready, -⟩
      rw [hready] at hbusy
      simp at hbusy
    · intro hmade
      have hready : w.session.state ≠ .ready :=
        fun hready => hmade (madeReady_of_run h hready hannounced hnone)
      have hstarted := started_of_run h
      cases hstate : w.session.state <;> simp_all
  refine ⟨hiff, fun hmade later x w' k hrun hbefore hmover hthread => ?_⟩
  rcases hiff.mpr hmade with hrunning | haborting
  swap
  · exact Or.inl haborting
  have hlooks : x.Looks k .running :=
    ⟨hmover, hbefore ▸ hthread, hbefore ▸ hrunning, by simp, by simp⟩
  obtain ⟨next, ht, hcourse⟩ := abort_course hrun hlooks
  exact Or.inr ⟨next, ht, abort_never_waits ht, fun hnext => (hnext ▸ hcourse).aborted⟩

/-- A debugger that was stopped inside a nested prompt is resumed, and the abort that is then
made tells the prompt to exit. -/
theorem running_session_abortable_iff_resumed : ∃ past w later x w', Run past w ∧
    w.session.state = .running ∧ ¬ MadeReady past w ∧ Run (later ++ x :: past) w' ∧
    x.before = w ∧ Aborted 3 .running (ownSteps 3 later) := by
  have hstart : Run [] _ := @Run.start {} {} _ rfl rfl rfl
  have hnested := run_of_follow (hstart.step (.call (.execute
    { command := .ofScript "nested", options := {} }))) (List.replicate 10 0 ++ List.replicate 5 1)
  have hstopped := run_of_follow (hnested.step (.call (.execute
    { command := .ofScript "breakpoint", options := {} }))) ([2, 2] ++ List.replicate 10 1)
  have hresumed := run_of_follow (hstopped.step (.act (s := .resume .proceed) rfl fun _ => rfl))
    (List.replicate 10 1)
  have hcalled := hresumed.step (.call .abort)
  have hlooked := hcalled.step (.move (k := 3) rfl (List.mem_singleton_self _))
  have hreturned := run_of_follow hlooked (List.replicate 9 3)
  obtain ⟨hiff, habort⟩ := running_session_abortable_iff hcalled (by decide +kernel)
    (by decide +kernel) (by decide +kernel)
  have hmade := hiff.mp (by decide +kernel)
  refine ⟨_, _, _, _, _, hcalled, by decide +kernel, hmade, hreturned, rfl, ?_⟩
  rcases habort hmade _ _ _ 3 hreturned rfl rfl rfl with haborting | ⟨next, ht, -, haborted⟩
  · exact absurd haborting (by decide +kernel)
  · refine haborted ?_
    have hended := congrArg (Option.map fun t => t.stack.isEmpty) ht
    cases next with
    | none => rfl
    | some phase =>
      refine absurd hended ?_
      change ¬ _ = some false
      decide +kernel

/-- A debugger that was stopped inside a nested prompt is resumed with the order to stop, and the
session is ready while the command with the prompt goes on. -/
theorem running_session_ready : ¬ ∀ past w, Run past w → w.session.state ≠ .disposed →
    w.announced = true → w.hasLoop .debuggerStop = false →
    w.session.state = .running ∨ w.session.state = .aborting := by
  intro hclaim
  have hstart : Run [] _ := @Run.start {} {} _ rfl rfl rfl
  have hnested := run_of_follow (hstart.step (.call (.execute
    { command := .ofScript "nested", options := {} }))) (List.replicate 10 0 ++ List.replicate 5 1)
  have hstopped := run_of_follow (hnested.step (.call (.execute
    { command := .ofScript "breakpoint", options := {} }))) ([2, 2] ++ List.replicate 10 1)
  have hresumed := run_of_follow (hstopped.step (.act (s := .resume .stop) rfl fun _ => rfl))
    (List.replicate 20 1)
  exact absurd (hclaim _ _ hresumed (by decide +kernel) (by decide +kernel) (by decide +kernel))
    (by decide +kernel)

end Service

end ScriptHost
