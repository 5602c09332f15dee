import ScriptHost.Proofs.OutcomesOfMoves
import ScriptHost.Proofs.SessionMoves

/-!
The state of the session along a run. Once a service has started, its session is ready,
running, aborting or disposed. It is running only on behalf of an invocation that told it
so, and such an invocation makes it ready when it ends. What keeps a session busy with
nothing in progress is a panic, which leaves an invocation without its end, or an abort
that found a command running and marks the session when nothing is in progress any more.
-/

namespace ScriptHost

namespace Session

variable {s : Session} {state : SessionState} {result : ExecutionResult} {reason : Option String}

theorem state_transition : (s.transition state result reason).1.state =
    if s.state.canBecome state then state else s.state := by
  unfold transition
  split
  · next hsame => simp [hsame.1]
  · split <;> rfl

theorem ready_of_transition (h : s.state ≠ .disposed) :
    (s.transition .ready result reason).1.state = .ready := by
  rw [state_transition]
  cases hs : s.state <;> first | rfl | exact absurd hs h

theorem disposed_of_transition (h : s.state = .disposed) :
    (s.transition state result reason).1.state = .disposed := by
  rw [state_transition, h]
  rfl

@[simp] theorem state_disposed :
    (s.transition .disposed result reason).1.state = .disposed := by
  rw [state_transition]
  cases s.state <;> rfl

end Session

namespace Invocation

/-- With its last word an invocation makes the session ready. -/
theorem implied_of_finalCall {r : Evaluation} {state : InvocationState} {reason : Option String}
    (h : finalCall r = .stateChanged state reason) : state.implied.1 = .ready := by
  unfold finalCall at h
  split at h <;> cases h <;> rfl

end Invocation

namespace Service

variable {past : List Transition} {w w' : World} {mover : Option Nat}

/-- A step as the session sees it: a client changes nothing, and a move of a thread is a deed of
its innermost activation. -/
inductive SessionStep (w w' : World) : Option Nat → Prop
  | client (hsession : w'.session = w.session) (hprogress : w'.inProgress = w.inProgress) :
      SessionStep w w' none
  | moved {k : Nat} {t : Thread} {a : Activation} {rest new : List Activation}
      {m : World × Thread} (ht : w.threads[k]? = some t) (hm : m ∈ t.moves w k)
      (hw' : w' = { m.1 with threads := m.1.threads.set k m.2 }) (hs : t.stack = a :: rest)
      (hs' : m.2.stack = new ++ rest) (hdeed : Deed w t a m new) : SessionStep w w' (some k)

theorem session_of_client (hstep : Step w none w') : w'.session = w.session := by
  cases hstep with
  | call hentry => rfl
  | @act s hs =>
    cases s with
    | resume action => exact session_signals (signals_signalInnermost w _ _)
    | exitPrompt => exact session_signals (signals_signalInnermost w _ _)
    | popFrame =>
      simp only [Clients.act, Clients.popFrame]
      split <;> rfl
    | exec | readLine | lease | drop | release | abort | dispose | pushRunspace | popRunspace =>
      cases hs
    | _ => rfl
  | @drop k t ht hgo hsuspended =>
    simp only [World.dropTask, ht]
    split <;> rfl
  | release k =>
    unfold World.releaseLease
    split <;> rfl

theorem poised_of_newly {t : Thread} (h : Exchange.Newly t) : t.Poised :=
  poised_of_nil h.calm.2.2.2

/-- Every thread of every world that a run comes to is poised. -/
theorem poised_of_run (h : Run past w) {k : Nat} {t : Thread} (ht : w.threads[k]? = some t) :
    t.Poised := by
  induction h generalizing k t with
  | start hactive hpeak h =>
    rw [(fresh_of_start h).threads] at ht
    cases ht
  | @step past w w' mover h hstep ih =>
    cases thread_after hstep ht with
    | same ht => exact ih ht
    | moved ht hm heq hw' =>
      obtain ⟨a, rest, hs, new, hs', hdeed⟩ := deed_of_moves (ih ht) hm
      rw [heq]
      exact (ih ht).deed ((fitted_of_run h).fit _ _ ht).depth_eq hs hs' hdeed
    | started hnewly hk => exact poised_of_newly hnewly
    | dropped ht hgo hs hs' hc' | returned ht hs hc hs' hc' =>
      exact poised_of_nil (by rw [hs']; rfl)

theorem session_step (h : Run past w) (hstep : Step w mover w') : SessionStep w w' mover := by
  cases mover with
  | none => exact .client (session_of_client hstep) (progress_of_client hstep).2.2
  | some k =>
    cases hstep with
    | move hfree hmove =>
      obtain ⟨t, ht, m, hm, rfl⟩ := mem_next.mp hmove
      obtain ⟨a, rest, hs, new, hs', hdeed⟩ := deed_of_moves (poised_of_run h ht) hm
      exact .moved ht hm rfl hs hs' hdeed

theorem session_of_told {a : Activation} {new : List Activation} {session : Session}
    (h : Told w a new session) : ∃ state result reason, state ≠ .notStarted ∧
      session = (w.session.transition state result reason).1 := by
  cases h with
  | stopped | aborted | disposed => exact ⟨_, _, _, by simp, rfl⟩
  | resumed id action =>
    unfold resumeSession
    split <;> rw [session_setSession] <;> exact ⟨_, _, _, by simp, rfl⟩

/-- A step keeps the session, or has it make a transition, though never back to its start. -/
theorem SessionStep.session (h : SessionStep w w' mover) : w'.session = w.session ∨
    ∃ state result reason, state ≠ .notStarted ∧
      w'.session = (w.session.transition state result reason).1 := by
  cases h with
  | client hsession => exact Or.inl hsession
  | @moved k t a rest new m ht hm hw' hs hs' hdeed =>
    rw [hw']
    cases hdeed with
    | aside _ _ hsession | begun _ _ _ _ _ _ _ hsession | onward _ _ _ _ _ _ _ hsession
    | left _ _ hsession => exact Or.inl hsession
    | announced _ _ _ _ hsession =>
      exact Or.inr ⟨_, _, _, by simp [InvocationState.implied], hsession⟩
    | concluded _ _ _ _ _ _ hsession =>
      obtain ⟨state, reason, hfinal, hsession⟩ := hsession
      refine Or.inr ⟨_, _, _, ?_, hsession⟩
      rw [Invocation.implied_of_finalCall hfinal]
      simp
    | told hgo htold => exact Or.inr (session_of_told htold)

theorem SessionStep.disposed (h : SessionStep w w' mover)
    (hdisposed : w.session.state = .disposed) : w'.session.state = .disposed := by
  rcases h.session with hsession | ⟨state, result, reason, -, hsession⟩ <;> rw [hsession]
  · exact hdisposed
  · exact Session.disposed_of_transition hdisposed

/-- A session that told once that it was disposed stays so. -/
theorem disposed_of_run {later earlier : List Transition} {x : Transition}
    (h : Run (later ++ x :: earlier) w) (hx : x.after.session.state = .disposed) :
    w.session.state = .disposed := by
  induction later generalizing w with
  | nil => cases h with | step h hstep => exact hx
  | cons y later ih =>
    cases h with
    | step h hstep => exact (session_step h hstep).disposed (ih h)

section Progress

variable {k : Nat} {t : Thread} {a : Activation} {rest new : List Activation} {m : World × Thread}

theorem frames_eq_zero_iff {s : List Activation} :
    frames s = 0 ↔ ∀ i ∈ invocations s, i.inProgress = false := by
  rw [frames, ← Multiset.map_coe, Multiset.map_eq_zero, Multiset.coe_eq_zero,
    List.filter_eq_nil_iff]
  simp

/-- Below an activation, the outermost invocation of a thread is in progress. -/
theorem Thread.Poised.frames_ne_zero (h : t.Poised) (hs : t.stack = a :: rest)
    (hne : invocations rest ≠ []) : frames rest ≠ 0 := by
  obtain ⟨above, i, hsplit⟩ := (List.eq_nil_or_concat (invocations rest)).resolve_left hne
  have hlast : invocations t.stack = (invocations [a] ++ above) ++ i :: [] := by
    rw [hs, ← List.singleton_append, invocations_append, hsplit, List.concat_eq_append,
      List.append_assoc]
  have hmem : i ∈ invocations rest := by simp [hsplit]
  have hprogress : i.inProgress = true := by
    rw [Invocation.inProgress_of_atWork (h.below i (by rwa [hs])), h.based _ i [] hlast]
    rfl
  rw [ne_eq, frames_eq_zero_iff]
  exact fun hnone => absurd (hnone i hmem) (by simp [hprogress])

/-- A debugger resumes the invocation that stopped in it. -/
theorem frames_ne_zero_of_loop (h : t.Poised) (hsits : Sits t.stack) {id : Nat}
    {phase : LoopPhase} (hs : t.stack = .loop id phase :: rest) : frames rest ≠ 0 := by
  rw [hs] at hsits
  obtain ⟨i, below, rfl, -⟩ := hsits.1.2
  exact h.frames_ne_zero hs (by simp [invocations])

end Progress

/-- There was a step of some kind, and after it and all later ones something held. -/
def Since (event holds : Transition → Prop) (past : List Transition) : Prop :=
  ∃ later x earlier, past = later ++ x :: earlier ∧ (∀ y ∈ later ++ [x], holds y) ∧ event x

section Since

variable {event holds : Transition → Prop} {x : Transition}

theorem Since.extend (h : Since event holds past) (hx : holds x) :
    Since event holds (x :: past) := by
  obtain ⟨later, y, earlier, rfl, hall, hy⟩ := h
  exact ⟨x :: later, y, earlier, rfl, List.forall_mem_cons.mpr ⟨hx, hall⟩, hy⟩

theorem Since.of_last (hx : holds x) (h : event x) : Since event holds (x :: past) :=
  ⟨[], x, past, rfl, by simpa using hx, h⟩

theorem after_of_run (h : Run (x :: past) w) : w = x.after := by
  cases h with
  | step h hstep => rfl

/-- What has held since a step holds of the world that the run came to. -/
theorem Since.now {P : World → Prop} (h : Since event (P ·.after) past) (hrun : Run past w) :
    P w := by
  obtain ⟨later, x, earlier, rfl, hall, -⟩ := h
  cases later with
  | nil => exact after_of_run hrun ▸ hall x (by simp)
  | cons y later => exact after_of_run hrun ▸ hall y (by simp)

end Since

/-- An abort that marks the session. -/
def Transition.aborts (x : Transition) : Prop :=
  x.before.session.state ≠ .aborting ∧ x.after.session.state = .aborting

/-- The session was not ready again since a step that left an invocation by a panic, or that
marked the session as aborting while nothing was in progress. -/
def LeftBusy : List Transition → Prop :=
  Since (fun x => x.breaks = true ∨ x.aborts ∧ x.before.inProgress = 0)
    fun y => y.after.session.state ≠ .ready

theorem LeftBusy.not_ready (h : LeftBusy past) (hrun : Run past w) :
    w.session.state ≠ .ready :=
  Since.now (P := fun w => w.session.state ≠ .ready) h hrun

theorem state_of_start {config : Config} {engine : Engine}
    (h : World.start config engine = .ok w) : w.session.state = .ready := by
  unfold World.start at h
  simp only at h
  split at h
  · cases h
  · cases h
    rw [session_setSession]
    rfl

theorem breaks_of_left {k : Nat} {t : Thread} {i : Invocation} {rest : List Activation}
    {m : World × Thread} (ht : w.threads[k]? = some t) (hm : m ∈ t.moves w k)
    (hs : t.stack = .invocation i :: rest) (hs' : m.2.stack = rest) (hi : i.inProgress = true) :
    Transition.breaks ⟨w, some k, { m.1 with threads := m.1.threads.set k m.2 }⟩ = true := by
  have hbefore := stackOf_of_thread ht
  have hafter : World.stackOf { m.1 with threads := m.1.threads.set k m.2 } k = m.2.stack :=
    stackOf_of_thread (thread_of_moves ht hm)
  simp only [Transition.breaks, Option.any_some, hbefore, hafter, hs, hs', breaks]
  simp [invocations_cons, hi]

/-- What a move does after which its thread has nothing in progress and the session is neither
ready nor disposed. -/
inductive Idling (w : World) (t : Thread) (m : World × Thread) : Prop
  | quiet (hframes : frames t.stack = 0) (hsession : m.1.session = w.session)
  | marked (hframes : frames t.stack = 0) (hsession : m.1.session =
      (w.session.transition .aborting .notFinished (some "execution aborted")).1)
  | left (i : Invocation) (hs : t.stack = .invocation i :: m.2.stack) (hi : i.inProgress = true)

theorem frames_of_singleton {i : Invocation} (h : frames [.invocation i] = 0) :
    i.inProgress = false :=
  frames_eq_zero_iff.mp h i List.mem_cons_self

theorem idling_of_deed {t : Thread} {a : Activation} {rest new : List Activation}
    {m : World × Thread} (hpoised : t.Poised) (hsits : Sits t.stack) (hs : t.stack = a :: rest)
    (hs' : m.2.stack = new ++ rest) (hdeed : Deed w t a m new) (hframes : frames m.2.stack = 0)
    (hwas : w.session.state ≠ .disposed) (hready : m.1.session.state ≠ .ready)
    (hdisposed : m.1.session.state ≠ .disposed) : Idling w t m := by
  have hparts : frames new = 0 ∧ frames rest = 0 := by
    rw [hs', frames_append] at hframes
    rw [← Multiset.card_eq_zero, Multiset.card_add] at hframes
    rw [← Multiset.card_eq_zero, ← Multiset.card_eq_zero]
    omega
  obtain ⟨hnew, hrest⟩ := hparts
  have hstack : frames t.stack = frames [a] := by
    rw [hs, ← List.singleton_append, frames_append, hrest, add_zero]
  have hother : (∀ i, a ≠ .invocation i) → frames t.stack = 0 := by
    intro ha
    rw [hstack, frames, invocations_eq_nil (by simpa using ha)]
    rfl
  cases hdeed with
  | aside ha _ hsession | begun _ _ ha _ _ _ _ hsession => exact .quiet (hother ha) hsession
  | told hgo htold =>
    have hnone := hother (invocations_of_told htold).1
    generalize hsession : m.1.session = session at htold hready hdisposed
    cases htold with
    | stopped => exact absurd (Session.ready_of_transition hwas) hready
    | resumed id action => exact absurd hrest (frames_ne_zero_of_loop hpoised hsits hs)
    | aborted => exact .marked hnone hsession
    | disposed => exact absurd Session.state_disposed hdisposed
  | announced i ha hphase =>
    have houtermost : i.outermost = true := by
      have hproper := hpoised.proper i (by rw [hs, ha]; exact List.mem_cons_self)
      rwa [Invocation.Proper, hphase] at hproper
    have hprogress := frames_of_singleton hnew
    simp [Invocation.inProgress, houtermost] at hprogress
  | concluded i r ha hphase houtermost hgo hsession =>
    obtain ⟨state, reason, hfinal, hsession⟩ := hsession
    rw [hsession, Session.follow, Invocation.implied_of_finalCall hfinal] at hready
    exact absurd (Session.ready_of_transition hwas) hready
  | onward i i' above ha honward habove hwork hsession =>
    refine .quiet ?_ hsession
    rw [hstack, frames_eq_zero_iff, ha]
    intro j hj
    obtain rfl := List.mem_singleton.mp hj
    rw [← honward.progress]
    rw [frames_append, ← Multiset.card_eq_zero, Multiset.card_add] at hnew
    exact frames_of_singleton (Multiset.card_eq_zero.mp (by omega))
  | left i ha hsession =>
    cases hi : i.inProgress with
    | true => exact .left i (by rw [hs, ha, hs', List.nil_append]) hi
    | false =>
      refine .quiet ?_ hsession
      rw [hstack, frames_eq_zero_iff, ha]
      intro j hj
      obtain rfl := List.mem_singleton.mp hj
      exact hi

/-- A session that is neither ready nor disposed has an invocation in progress, or it was left
busy. -/
theorem busy_of_run (h : Run past w) (hready : w.session.state ≠ .ready)
    (hdisposed : w.session.state ≠ .disposed) : w.inProgress ≠ 0 ∨ LeftBusy past := by
  induction h with
  | start hactive hpeak h => exact absurd (state_of_start h) hready
  | @step past w w' mover h hstep ih =>
    have hwas : w.session.state ≠ .disposed :=
      fun hw => hdisposed ((session_step h hstep).disposed hw)
    refine or_iff_not_imp_left.mpr fun hidle => ?_
    rw [not_not] at hidle
    have hcarry : w'.session.state = w.session.state → w.inProgress = 0 →
        LeftBusy (⟨w, mover, w'⟩ :: past) := by
      intro hsame hnone
      have hbusy := ih (hsame ▸ hready) hwas
      exact (hbusy.resolve_left (not_not_intro hnone)).extend hready
    cases session_step h hstep with
    | client hsession hprogress => exact hcarry (by rw [hsession]) (hprogress ▸ hidle)
    | @moved k t a rest new m ht hm hw' hs hs' hdeed =>
      obtain ⟨others, hbefore, hafter⟩ := inProgress_of_moves ht hm
      rw [← hw'] at hafter
      have hsession' : w'.session = m.1.session := by rw [hw']
      have hparts : frames m.2.stack = 0 ∧ others = 0 := by
        rw [hafter, ← Multiset.card_eq_zero, Multiset.card_add] at hidle
        rw [← Multiset.card_eq_zero, ← Multiset.card_eq_zero]
        omega
      have hnone : frames t.stack = 0 → w.inProgress = 0 := by
        intro hframes
        rw [hbefore, hframes, hparts.2, add_zero]
      rw [hsession'] at hready hdisposed
      have hidling := idling_of_deed (poised_of_run h ht) ((fitted_of_run h).fit k t ht).sits hs hs'
        hdeed hparts.1 hwas hready hdisposed
      rw [← hsession'] at hready hdisposed
      cases hidling with
      | quiet hframes hsession => exact hcarry (by rw [hsession', hsession]) (hnone hframes)
      | marked hframes hsession =>
        have hstate : w'.session.state = if w.session.state.canBecome .aborting then .aborting
            else w.session.state := by
          rw [hsession', hsession, Session.state_transition]
        by_cases hmarks : Transition.aborts ⟨w, some k, w'⟩
        · exact .of_last hready (Or.inr ⟨hmarks, hnone hframes⟩)
        · refine hcarry ?_ (hnone hframes)
          by_contra hchanged
          refine hmarks ⟨fun hwas' => hchanged ?_, ?_⟩
          · rw [hstate, hwas']
            rfl
          · rw [hstate] at hchanged ⊢
            exact if_pos (by_contra fun hcannot => hchanged (if_neg hcannot))
      | left i hs hi =>
        refine .of_last hready (Or.inl ?_)
        subst hw'
        exact breaks_of_left ht hm hs rfl hi

/-- With nothing in progress, a session that is not disposed is ready, unless it was left busy;
and the engine counts the invocations that were left by a panic. -/
theorem idle_session_ready_iff (h : Run past w) (hdisposed : w.session.state ≠ .disposed)
    (hidle : w.inProgress = 0) :
    (w.session.state = .ready ↔ ¬ LeftBusy past) ∧
      w.engine.active = past.countP Transition.breaks ∧
      (w.engine.active = 0 ↔ ∀ x ∈ past, x.breaks = false) := by
  have hactive : w.engine.active = past.countP Transition.breaks := by
    rw [active_of_run h, hidle, Multiset.card_zero, zero_add]
  refine ⟨⟨fun hready hbusy => hbusy.not_ready h hready, fun hbusy => ?_⟩, hactive, ?_⟩
  · by_contra hready
    exact (busy_of_run h hready hdisposed).elim (absurd hidle) hbusy
  · simp only [hactive, List.countP_eq_zero, Bool.not_eq_true]

/-- An overflow leaves a command; the next one makes the session ready again, but the engine
goes on counting the first. -/
theorem idle_session_ready_iff_recovered : ∃ past w, Run past w ∧
    w.session.state ≠ .disposed ∧ w.inProgress = 0 ∧ ¬ LeftBusy past ∧
    ¬ ∀ x ∈ past, x.breaks = false := by
  have hstart : Run [] _ := @Run.start {} {} _ rfl rfl rfl
  have hfirst := run_of_follow (hstart.step (.call (.execute
    { command := .ofScript "add 9223372036854775807 1", options := {} })))
    (List.replicate 10 0 ++ List.replicate 5 1 ++ List.replicate 4 0)
  have hsecond := run_of_follow (hfirst.step (.call (.execute
    { command := .ofScript "echo hi", options := {} })))
    (List.replicate 10 2 ++ List.replicate 10 3)
  obtain ⟨hready, -, hactive⟩ := idle_session_ready_iff hsecond (by decide +kernel)
    (by decide +kernel)
  exact ⟨_, _, hsecond, by decide +kernel, by decide +kernel, hready.mp (by decide +kernel),
    fun hnone => absurd (hactive.mpr hnone) (by decide +kernel)⟩

/-- After an overflow the session is running and the engine counts one invocation, with nothing
in progress. -/
theorem session_busy_after_overflow : ¬ ∀ past w, Run past w → w.session.state ≠ .disposed →
    w.inProgress = 0 → w.session.state = .ready ∧ w.engine.active = 0 := by
  intro hclaim
  have hstart : Run [] _ := @Run.start {} {} _ rfl rfl rfl
  have hrun := run_of_follow (hstart.step (.call (.execute
    { command := .ofScript "add 9223372036854775807 1", options := {} })))
    (List.replicate 10 0 ++ List.replicate 5 1 ++ List.replicate 4 0)
  exact absurd (hclaim _ _ hrun (by decide +kernel) (by decide +kernel)) (by decide +kernel)

/-- An abort that found a command running marks the session when the command has ended. -/
theorem session_busy_after_late_abort : ∃ past w, Run past w ∧ w.session.state = .aborting ∧
    w.inProgress = 0 ∧ past.all (fun x => !x.breaks) = true := by
  have hstart : Run [] _ := @Run.start {} {} _ rfl rfl rfl
  have hrunning := run_of_follow (hstart.step (.call (.execute
    { command := .ofScript "echo hi", options := {} })))
    (List.replicate 10 0 ++ List.replicate 3 1)
  have habort := run_of_follow (hrunning.step (.call .abort)) ([2, 2] ++ List.replicate 10 1 ++ [2])
  exact ⟨_, _, habort, by decide +kernel, by decide +kernel, by decide +kernel⟩

end Service

end ScriptHost
