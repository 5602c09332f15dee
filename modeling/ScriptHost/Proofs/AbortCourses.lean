import ScriptHost.Proofs.EngineConcurrency
import ScriptHost.Proofs.LoopClosing

/-!
The course of an abort. It looks at the session first, and after that whether a debugger is
stopped; the session is marked, the engine stopped and a loop signalled in separate steps,
between which anything can happen. An abort never waits, and nobody can give it up.
-/

namespace ScriptHost.Service

variable {past later earlier steps : List Transition} {w w' : World} {mover : Option Nat} {k : Nat}
  {x : Transition}

/-- The steps of thread `k` along a run. -/
def ownSteps (k : Nat) (past : List Transition) : List Transition :=
  past.filter (·.mover = some k)

theorem ownSteps_cons_self (hmover : x.mover = some k) :
    ownSteps k (x :: past) = x :: ownSteps k past :=
  List.filter_cons_of_pos (by simpa using hmover)

theorem ownSteps_cons_other (hmover : x.mover ≠ some k) :
    ownSteps k (x :: past) = ownSteps k past :=
  List.filter_cons_of_neg (by simpa using hmover)

/-- A thread that is not given up, and has not ended with a lease, changes only by moving. -/
theorem thread_stays {t : Thread} (hstep : Step w mover w') (ht : w.threads[k]? = some t)
    (hmover : mover ≠ some k) (hheld : t.control = .go → ¬ Suspended t.stack)
    (hlease : t.stack = [] → ∀ h, t.control ≠ .back (.lease (.ok h))) :
    w'.threads[k]? = some t := by
  have hk := (List.getElem?_eq_some_iff.mp ht).1
  cases hstep with
  | @move j _ hfree hmove =>
    obtain ⟨t₀, ht₀, m, hm, rfl⟩ := mem_next.mp hmove
    obtain ⟨a, rest, -, new, started, hlocal⟩ := local_of_moves hm
    have hjk : j ≠ k := fun hjk => hmover (congrArg some hjk)
    change (m.1.threads.set j m.2)[k]? = some t
    rw [List.getElem?_set_ne hjk, hlocal.threads_eq, List.getElem?_append_left hk, ht]
  | call hentry =>
    exact (List.getElem?_append_left hk).trans ht
  | act hs => rwa [(client_of_act hs).threads_same]
  | @drop j t₀ ht₀ hgo hsuspended =>
    have hjk : j ≠ k := by
      rintro rfl
      obtain rfl : t₀ = t := Option.some.inj (ht₀.symm.trans ht)
      exact hheld hgo hsuspended
    rw [(dropTask_spec ht₀).2.2, List.getElem?_set_ne hjk, ht]
  | release j =>
    rcases releaseLease_spec w j with hsame | ⟨t₀, handle, ht₀, hs, hc, -, -, -, hthreads⟩
    · rwa [hsame]
    · have hjk : j ≠ k := by
        rintro rfl
        obtain rfl : t₀ = t := Option.some.inj (ht₀.symm.trans ht)
        exact hlease hs handle hc
      rw [hthreads, List.getElem?_set_ne hjk, ht]

/-- An abort that stands at a phase, or has returned. -/
def abortThread : Option AbortPhase → Thread
  | some phase => { stack := [.abort phase] }
  | none => { control := .back .unit, stack := [] }

theorem abort_stays {next : Option AbortPhase} (hstep : Step w mover w')
    (ht : w.threads[k]? = some (abortThread next)) (hmover : mover ≠ some k) :
    w'.threads[k]? = some (abortThread next) := by
  refine thread_stays hstep ht hmover ?_ ?_
  · cases next <;> rintro - ⟨⟩
  · cases next <;> simp [abortThread]

theorem moves_abort (w : World) (k : Nat) (phase : AbortPhase) :
    (abortThread (some phase)).moves w k = abortMoves w (abortThread (some phase)) [] phase := rfl

/-- An abort that has not returned can take its next step. -/
theorem abort_never_waits {next : Option AbortPhase}
    (ht : w.threads[k]? = some (abortThread next)) (hnext : next ≠ none) : w.next k ≠ [] := by
  obtain ⟨phase, rfl⟩ := Option.ne_none_iff_exists'.mp hnext
  have hmoves : abortMoves w (abortThread (some phase)) [] phase ≠ [] := by
    unfold abortMoves
    cases phase with
    | looking => dsimp only; split <;> simp
    | stopping inDebugger => cases inDebugger <;> simp
    | _ => simp
  unfold World.next
  simpa [ht, moves_abort] using hmoves

/-- A step of an abort that has looked at the session: what it saw, or what it did. -/
inductive AbortStep (w : World) : AbortPhase → Option AbortPhase → World → Prop
  | passed {state : SessionState} {w' : World} (hidle : state ≠ .running)
      (hnone : w.hasLoop .debuggerStop = false) :
      AbortStep w (.checkingDebugger state) (some .checkingReader) w'
  | found {state : SessionState} {w' : World}
      (hbusy : state = .running ∨ w.hasLoop .debuggerStop = true) (hloops : w'.loops = w.loops) :
      AbortStep w (.checkingDebugger state) (some (.marking (w.hasLoop .debuggerStop))) w'
  | marked (inDebugger : Bool) {w' : World} (hloops : w'.loops = w.loops) :
      AbortStep w (.marking inDebugger) (some (.stopping inDebugger)) w'
  | halted {w' : World} (hengine : w'.engine = w.operations.stopCommand w.engine)
      (hloops : w'.loops = w.loops) :
      AbortStep w (.stopping true) (some (.signalling .debuggerStop (.resume .stop))) w'
  | stopped {w' : World} (hengine : w'.engine = w.engine.stop) :
      AbortStep w (.stopping false) (some .checkingPrompt) w'
  | prompted {w' : World} (hsome : w.hasLoop .nestedPrompt = true) :
      AbortStep w .checkingPrompt (some (.signalling .nestedPrompt .exitPrompt)) w'
  | unprompted {w' : World} (hnone : w.hasLoop .nestedPrompt = false) :
      AbortStep w .checkingPrompt (some .checkingReader) w'
  | signalled (kind : LoopKind) (signal : Signal) {w' : World}
      (hloops : w'.loops = (w.signalInnermost kind signal).2.loops) :
      AbortStep w (.signalling kind signal) (some .checkingReader) w'
  | reading {w' : World} : AbortStep w .checkingReader (some .interrupting) w'
  | returned {w' : World} : AbortStep w .checkingReader none w'
  | interrupted {w' : World} : AbortStep w .interrupting none w'

theorem abortStep_of_moves {phase : AbortPhase} {m : World × Thread}
    (hm : m ∈ (abortThread (some phase)).moves w k) (hlooked : phase ≠ .looking) :
    ∃ next, m.2 = abortThread next ∧
      ∀ threads, AbortStep w phase next { m.1 with threads } := by
  cases goes_of_moves hm rfl rfl with
  | onward hnext =>
    cases hnext with
    | abort hnext =>
      cases hnext with
      | looked => exact absurd rfl hlooked
      | busy state hbusy => exact ⟨_, rfl, fun _ => .found hbusy rfl⟩
      | idle state hidle =>
        obtain ⟨hstate, hnone⟩ := not_or.mp hidle
        exact ⟨_, rfl, fun _ => .passed hstate (by simpa using hnone)⟩
      | prompted hsome => exact ⟨_, rfl, fun _ => .prompted hsome⟩
      | unprompted hnone => exact ⟨_, rfl, fun _ => .unprompted hnone⟩
      | read => exact ⟨_, rfl, fun _ => .reading⟩
  | ended hend =>
    cases hend with
    | late => exact absurd rfl hlooked
    | unread => exact ⟨none, rfl, fun _ => .returned⟩
  | aborted inDebugger => exact ⟨_, rfl, fun _ => .marked inDebugger rfl⟩
  | stoppedDebugger => exact ⟨_, rfl, fun _ => .halted rfl rfl⟩
  | stopped => exact ⟨_, rfl, fun _ => .stopped rfl⟩
  | abortSignalled kind signal => exact ⟨_, rfl, fun _ => .signalled kind signal rfl⟩
  | abortInterrupted => exact ⟨none, rfl, fun _ => .interrupted⟩

/-- What an abort did since it looked at the session: its steps, latest first, and where it
stands now. -/
inductive AbortCourse (k : Nat) (state : SessionState) :
    List Transition → Option AbortPhase → Prop
  | looked : AbortCourse k state [] (some (.checkingDebugger state))
  | step {steps : List Transition} {phase : AbortPhase} {next : Option AbortPhase}
      {x : Transition} (h : AbortCourse k state steps (some phase)) (hmover : x.mover = some k)
      (hthread : x.before.threads[k]? = some (abortThread (some phase)))
      (hstep : AbortStep x.before phase next x.after) : AbortCourse k state (x :: steps) next

theorem AbortCourse.ne_looking {state : SessionState} {next : Option AbortPhase}
    (h : AbortCourse k state steps next) : next ≠ some .looking := by
  cases h with
  | looked => simp
  | step h hmover hthread hstep => cases hstep <;> simp

/-- An abort looks at a session that is neither aborting nor disposed. -/
structure Transition.Looks (x : Transition) (k : Nat) (state : SessionState) : Prop where
  mover : x.mover = some k
  thread : x.before.threads[k]? = some (abortThread (some .looking))
  seen : x.before.session.state = state
  ne_aborting : state ≠ .aborting
  ne_disposed : state ≠ .disposed

theorem Transition.Looks.after {state : SessionState} (h : x.Looks k state)
    (hstep : Step x.before x.mover x.after) :
    x.after.threads[k]? = some (abortThread (some (.checkingDebugger state))) ∧
      x.after.loops = x.before.loops := by
  rw [h.mover] at hstep
  cases hstep with
  | move hfree hmove =>
    obtain ⟨t, ht, m, hm, heq⟩ := mem_next.mp hmove
    obtain rfl := Option.some.inj (ht.symm.trans h.thread)
    have hmoved := thread_of_moves ht hm
    have hlooked : m = (x.before, abortThread (some (.checkingDebugger state))) := by
      cases goes_of_moves hm rfl rfl with
      | onward hnext =>
        cases hnext with
        | abort hnext =>
          cases hnext with
          | looked =>
            rw [h.seen]
            rfl
      | ended hend =>
        cases hend with
        | late hlate =>
          rw [h.seen] at hlate
          exact absurd hlate (not_or.mpr ⟨h.ne_aborting, h.ne_disposed⟩)
    rw [heq]
    exact ⟨hmoved.trans (congrArg some (by rw [hlooked])), by rw [hlooked]⟩

/-- Since it looked, an abort took its own steps, and the steps of others left it where it
stood. -/
theorem abort_course {state : SessionState} (h : Run (later ++ x :: earlier) w)
    (hlook : x.Looks k state) :
    ∃ next, w.threads[k]? = some (abortThread next) ∧
      AbortCourse k state (ownSteps k later) next := by
  induction later generalizing w with
  | nil =>
    obtain ⟨-, hstep⟩ := run_before h
    cases h with
    | step => exact ⟨_, (hlook.after hstep).1, .looked⟩
  | cons y later ih =>
    cases h with
    | @step _ w₀ _ mover h hstep =>
      obtain ⟨next, ht, hcourse⟩ := ih h
      by_cases hmover : mover = some k
      · subst hmover
        rw [ownSteps_cons_self rfl]
        cases hstep with
        | move hfree hmove =>
          obtain ⟨t, ht₀, m, hm, rfl⟩ := mem_next.mp hmove
          obtain rfl := Option.some.inj (ht₀.symm.trans ht)
          cases next with
          | none => cases hm
          | some phase =>
            obtain ⟨next', hthread, hstep'⟩ :=
              abortStep_of_moves hm fun hlooking => hcourse.ne_looking (congrArg some hlooking)
            refine ⟨next', ?_, hcourse.step rfl ht (hstep' _)⟩
            rw [← hthread]
            exact thread_of_moves ht hm
      · rw [ownSteps_cons_other hmover]
        exact ⟨next, abort_stays hstep ht hmover, hcourse⟩

/-- A step of the abort `k` that signals the innermost loop of a kind. -/
structure Transition.Signals (x : Transition) (k : Nat) (kind : LoopKind) (signal : Signal) :
    Prop where
  mover : x.mover = some k
  thread : x.before.threads[k]? = some (abortThread (some (.signalling kind signal)))
  loops : x.after.loops = (x.before.signalInnermost kind signal).2.loops

/-- Whether the abort `k` found a debugger stopped when it looked for one. -/
def Found (k : Nat) (state : SessionState) (inDebugger : Bool) (steps : List Transition) : Prop :=
  ∃ c ∈ steps, c.mover = some k ∧
    c.before.threads[k]? = some (abortThread (some (.checkingDebugger state))) ∧
    c.before.hasLoop .debuggerStop = inDebugger

/-- A step of the abort `k` that stops the engine. -/
def Transition.StopsEngine (x : Transition) (k : Nat) : Prop :=
  x.mover = some k ∧ x.after.engine = x.before.engine.stop

/-- Whether a nested prompt that the abort `k` found was told to exit. -/
def Prompted (k : Nat) (steps : List Transition) : Prop :=
  ∃ p ∈ steps, p.mover = some k ∧
    p.before.threads[k]? = some (abortThread (some .checkingPrompt)) ∧
    (p.before.hasLoop .nestedPrompt = true →
      ∃ s ∈ steps, s.Signals k .nestedPrompt .exitPrompt)

/-- What an abort has done: a debugger that it found was told to stop; when it found none but had
seen a running session, it stopped the engine and saw to a nested prompt. -/
inductive Aborted (k : Nat) (state : SessionState) (steps : List Transition) : Prop
  | debugger (hfound : Found k state true steps)
      (hsignals : ∃ s ∈ steps, s.Signals k .debuggerStop (.resume .stop))
  | engine (hfound : Found k state false steps)
      (hstops : ∃ e ∈ steps, e.StopsEngine k) (hprompted : Prompted k steps)
  | idle (hfound : Found k state false steps) (hidle : state ≠ .running)

theorem exists_mem_cons {P : Transition → Prop} (h : ∃ y ∈ steps, P y) (x : Transition) :
    ∃ y ∈ x :: steps, P y := by
  obtain ⟨y, hy, hP⟩ := h
  exact ⟨y, List.mem_cons_of_mem x hy, hP⟩

theorem Prompted.cons (h : Prompted k steps) (x : Transition) : Prompted k (x :: steps) := by
  obtain ⟨p, hp, hmover, hthread, hsignals⟩ := h
  exact ⟨p, List.mem_cons_of_mem x hp, hmover, hthread,
    fun hprompt => exists_mem_cons (hsignals hprompt) x⟩

theorem Aborted.cons {state : SessionState} (h : Aborted k state steps) (x : Transition) :
    Aborted k state (x :: steps) := by
  cases h with
  | debugger hfound hsignals =>
    exact .debugger (exists_mem_cons hfound x) (exists_mem_cons hsignals x)
  | engine hfound hstops hprompted =>
    exact .engine (exists_mem_cons hfound x) (exists_mem_cons hstops x) (hprompted.cons x)
  | idle hfound hidle => exact .idle (exists_mem_cons hfound x) hidle

section Inversion

variable {state seen : SessionState} {inDebugger : Bool}

theorem AbortCourse.checkingDebugger
    (h : AbortCourse k state steps (some (.checkingDebugger seen))) :
    seen = state := by
  cases h with
  | looked => rfl
  | step h hmover hthread hstep => cases hstep

theorem AbortCourse.marking (h : AbortCourse k state steps (some (.marking inDebugger))) :
    Found k state inDebugger steps := by
  cases h with
  | step h hmover hthread hstep =>
    cases hstep with
    | found hbusy hloops =>
      obtain rfl := h.checkingDebugger
      exact ⟨_, List.mem_cons_self, hmover, hthread, rfl⟩

theorem AbortCourse.stopping (h : AbortCourse k state steps (some (.stopping inDebugger))) :
    Found k state inDebugger steps := by
  cases h with
  | step h hmover hthread hstep =>
    cases hstep with
    | marked => exact exists_mem_cons h.marking _

theorem AbortCourse.checkingPrompt (h : AbortCourse k state steps (some .checkingPrompt)) :
    Found k state false steps ∧ ∃ e ∈ steps, e.StopsEngine k := by
  cases h with
  | step h hmover hthread hstep =>
    cases hstep with
    | stopped hengine =>
      exact ⟨exists_mem_cons h.stopping _, _, List.mem_cons_self, hmover, hengine⟩

theorem AbortCourse.checkingReader (h : AbortCourse k state steps (some .checkingReader)) :
    Aborted k state steps := by
  cases h with
  | step h hmover hthread hstep =>
    cases hstep with
    | passed hidle hnone =>
      obtain rfl := h.checkingDebugger
      exact .idle ⟨_, List.mem_cons_self, hmover, hthread, hnone⟩ hidle
    | unprompted hnone =>
      obtain ⟨hfound, hstops⟩ := h.checkingPrompt
      refine .engine (exists_mem_cons hfound _) (exists_mem_cons hstops _)
        ⟨_, List.mem_cons_self, hmover, hthread, fun hsome => ?_⟩
      rw [hnone] at hsome
      cases hsome
    | signalled kind signal hloops =>
      have hsignals := Transition.Signals.mk hmover hthread hloops
      cases h with
      | step h hmover' hthread' hstep =>
        cases hstep with
        | halted hengine hloops =>
          exact .debugger (exists_mem_cons (exists_mem_cons h.stopping _) _)
            ⟨_, List.mem_cons_self, hsignals⟩
        | prompted hsome =>
          obtain ⟨hfound, hstops⟩ := h.checkingPrompt
          exact .engine (exists_mem_cons (exists_mem_cons hfound _) _)
            (exists_mem_cons (exists_mem_cons hstops _) _)
            ⟨_, List.mem_cons_of_mem _ List.mem_cons_self, hmover', hthread',
              fun _ => ⟨_, List.mem_cons_self, hsignals⟩⟩

/-- What an abort that returned has done. -/
theorem AbortCourse.aborted (h : AbortCourse k state steps none) : Aborted k state steps := by
  cases h with
  | step h hmover hthread hstep =>
    cases hstep with
    | returned => exact h.checkingReader.cons _
    | interrupted =>
      cases h with
      | step h hmover hthread hstep =>
        cases hstep with
        | reading => exact (h.checkingReader.cons _).cons _

end Inversion

end ScriptHost.Service
