import ScriptHost.Engine.Invocation

/-!
What steps do to the engine. The engine is given a command, which it begins, takes as an
instruction to its debugger, or refuses; whatever else it does leaves the record of the
commands it was given. A step of an invocation changes the count of outermost invocations
only when it tells the host of the end.
-/

namespace ScriptHost

def Activity.isCommand : Activity → Bool
  | started _ | debuggerCommand _ => true
  | _ => false

namespace Engine

/-- What the journal says of commands that the engine was given. -/
def commands (e : Engine) : List JournalEntry :=
  e.journal.filter (·.activity.isCommand)

/-- The faults that wait for a command. -/
def refusals (e : Engine) : List (EngineCall × EngineError) :=
  e.faults.filter fun f => f.1 == .invoke || f.1 == .debuggerCommand

/-- The engine went from `e` to `e'` without being given a command. -/
structure Aside (e e' : Engine) : Prop where
  commands_same : e'.commands = e.commands
  refusals_kept : e.refusals <+: e'.refusals

/-- The engine went from `e` to `e'` when it was given the command `c`, which it began, took as
an instruction to its debugger, or refused. -/
inductive Given (e : Engine) (c : Command) : Engine → Prop
  | refused (call : EngineCall) (error : EngineError) {e' : Engine}
      (hcall : call = .invoke ∨ call = .debuggerCommand)
      (h : e.takeFault call = some (error, e')) : Given e c e'
  | invoked (frame : FrameInfo) (addToHistory outermost : Bool) :
      Given e c (e.invoke frame c addToHistory outermost).1
  | commanded (frame : FrameInfo) (outermost : Bool) :
      Given e c (e.debuggerCommand frame c outermost).1

theorem Aside.refl (e : Engine) : e.Aside e :=
  ⟨rfl, List.prefix_refl _⟩

theorem Aside.of_same {e e' : Engine} (hjournal : e'.journal = e.journal)
    (hfaults : e'.faults = e.faults) : e.Aside e' := by
  have hcommands : e'.commands = e.commands := by rw [commands, hjournal, commands]
  have hrefusals : e'.refusals = e.refusals := by rw [refusals, hfaults, refusals]
  exact ⟨hcommands, hrefusals ▸ List.prefix_refl _⟩

theorem aside_record {e : Engine} {frame : FrameInfo} {activity : Activity}
    (h : activity.isCommand = false) : e.Aside (e.record frame activity) := by
  refine ⟨?_, List.prefix_refl _⟩
  simp [commands, record, h]

theorem aside_takeFault {e e' : Engine} {call : EngineCall} {error : EngineError}
    (h : e.takeFault call = some (error, e')) (hinvoke : call ≠ .invoke)
    (hdebugger : call ≠ .debuggerCommand) : e.Aside e' := by
  obtain ⟨f, -, heq⟩ := Option.map_eq_some_iff.mp h
  cases heq
  have hrefusals : ∀ faults : List (EngineCall × EngineError),
      (faults.eraseP (·.1 == call)).filter (fun f => f.1 == .invoke || f.1 == .debuggerCommand) =
        faults.filter fun f => f.1 == .invoke || f.1 == .debuggerCommand := by
    intro faults
    induction faults with
    | nil => rfl
    | cons f faults ih =>
      rw [List.eraseP_cons]
      by_cases hf : (f.1 == call) = true
      · have hcall : f.1 = call := by simpa using hf
        rw [hf, cond_true, List.filter_cons_of_neg]
        simp [hcall, hinvoke, hdebugger]
      · rw [Bool.not_eq_true] at hf
        rw [hf, cond_false, List.filter_cons, List.filter_cons, ih]
  refine ⟨rfl, ?_⟩
  simp only [refusals, hrefusals]
  exact List.prefix_refl _

theorem counts_of_takeFault {e e' : Engine} {call : EngineCall} {error : EngineError}
    (h : e.takeFault call = some (error, e')) : e'.active = e.active ∧ e'.peak = e.peak := by
  obtain ⟨f, -, heq⟩ := Option.map_eq_some_iff.mp h
  cases heq
  exact ⟨rfl, rfl⟩

end Engine

/-- An outermost invocation that has not told the host of its end. -/
def Invocation.inProgress (i : Invocation) : Bool :=
  i.outermost && match i.phase with
    | .ending _ => false
    | _ => true

/-- The invocation that goes on after a move. -/
def Move.invocation? : Move → Option Invocation
  | advance i | call _ i | sleep _ i => some i
  | _ => none

namespace Invocation

theorem inProgress_of_phase {i : Invocation} (h : ∀ r, i.phase ≠ .ending r) :
    i.inProgress = i.outermost := by
  unfold inProgress
  split
  · next r hphase => exact absurd hphase (h r)
  · exact Bool.and_true _

/-- An invocation that goes on and has not ended. -/
def GoesOn (i i' : Invocation) : Prop :=
  i'.frame = i.frame ∧ i'.outermost = i.outermost ∧ ∀ r, i'.phase ≠ .ending r

/-- Work on a job: the engine is given no command and counts as before, and the invocation
goes on if it is not left by a panic. -/
structure Works (i : Invocation) (e : Engine) (r : Engine × Move) : Prop where
  aside : e.Aside r.1
  active_same : r.1.active = e.active
  peak_same : r.1.peak = e.peak
  goes_on : ∀ i', r.2.invocation? = some i' → i.GoesOn i'

variable {e : Engine} {i : Invocation}

theorem Works.of_same {e' : Engine} {move : Move} (hjournal : e'.journal = e.journal)
    (hfaults : e'.faults = e.faults) (hactive : e'.active = e.active) (hpeak : e'.peak = e.peak)
    (h : ∀ i', move.invocation? = some i' → i.GoesOn i') : i.Works e (e', move) :=
  ⟨.of_same hjournal hfaults, hactive, hpeak, h⟩

theorem works_fail (error : EngineError) : i.Works e (e, .advance (i.fail error)) := by
  refine .of_same rfl rfl rfl rfl ?_
  rintro i' ⟨rfl⟩
  exact ⟨rfl, rfl, by simp [fail]⟩

theorem works_pass (output : List Value) : i.Works e (e, .advance (i.pass output)) := by
  refine .of_same rfl rfl rfl rfl ?_
  rintro i' ⟨rfl⟩
  exact ⟨rfl, rfl, by simp [pass]⟩

theorem works_stopped {otherwise : Engine × Move} (h : i.Works e otherwise) :
    i.Works e (i.stopped? e otherwise) := by
  unfold stopped?
  split
  · exact works_fail _
  · exact h

theorem works_builtin (b : Builtin) (arguments : List Value) :
    i.Works e (i.runBuiltin e b arguments) := by
  unfold runBuiltin
  split
  case h_1 => exact works_pass _
  case h_2 =>
    split
    · exact works_pass _
    · exact works_fail _
    · exact .of_same rfl rfl rfl rfl (by simp [Move.invocation?])
  case h_4 => exact works_fail _
  case h_10 =>
    split
    · exact works_fail _
    · refine .of_same rfl rfl rfl rfl ?_
      rintro i' ⟨rfl⟩
      exact ⟨rfl, rfl, by simp [pass]⟩
  all_goals
    refine .of_same rfl rfl rfl rfl ?_
    rintro i' ⟨rfl⟩
    exact ⟨rfl, rfl, by simp [pass]⟩

theorem works_job (job : Job) : i.Works e (i.runJob e job) := by
  unfold runJob
  split
  · refine .of_same rfl rfl rfl rfl ?_
    rintro i' ⟨rfl⟩
    exact ⟨rfl, rfl, by simp⟩
  · split
    · exact works_builtin _ _
    · exact works_fail _

/-- What becomes of an invocation by a step, and of the count of outermost ones. -/
structure Stepped (i : Invocation) (e : Engine) (r : Engine × Move) : Prop where
  aside : e.Aside r.1
  peak_same : r.1.peak = e.peak
  left : r.2.invocation? = none → r.1.active = e.active
  advanced : ∀ i', r.2.invocation? = some i' → i'.frame = i.frame ∧ i'.outermost = i.outermost ∧
    (i'.inProgress = i.inProgress ∧ r.1.active = e.active ∨
      i.inProgress = true ∧ i'.inProgress = false ∧ r.1.active = e.active - 1)
  called : ∀ c i', r.2 = .call c i' →
    (∃ state reason, c = .stateChanged state reason) ∨ i'.inProgress = i'.outermost

theorem Works.stepped {r : Engine × Move} (h : i.Works e r) (hphase : ∀ r, i.phase ≠ .ending r) :
    i.Stepped e r := by
  refine ⟨h.aside, h.peak_same, fun _ => h.active_same, ?_, ?_⟩
  · intro i' hi'
    obtain ⟨hframe, houtermost, hphase'⟩ := h.goes_on i' hi'
    refine ⟨hframe, houtermost, Or.inl ⟨?_, h.active_same⟩⟩
    rw [inProgress_of_phase hphase', inProgress_of_phase hphase, houtermost]
  · intro c i' hcall
    obtain ⟨-, -, hphase'⟩ := h.goes_on i' (by rw [hcall]; rfl)
    exact Or.inr (inProgress_of_phase hphase')

/-- A step that only goes to another phase. -/
theorem works_phase (phase : Phase) (hphase : ∀ r, phase ≠ .ending r) (move : Move)
    (hmove : move.invocation? = some { i with phase }) : i.Works e (e, move) := by
  refine .of_same rfl rfl rfl rfl ?_
  intro i' hi'
  obtain rfl := Option.some.inj (hmove.symm.trans hi')
  exact ⟨rfl, rfl, hphase⟩

theorem stepped (e : Engine) (i : Invocation) : i.Stepped e (i.step e) := by
  unfold step
  split
  case h_1 hphase =>
    exact (works_phase .evaluating (by simp) _ rfl).stepped (by simp [hphase])
  case h_2 hphase =>
    split
    · exact (works_phase (.closing _) (by simp) _ rfl).stepped (by simp [hphase])
    · next job todo htodo =>
      have hjob : Works { i with todo } e (runJob e { i with todo } job) := works_job job
      have hworks : i.Works e (runJob e { i with todo } job) :=
        ⟨hjob.aside, hjob.active_same, hjob.peak_same, hjob.goes_on⟩
      exact (works_stopped hworks).stepped (by simp [hphase])
  case h_3 hphase =>
    exact (works_phase .evaluating (by simp) _ rfl).stepped (by simp [hphase])
  case h_4 c calls hphase =>
    exact (works_phase (.rendering calls) (by simp) _ rfl).stepped (by simp [hphase])
  case h_5 hphase =>
    refine (Works.of_same rfl rfl rfl rfl ?_).stepped (by simp [hphase])
    rintro i' ⟨rfl⟩
    exact ⟨rfl, rfl, by simp [hphase]⟩
  case h_6 hphase => exact (works_stopped (works_pass _)).stepped (by simp [hphase])
  case h_7 ms hphase =>
    refine (works_stopped ?_).stepped (by simp [hphase])
    exact works_phase .evaluating (by simp) _ rfl
  case h_8 r hphase =>
    have hprogress := inProgress_of_phase (i := i) (by simp [hphase])
    dsimp only
    split
    · next houtermost =>
      refine ⟨?_, ?_, by simp [Move.invocation?], ?_, ?_⟩
      · split <;> exact .of_same rfl rfl
      · split <;> rfl
      · rintro i' ⟨rfl⟩
        refine ⟨rfl, rfl, Or.inr ⟨hprogress.trans houtermost, by simp [inProgress], ?_⟩⟩
        split <;> rfl
      · rintro c i' ⟨rfl⟩
        unfold finalCall
        split <;> exact Or.inl ⟨_, _, rfl⟩
    · next houtermost =>
      refine ⟨?_, ?_, by simp [Move.invocation?], ?_, by simp⟩
      · split <;> exact .of_same rfl rfl
      · split <;> rfl
      · rintro i' ⟨rfl⟩
        refine ⟨rfl, rfl, Or.inl ⟨?_, ?_⟩⟩
        · rw [hprogress]
          simp [inProgress, houtermost]
        · split <;> rfl
  case h_9 r hphase =>
    exact ⟨Engine.aside_record rfl, rfl, fun _ => rfl, by simp [Move.invocation?], by simp⟩

theorem resume_spec (e : Engine) (i : Invocation) (action : ResumeAction) :
    e.Aside (i.resume e action).1 ∧ (i.resume e action).1.active = e.active ∧
      (i.resume e action).1.peak = e.peak ∧ i.GoesOn (i.resume e action).2 := by
  unfold resume
  refine ⟨Engine.aside_record rfl, rfl, rfl, ?_⟩
  dsimp only
  split
  · exact ⟨rfl, rfl, by simp [fail]⟩
  · exact ⟨rfl, rfl, by simp [pass]⟩

end Invocation

end ScriptHost
