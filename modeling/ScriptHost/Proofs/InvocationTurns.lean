import ScriptHost.Proofs.EngineSteps

/-!
What an invocation can do next. The outermost invocation of a thread tells its host of its
beginning and of its end; between the two, and all the time for an inner one, an invocation
goes on without a word about itself. Into the journal it writes only when it is finished.
-/

namespace ScriptHost

/-- Whether a call of the engine tells its host of the state of an invocation. -/
def HostCall.tells : HostCall → Bool
  | stateChanged _ _ => true
  | _ => false

def HostCall.writes : HostCall → Bool
  | writeLine _ | writeErrorLine _ => true
  | _ => false

namespace Invocation

/-- Whether an invocation is past its beginning and has not come to its end. -/
def atWork (i : Invocation) : Bool :=
  match i.phase with
  | .opening | .closing _ | .ending _ => false
  | _ => true

/-- Only an outermost invocation has a beginning to tell of, and rendering does nothing but
write. -/
def Proper (i : Invocation) : Prop :=
  match i.phase with
  | .opening => i.outermost = true
  | .rendering calls => ∀ c ∈ calls, c.writes = true
  | _ => True

/-- An invocation goes from `i` to `i'` without a word to the session. -/
structure Onward (i i' : Invocation) : Prop where
  begun : i.phase ≠ .opening
  begun' : i'.phase ≠ .opening
  outermost : i'.outermost = i.outermost
  progress : i'.inProgress = i.inProgress
  proper : i'.Proper

/-- What an invocation can do next. -/
inductive Turn (i : Invocation) : Move → Prop
  | announces (hphase : i.phase = .opening) :
      Turn i (.call (.stateChanged .running none) { i with phase := .evaluating })
  | concludes (r : Evaluation) (hphase : i.phase = .closing r) (houtermost : i.outermost = true) :
      Turn i (.call (finalCall r) { i with phase := .ending r })
  | advances (i' : Invocation) (h : i.Onward i') : Turn i (.advance i')
  | sleeps (ms : Nat) (i' : Invocation) (h : i.Onward i') : Turn i (.sleep ms i')
  | calls (c : HostCall) (i' : Invocation) (hc : c.tells = false) (h : i.Onward i')
      (hwork : i'.atWork = true) : Turn i (.call c i')
  | finishes (r : Evaluation) : Turn i (.finish r)
  | breaks (p : Panic) : Turn i (.panic p)

variable {e : Engine} {i i' : Invocation}

theorem ne_opening_of_atWork (h : i.atWork = true) : i.phase ≠ .opening := by
  intro hphase
  rw [atWork, hphase] at h
  cases h

theorem inProgress_of_atWork (h : i.atWork = true) : i.inProgress = i.outermost := by
  refine inProgress_of_phase fun r hphase => ?_
  rw [atWork, hphase] at h
  cases h

/-- An invocation at work goes on to another phase, in which it has not ended. -/
theorem Onward.of_atWork (h : i.atWork = true) (hproper : i'.Proper)
    (houtermost : i'.outermost = i.outermost) (hbegun : i'.phase ≠ .opening)
    (hending : ∀ r, i'.phase ≠ .ending r) : i.Onward i' :=
  ⟨ne_opening_of_atWork h, hbegun, houtermost,
    by rw [inProgress_of_phase hending, inProgress_of_atWork h, houtermost], hproper⟩

theorem Onward.pass (h : i.atWork = true) (houtermost : i'.outermost = i.outermost)
    (output : List Value) : i.Onward (i'.pass output) :=
  .of_atWork h trivial houtermost (by simp [Invocation.pass]) (by simp [Invocation.pass])

theorem Onward.fail (h : i.atWork = true) (houtermost : i'.outermost = i.outermost)
    (error : EngineError) : i.Onward (i'.fail error) :=
  .of_atWork h trivial houtermost (by simp [Invocation.fail]) (by simp [Invocation.fail])

theorem Onward.atWork (h : i.atWork = true) (houtermost : i'.outermost = i.outermost)
    (h' : i'.atWork = true) (hproper : i'.Proper) : i.Onward i' := by
  refine .of_atWork h hproper houtermost (ne_opening_of_atWork h') fun r hr => ?_
  rw [Invocation.atWork, hr] at h'
  cases h'

theorem turn_builtin (h : i.atWork = true) (houtermost : i'.outermost = i.outermost)
    (b : Builtin) (arguments : List Value) : i.Turn (i'.runBuiltin e b arguments).2 := by
  unfold runBuiltin
  split
  case h_1 => exact .advances _ (.pass h houtermost _)
  case h_2 =>
    split
    · exact .advances _ (.pass h houtermost _)
    · exact .advances _ (.fail h houtermost _)
    · exact .breaks _
  case h_3 => exact .advances _ (.atWork h houtermost rfl trivial)
  case h_4 => exact .advances _ (.fail h houtermost _)
  case h_5 => exact .advances _ (.atWork h houtermost rfl trivial)
  case h_6 => exact .calls _ _ rfl (.atWork h houtermost rfl trivial) rfl
  case h_7 => exact .calls _ _ rfl (.pass h houtermost _) rfl
  case h_8 => exact .calls _ _ rfl (.atWork h houtermost rfl trivial) rfl
  case h_9 => exact .calls _ _ rfl (.pass h houtermost _) rfl
  case h_10 =>
    split
    · exact .advances _ (.fail h houtermost _)
    · exact .advances _ (.pass h houtermost _)
  all_goals exact .advances _ (.pass h houtermost _)

theorem writes_of_renderCalls (i : Invocation) : ∀ c ∈ i.renderCalls, c.writes = true := by
  intro c hc
  simp only [renderCalls, List.mem_append, List.mem_map] at hc
  rcases hc with ⟨v, -, rfl⟩ | hc
  · rfl
  · split at hc
    · obtain ⟨v, -, rfl⟩ := List.mem_map.mp hc
      rfl
    · cases hc

theorem turn_job (h : i.atWork = true) (houtermost : i'.outermost = i.outermost) (job : Job) :
    i.Turn (i'.runJob e job).2 := by
  unfold runJob
  split
  · exact .advances _ (.of_atWork h (writes_of_renderCalls i') houtermost (by simp) (by simp))
  · split
    · exact turn_builtin h houtermost _ _
    · exact .advances _ (.fail h houtermost _)

theorem turn_stopped (h : i.atWork = true) {otherwise : Engine × Move}
    (hotherwise : i.Turn otherwise.2) : i.Turn (i.stopped? e otherwise).2 := by
  unfold stopped?
  split
  · exact .advances _ (.fail h rfl _)
  · exact hotherwise

theorem turn_step (h : i.Proper) : i.Turn (i.step e).2 := by
  have hwork : ∀ phase : Phase, i.phase = phase → { i with phase }.atWork = true →
      i.atWork = true := by
    rintro phase rfl hat
    exact hat
  unfold Proper at h
  unfold step
  split
  case h_1 hphase => exact .announces hphase
  case h_2 hphase =>
    have hat := hwork _ hphase rfl
    split
    · exact .advances _ (.of_atWork hat trivial rfl (by simp) (by simp))
    · next job todo htodo =>
      have houtermost : ({ i with todo } : Invocation).outermost = i.outermost := rfl
      exact turn_stopped hat (turn_job hat houtermost job)
  case h_3 hphase =>
    exact .advances _ (.of_atWork (hwork _ hphase rfl) trivial rfl (by simp) (by simp))
  case h_4 c calls hphase =>
    rw [hphase] at h
    have hwrites : ∀ c' ∈ calls, c'.writes = true := fun c' hc' => h c' (List.mem_cons_of_mem c hc')
    have hsilent : c.tells = false := by
      have := h c List.mem_cons_self
      cases c <;> first | rfl | cases this
    exact .calls _ _ hsilent
      (.of_atWork (hwork _ hphase rfl) hwrites rfl (by simp) (by simp)) rfl
  case h_5 hphase =>
    have hat := hwork _ hphase rfl
    refine .advances _ (.of_atWork hat ?_ rfl (ne_opening_of_atWork hat) (by simp [hphase]))
    simp [Proper, hphase]
  case h_6 hphase =>
    have hat := hwork _ hphase rfl
    exact turn_stopped hat (.advances _ (.pass hat rfl _))
  case h_7 ms hphase =>
    have hat := hwork _ hphase rfl
    exact turn_stopped hat (.sleeps _ _ (.pass hat rfl _))
  case h_8 r hphase =>
    dsimp only
    split
    · next houtermost => exact .concludes r hphase houtermost
    · next houtermost =>
      refine .advances _ ⟨by simp [hphase], by simp, rfl, ?_, trivial⟩
      simp [inProgress, houtermost]
  case h_9 r hphase => exact .finishes r

theorem onward_resume (h : i.atWork = true) (action : ResumeAction) :
    i.Onward (i.resume e action).2 := by
  unfold resume
  dsimp only
  split
  · exact .fail h rfl _
  · exact .pass h rfl _

/-- Nothing is written into the journal, and the invocation is not finished. -/
structure Unwritten (e : Engine) (i : Invocation) (r : Engine × Move) : Prop where
  journal : r.1.journal = e.journal
  unfinished : ∀ result, r.2 ≠ .finish result
  text : ∀ i', r.2.invocation? = some i' → i'.text = i.text

theorem unwritten_advance (h : i'.text = i.text) : i.Unwritten e (e, .advance i') :=
  ⟨rfl, by simp, by rintro _ ⟨rfl⟩; exact h⟩

theorem unwritten_builtin (b : Builtin) (arguments : List Value) :
    i.Unwritten e (i.runBuiltin e b arguments) := by
  unfold runBuiltin
  split
  case h_2 =>
    split
    · exact unwritten_advance rfl
    · exact unwritten_advance rfl
    · exact ⟨rfl, by simp, by simp [Move.invocation?]⟩
  case h_10 =>
    split
    · exact unwritten_advance rfl
    · exact ⟨rfl, by simp, by rintro _ ⟨rfl⟩; rfl⟩
  all_goals exact ⟨rfl, by simp, by rintro _ ⟨rfl⟩; rfl⟩

theorem unwritten_job (job : Job) : i.Unwritten e (i.runJob e job) := by
  unfold runJob
  split
  · exact unwritten_advance rfl
  · split
    · exact unwritten_builtin _ _
    · exact unwritten_advance rfl

theorem unwritten_stopped {otherwise : Engine × Move} (h : i.Unwritten e otherwise) :
    i.Unwritten e (i.stopped? e otherwise) := by
  unfold stopped?
  split
  · exact unwritten_advance rfl
  · exact h

/-- An invocation writes into the journal by its last step only. -/
theorem written_step (e : Engine) (i : Invocation) :
    (∃ r, i.phase = .ending r ∧
      i.step e = (e.record i.frame (.finished i.text), .finish r)) ∨
    (∀ r, i.phase ≠ .ending r) ∧ i.Unwritten e (i.step e) := by
  unfold step
  split
  case h_1 hphase => exact Or.inr ⟨by simp [hphase], rfl, by simp, by rintro _ ⟨rfl⟩; rfl⟩
  case h_2 hphase =>
    refine Or.inr ⟨by simp [hphase], ?_⟩
    split
    · exact unwritten_advance rfl
    · next job todo htodo =>
      have hjob : Unwritten e { i with todo } (runJob e { i with todo } job) := unwritten_job job
      exact unwritten_stopped ⟨hjob.journal, hjob.unfinished, hjob.text⟩
  case h_3 hphase => exact Or.inr ⟨by simp [hphase], unwritten_advance rfl⟩
  case h_4 hphase => exact Or.inr ⟨by simp [hphase], rfl, by simp, by rintro _ ⟨rfl⟩; rfl⟩
  case h_5 hphase => exact Or.inr ⟨by simp [hphase], unwritten_advance rfl⟩
  case h_6 hphase =>
    exact Or.inr ⟨by simp [hphase], unwritten_stopped (unwritten_advance rfl)⟩
  case h_7 hphase =>
    refine Or.inr ⟨by simp [hphase], unwritten_stopped ⟨rfl, by simp, ?_⟩⟩
    rintro _ ⟨rfl⟩
    rfl
  case h_8 r hphase =>
    refine Or.inr ⟨by simp [hphase], ?_⟩
    dsimp only
    split
    · refine ⟨?_, by simp, by rintro _ ⟨rfl⟩; rfl⟩
      split <;> rfl
    · refine ⟨?_, by simp, by rintro _ ⟨rfl⟩; rfl⟩
      split <;> rfl
  case h_9 r hphase => exact Or.inl ⟨r, hphase, rfl⟩

end Invocation

end ScriptHost
