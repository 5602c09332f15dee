import ScriptHost.Proofs.AdmittedCalls

/-!
Disposing of the service. Whoever disposes marks the session first, and it stays marked. From
then on a call that was not checked yet ends with its refusal, and nothing else. What calls
that were admitted before wait for is not taken from them: they are served as if the service
had not been disposed of, each at most once.
-/

namespace ScriptHost.Service

variable {past later earlier : List Transition} {w w' : World} {mover : Option Nat} {k : Nat}
  {t : Thread} {a : Activation} {rest : List Activation} {m : World × Thread} {r : Outcome}
  {x : Transition}

/-- A step with which thread `k` disposes of the service. -/
def Transition.Disposes (x : Transition) (k : Nat) : Prop :=
  ∃ phase rest, x.mover = some k ∧ x.before.stackOf k = .dispose phase :: rest

/-- How a call is found whose thread is still to be checked when the service is disposed: it has
not begun, it ended with its refusal, or it was given up. -/
def Thread.Turned (a : Activation) (r : Outcome) (t : Thread) : Prop :=
  t.stack = [a] ∨ t.stack = [] ∧ (t.control = .back r ∨ t.control = .dropped)

theorem disposed_of_marking (h : Run past w) (ht : w.threads[k]? = some t)
    (hs : t.stack = .dispose .marking :: rest) (hm : m ∈ t.moves w k) :
    m.1.session.state = .disposed := by
  cases goes_of_takes_nil (typed_of_run h ht) hs rfl hm with
  | onward hnext => cases hnext
  | ended hend => cases hend
  | disposed =>
    rw [session_setSession]
    exact Session.state_disposed

/-- Somebody who disposes of the service has not begun, or the session is marked. -/
theorem marked_of_run (h : Run past w) (ht : w.threads[k]? = some t) {phase : DisposePhase}
    (hmem : .dispose phase ∈ t.stack) : phase = .marking ∨ w.session.state = .disposed := by
  induction h generalizing k t phase with
  | start hactive hpeak h =>
    rw [(fresh_of_start h).threads] at ht
    cases ht
  | @step past w w' mover h hstep ih =>
    have hstays := (session_step h hstep).disposed
    cases thread_after hstep ht with
    | same ht => exact (ih ht hmem).imp_right hstays
    | @moved t₀ m ht₀ hm heq hw' =>
      obtain ⟨a, rest, hs, new, hs', hdeed⟩ := deed_of_moves (poised_of_run h ht₀) hm
      have hold : ∀ b ∈ a :: rest, b = .dispose phase → phase = .marking ∨
          w'.session.state = .disposed := by
        rintro b hb rfl
        exact (ih ht₀ (hs ▸ hb)).imp_right hstays
      rw [heq, hs'] at hmem
      rcases List.mem_append.mp hmem with hmem | hmem
      · rcases hdeed.task_before hmem rfl with rfl | halike
        · exact hold _ List.mem_cons_self rfl
        · cases a with
          | dispose phase₀ =>
            rcases ih ht₀ (hs ▸ List.mem_cons_self) with rfl | hdisposed
            · rw [hw']
              exact Or.inr (disposed_of_marking h ht₀ hs hm)
            · exact Or.inr (hstays hdisposed)
          | _ => cases halike
      · exact hold _ (List.mem_cons_of_mem a hmem) rfl
    | started hnewly hk =>
      cases hnewly with
      | called hentry => cases hentry <;> simp at hmem; exact Or.inl hmem
      | reader handle read | worker handle o => simp at hmem
    | dropped ht hgo hs hs' | returned ht hs hc hs' =>
      rw [hs'] at hmem
      cases hmem

theorem disposed_of_disposes (h : Run (later ++ x :: earlier) w) (hx : x.Disposes k) :
    x.after.session.state = .disposed := by
  obtain ⟨hbefore, hstep⟩ := run_before h
  obtain ⟨before, mover, after⟩ := x
  obtain ⟨phase, rest, rfl, hs⟩ := hx
  have hstays := (session_step hbefore hstep).disposed
  cases hstep with
  | move hfree hmove =>
    obtain ⟨t, ht, m, hm, rfl⟩ := mem_next.mp hmove
    have hs : t.stack = .dispose phase :: rest := (stackOf_of_thread ht).symm.trans hs
    rcases marked_of_run hbefore ht (hs ▸ List.mem_cons_self) with rfl | hdisposed
    · exact disposed_of_marking hbefore ht hs hm
    · exact hstays hdisposed

theorem turned_of_step (h : Run past w) (hdisposed : w.session.state = .disposed)
    (hstep : Step w mover w') (ha : a.refusal? = some r) (ht : w.threads[k]? = some t)
    (hturned : t.Turned a r) : ∃ t', w'.threads[k]? = some t' ∧ t'.Turned a r := by
  obtain ⟨t', ht'⟩ := (next_of_step hstep).thread_stays (x := w.exchange) ht
  refine ⟨t', ht', ?_⟩
  cases thread_after hstep ht' with
  | same ht₀ =>
    obtain rfl := Option.some.inj (ht.symm.trans ht₀)
    exact hturned
  | moved ht₀ hm heq hw' =>
    obtain rfl := Option.some.inj (ht.symm.trans ht₀)
    rcases hturned with hs | ⟨hs, -⟩
    · rw [moves_of_refusal h hdisposed ht hs ha] at hm
      rw [heq, List.mem_singleton.mp hm]
      exact Or.inr ⟨rfl, Or.inl rfl⟩
    · exact absurd hs (stack_ne_nil_of_moves hm)
  | started hnewly hk =>
    exact absurd (List.getElem?_eq_some_iff.mp ht).1 (Nat.not_lt.mpr hk)
  | dropped _ _ _ hs' hc' | returned _ _ _ hs' hc' => exact Or.inr ⟨hs', Or.inr hc'⟩

theorem turned_of_run (h : Run (later ++ x :: earlier) w)
    (hdisposed : x.after.session.state = .disposed) (ha : a.refusal? = some r)
    (ht : x.after.threads[k]? = some t) (hturned : t.Turned a r) :
    ∃ t', w.threads[k]? = some t' ∧ t'.Turned a r := by
  induction later generalizing w with
  | nil =>
    rw [after_of_run h]
    exact ⟨t, ht, hturned⟩
  | cons y later ih =>
    cases h with
    | step h hstep =>
      obtain ⟨t', ht', hturned'⟩ := ih h
      exact turned_of_step h (disposed_of_run h hdisposed) hstep ha ht' hturned'

theorem aside_of_unserved (h : Run (later ++ x :: earlier) w)
    (hserves : x.serves .order = false) : x.before.engine.Aside x.after.engine := by
  obtain ⟨hbefore, hstep⟩ := run_before h
  have hengine := engine_of_step (fitted_of_run hbefore) hstep
  have hnone : x.before.exchange.handed x.mover x.after.exchange = none :=
    Option.not_isSome_iff_eq_none.mp (Bool.eq_false_iff.mp hserves)
  rwa [hnone] at hengine

/-- From its first step on, a disposal admits no call. Every order that is handed to the engine
after it, every line that the engine reads and every lease that is given out is for a call that
was admitted before, and there is no more of them than of such calls; the engine is given a
command by no other step. A call that was not checked by then, or that is made later, can only
end with its refusal, and never waits to do so. -/
theorem disposal_admits_none (h : Run (later ++ x :: earlier) w) (hx : x.Disposes k) :
    (∀ gift, w.admitted gift + later.countP (·.serves gift) ≤ x.after.admitted gift) ∧
    (∀ y ∈ later, y.serves .order = false → y.before.engine.Aside y.after.engine) ∧
    (∀ (j : Nat) (t : Thread) (a : Activation) (rest : List Activation) (r : Outcome),
      w.threads[j]? = some t → t.stack = a :: rest → a.refusal? = some r →
      t.moves w j = [(w, t.give rest r)]) ∧
    ∀ y ∈ x :: later, ∀ (j : Nat) (t : Thread) (a : Activation) (r : Outcome),
      y.after.threads[j]? = some t → t.stack = [a] → a.refusal? = some r →
      ∃ t', w.threads[j]? = some t' ∧ t'.Turned a r := by
  have hdisposed := disposed_of_disposes h hx
  refine ⟨admitted_of_run h hdisposed, ?_, ?_, ?_⟩
  · intro y hy hserves
    obtain ⟨newer, older, rfl⟩ := List.append_of_mem hy
    rw [List.append_assoc, List.cons_append] at h
    exact aside_of_unserved h hserves
  · intro j t a rest r ht hs ha
    exact moves_of_refusal h (disposed_of_run h hdisposed) ht hs ha
  · intro y hy j t a r ht hs ha
    rcases List.mem_cons.mp hy with rfl | hy
    · exact turned_of_run h hdisposed ha ht (Or.inl hs)
    · obtain ⟨newer, older, rfl⟩ := List.append_of_mem hy
      rw [List.append_assoc, List.cons_append] at h
      have hlater : Run ((y :: older) ++ x :: earlier) y.after := by
        obtain ⟨hbefore, hstep⟩ := run_before h
        exact hbefore.step hstep
      exact turned_of_run h (disposed_of_run hlater hdisposed) ha ht (Or.inl hs)

/-- Somebody waits for a lease when the service is disposed, and gets it when the running
command was stopped; whoever calls after the disposal is refused. -/
theorem disposal_admits_none_waiting : ∃ later x earlier w, Run (later ++ x :: earlier) w ∧
    x.Disposes 3 ∧ x.after.stackOf 3 = [] ∧ x.after.admitted .lease = 1 ∧
    later.countP (·.serves .lease) = 1 ∧ w.admitted .lease = 0 ∧
    ∃ t, w.threads[4]? = some t ∧ t.stack = [] ∧
      (t.control = .back (.reply (.error .disposed)) ∨ t.control = .dropped) := by
  have hstart : Run [] _ := @Run.start {} {} _ rfl rfl rfl
  have hsleeping := run_of_follow (hstart.step (.call (.execute
    { command := .ofScript "sleep 600000", options := {} })))
    (List.replicate 12 0 ++ List.replicate 4 1)
  have hwaiting := run_of_follow (hsleeping.step (.call (.lease none))) (List.replicate 4 2)
  have hdisposing := run_of_follow (hwaiting.step (.call .dispose)) (List.replicate 4 3)
  have hdisposed := hdisposing.step (.move (k := 3) rfl (List.mem_singleton_self _))
  have hcalled := hdisposed.step (.call (.execute
    { command := .ofScript "echo hi", options := {} }))
  have hended := run_of_follow hcalled (List.replicate 2 4 ++ List.replicate 8 1 ++
    List.replicate 3 2)
  have hsplit : ∀ (A B : List Transition) (y x : Transition),
      A ++ y :: x :: B = (A ++ [y]) ++ x :: B := by simp
  have hrun := (congrArg (Run · _) (hsplit _ _ _ _)).mp hended
  obtain ⟨hserved, -, -, hturned⟩ := disposal_admits_none (k := 3) hrun ⟨_, _, rfl, rfl⟩
  have hnone : ∀ {n served admitted : Nat}, n + served ≤ admitted → admitted = 1 → served = 1 →
      n = 0 := by omega
  obtain ⟨t, ht, hs | hend⟩ := hturned _ (List.mem_cons_of_mem _ (List.mem_append_right _
    List.mem_cons_self)) 4 _ _ _ rfl rfl rfl
  · have hstanding : (some t).any (·.stack.isEmpty) = false := congrArg List.isEmpty hs
    have hthread := congrArg (Option.any fun t : Thread => t.stack.isEmpty) ht
    exact absurd (hthread.trans hstanding) (by decide +kernel)
  · exact ⟨_, _, _, _, hrun, ⟨_, _, rfl, rfl⟩, rfl, by decide +kernel, by decide +kernel,
      hnone (hserved .lease) (by decide +kernel) (by decide +kernel), t, ht, hend⟩

/-- A call waits for the lease of its frame when the service is disposed, and its command is run
after that. -/
theorem order_handed_after_disposal : ¬ ∀ later x earlier w k, Run (later ++ x :: earlier) w →
    x.mover = some k → x.before.stackOf k = [.dispose .interrupting] → x.after.stackOf k = [] →
    ∀ gift, later.countP (·.serves gift) = 0 := by
  intro hclaim
  have hstart : Run [] _ := @Run.start {} {} _ rfl rfl rfl
  have hsleeping := run_of_follow (hstart.step (.call (.execute
    { command := .ofScript "sleep 600000", options := {} })))
    (List.replicate 12 0 ++ List.replicate 4 1)
  have hwaiting := run_of_follow (hsleeping.step (.call (.execute
    { command := .ofScript "echo hi", options := {} }))) (List.replicate 8 2)
  have hdisposing := run_of_follow (hwaiting.step (.call .dispose)) (List.replicate 4 3)
  have hdisposed := hdisposing.step (.move (k := 3) rfl (List.mem_singleton_self _))
  have hended := run_of_follow hdisposed (List.replicate 8 1 ++ List.replicate 5 2 ++ [4])
  exact absurd (hclaim _ _ _ _ 3 hended rfl rfl rfl .order) (by decide +kernel)

end ScriptHost.Service
