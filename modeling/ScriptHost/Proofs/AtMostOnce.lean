import ScriptHost.Proofs.FitRuns
import ScriptHost.Proofs.UnservedCalls

/-!
Every call reaches the engine at most once. However its order is routed, posted, parked,
reclaimed and routed again, and whoever competes for it, the engine is given the order of
a call once or never, and once if the call succeeds.
-/

namespace ScriptHost.Service

/-- The order that a transition hands to the engine, with where it was due. -/
def Transition.handed (x : Transition) : Option Due :=
  x.before.exchange.handed x.mover x.after.exchange

/-- The course of the call at height `h` of thread `k` along transitions, latest first. -/
def course (k h : Nat) : List Transition → Course
  | [] => {}
  | x :: later => (course k h later).extend k h x.before.exchange x.mover x.after.exchange

theorem named_made_of_run {past : List Transition} {w : World} (h : Run past w) :
    w.exchange.NamedMade := by
  induction h with
  | start hactive hpeak h =>
    intro k height o phase hcall
    obtain ⟨t, ht, -⟩ := Exchange.exists_of_callOf hcall
    rw [World.exchange, (fresh_of_start h).threads] at ht
    cases ht
  | step h hstep ih => exact (next_of_step hstep).named_made ih

section Begun

variable {x : Exchange} {k : Nat} {t : Thread} {o : Order} {rest : List Activation}

theorem call_of_due {j k h : Nat} {o : Order} {s : List Activation}
    (hmem : (Source.call j h, o) ∈ stackDues k s) : j = k ∧ h < s.length := by
  induction s with
  | nil => exact absurd hmem (Multiset.notMem_zero _)
  | cons a rest ih =>
    rw [stackDues_cons, Multiset.mem_add] at hmem
    rw [List.length_cons]
    rcases hmem with hmem | hmem
    · have hdue : a.due? k rest = some (.call j h, o) := by simpa using hmem
      unfold Activation.due? at hdue
      split at hdue
      · split at hdue <;> cases hdue
        exact ⟨rfl, Nat.lt_succ_self _⟩
      · cases hdue
      · cases hdue
      · obtain ⟨asker, hasker, heq⟩ := Option.map_eq_some_iff.mp hdue
        cases heq
        unfold asker? at hasker
        split at hasker
        · cases hasker
          exact ⟨rfl, by rw [List.length_cons]; omega⟩
        · cases hasker
        · cases hasker
      · cases hdue
    · obtain ⟨rfl, hlt⟩ := ih hmem
      exact ⟨rfl, Nat.lt_succ_of_lt hlt⟩

/-- Of all that is due, one order is the call's own when it begins. -/
theorem dues_of_begun (ht : x.threads[k]? = some t) (hs : t.stack = .exec o .checking :: rest) :
    ∃ others, x.dues = (.call k rest.length, o) ::ₘ others ∧
      ∀ q ∈ others, q.1 ≠ .call k rest.length := by
  obtain ⟨elsewhere, hbefore, hafter⟩ :=
    exists_others (f := fun k t => stackDues k t.stack) ht
  refine ⟨x.queuedDues + (stackDues k rest + elsewhere), ?_, ?_⟩
  · rw [Exchange.dues, hbefore, hs, stackDues_of_owns rfl, Multiset.cons_add, Multiset.add_cons]
  · rintro ⟨source, o'⟩ hmem rfl
    rw [Multiset.mem_add, Multiset.mem_add] at hmem
    rcases hmem with hmem | hmem | hmem
    · obtain ⟨r, hr, -⟩ := Exchange.exists_request_of_queued hmem
      cases hr
    · exact Nat.lt_irrefl _ (call_of_due hmem).2
    · -- what is due elsewhere is due with another thread
      have htotal : (Source.call k rest.length, o') ∈
          total (fun k t => stackDues k t.stack) (x.threads.set k { stack := [] }) := by
        rw [hafter]
        exact Multiset.mem_add.mpr (Or.inr hmem)
      obtain ⟨j, t', ht', hdue⟩ := mem_total htotal
      obtain ⟨rfl, -⟩ := call_of_due hdue
      rw [List.getElem?_set_self (List.getElem?_eq_some_iff.mp ht).1] at ht'
      cases ht'
      exact Multiset.notMem_zero _ hdue

theorem callOf_of_begun (ht : x.threads[k]? = some t) (hs : t.stack = .exec o .checking :: rest) :
    x.callOf k rest.length = some (o, .checking) := by
  rw [Exchange.callOf_of_thread ht, hs, callAt_exec]

namespace Course

theorem owns_iff_of_begun {h : Nat} {source : Source} :
    (({} : Course).owns k h source = true) ↔ source = .call k h := by
  cases source <;> simp [owns]

theorem named_of_begun (hmade : x.NamedMade) (ht : x.threads[k]? = some t)
    (hs : t.stack = .exec o .checking :: rest) : ({} : Course).Named k rest.length o x := by
  refine ⟨by simp, by simp, ?_, by simp, hmade⟩
  exact fun _ => ⟨.checking, callOf_of_begun ht hs, by simp [ExecPhase.request?], by simp⟩

theorem once_of_begun (ht : x.threads[k]? = some t) (hs : t.stack = .exec o .checking :: rest) :
    ({} : Course).Once k rest.length o x := by
  obtain ⟨others, hdues, hothers⟩ := dues_of_begun ht hs
  refine ⟨?_, ?_, by simp⟩
  · have hnone : ({} : Course).owed k rest.length others = 0 := by
      refine Multiset.countP_eq_zero.mpr ?_
      intro q hq hown
      exact hothers q hq (owns_iff_of_begun.mp hown)
    rw [hdues, owed_cons_of_owns (owns_iff_of_begun.mpr rfl), hnone]
    exact le_refl _
  · intro q hq hown
    rw [hdues] at hq
    rcases Multiset.mem_cons.mp hq with rfl | hq
    · rfl
    · exact absurd (owns_iff_of_begun.mp hown) (hothers q hq)

/-- In a stack where no order is run inline at height `h`, nobody waits on behalf of the call
there. -/
theorem silent_of_not_inline {j h : Nat} {ok : Prop} {s : List Activation}
    (hs : j = k → ∀ o, callAt h s ≠ some (o, .inline)) :
    Silent (fun source => ({} : Course).owns k h source = true) j ok s := by
  induction s generalizing ok with
  | nil => trivial
  | cons a rest ih =>
    refine ⟨?_, ih ?_⟩
    · intro source hasker hown
      rw [owns_iff_of_begun] at hown
      subst hown
      unfold asker? at hasker
      split at hasker
      · next o' rest' heq =>
        cases heq
        cases hasker
        exact absurd callAt_exec (hs rfl o')
      · cases hasker
      · cases hasker
    · intro hj o' hcall
      refine hs hj o' ?_
      rwa [callAt_cons_of_lt (Exchange.lt_of_callAt hcall)]

theorem unserved_of_begun (ht : x.threads[k]? = some t)
    (hs : t.stack = .exec o .checking :: rest) : ({} : Course).Unserved k rest.length x := by
  have hcall := callOf_of_begun ht hs
  refine ⟨by simp, by simp, ?_, ?_, by simp⟩
  · intro j t' ht'
    refine silent_of_not_inline ?_
    rintro rfl o' hinline
    rw [← Exchange.callOf_of_thread ht', hcall] at hinline
    cases hinline
  · intro _ o' r hfinishing
    rw [hcall] at hfinishing
    cases hfinishing

end Course

end Begun

/-- What holds of a call along a run that goes on after it began. -/
theorem course_of_run {later past : List Transition} {x : Transition} {w : World} {k : Nat}
    {t : Thread} {o : Order} {rest : List Activation} (hrun : Run (later ++ x :: past) w)
    (ht : x.after.threads[k]? = some t) (hs : t.stack = .exec o .checking :: rest) :
    (course k rest.length later).Named k rest.length o w.exchange ∧
      (course k rest.length later).Once k rest.length o w.exchange ∧
      ((course k rest.length later).given = [] →
        (course k rest.length later).Unserved k rest.length w.exchange) := by
  induction later generalizing w with
  | nil =>
    have hmade := named_made_of_run hrun
    cases hrun with
    | step =>
      exact ⟨Course.named_of_begun hmade ht hs, Course.once_of_begun ht hs,
        fun _ => Course.unserved_of_begun ht hs⟩
  | cons y later ih =>
    cases hrun with
    | step hbefore hstep =>
      obtain ⟨hnamed, honce, hunserved⟩ := ih hbefore
      have hnext := next_of_step hstep
      have horderly := orderly_of_run hbefore
      refine ⟨hnamed.extend hnext, honce.extend hnamed horderly hnext, ?_⟩
      intro hgiven
      have hempty : (course k rest.length later).given = [] := (List.append_eq_nil_iff.mp hgiven).1
      exact (hunserved hempty).extend hnamed horderly hnext hgiven

theorem eq_nil_or_singleton {α : Type} {l : List α} {a : α} (hlength : l.length ≤ 1)
    (hall : ∀ b ∈ l, b = a) : l = [] ∨ l = [a] := by
  match l with
  | [] => exact Or.inl rfl
  | [b] => exact Or.inr (by rw [hall b (List.mem_singleton_self b)])
  | b :: c :: l => simp at hlength

/-- The order of a call is handed to the engine at most once, as the call's own command
prepared for the call's own options, and exactly once if the call comes to a success. A step
gives the engine the command of the order it hands over, and a step that hands none over
gives it none. -/
theorem handed_at_most_once {later past : List Transition} {x : Transition} {w : World} {k : Nat}
    {t : Thread} {o : Order} {rest : List Activation} (hrun : Run (later ++ x :: past) w)
    (ht : x.after.threads[k]? = some t) (hs : t.stack = .exec o .checking :: rest) :
    ((course k rest.length later).given = [] ∨ (course k rest.length later).given = [o]) ∧
      (∀ output, (course k rest.length later).reply = some (.ok output) →
        (course k rest.length later).given = [o]) ∧
      ∀ y ∈ later, match y.handed with
        | some q => y.before.engine.Given (q.2.command.prepared q.2.options) y.after.engine
        | none => y.before.engine.Aside y.after.engine := by
  obtain ⟨-, honce, hunserved⟩ := course_of_run hrun ht hs
  have hgiven : (course k rest.length later).given = [] ∨
      (course k rest.length later).given = [o] := by
    refine eq_nil_or_singleton ?_ honce.given_own
    have := honce.once
    omega
  refine ⟨hgiven, ?_, ?_⟩
  · intro output hreply
    refine hgiven.resolve_left fun hempty => ?_
    exact (hunserved hempty).reply output hreply
  · intro y hy
    obtain ⟨later₂, later₁, rfl⟩ := List.append_of_mem hy
    have hsplit : Run (later₂ ++ y :: (later₁ ++ x :: past)) w := by
      simpa using hrun
    obtain ⟨hbefore, hstep⟩ := run_before hsplit
    exact engine_of_step (fitted_of_run hbefore) hstep

theorem of_success {r : Option Reply} {p : Prop} (h : ∀ output, r = some (.ok output) → p)
    (hr : r.any Except.isOk = true) : p := by
  cases r with
  | none => cases hr
  | some r =>
    cases r with
    | error e => cases hr
    | ok output => exact h output rfl

/-- A call that parked its order for a prompt, took it back when the prompt had ended, and ran
it on a worker. -/
theorem handed_at_most_once_reclaimed : ∃ later x past w t o,
    Run (later ++ x :: past) w ∧ x.after.threads[2]? = some t ∧ t.stack = [.exec o .checking] ∧
    (course 2 0 later).requests = [0] ∧ (course 2 0 later).workers = [3] ∧
    (course 2 0 later).reply.any Except.isOk = true ∧ (course 2 0 later).given = [o] := by
  have hstart : Run [] _ := @Run.start {} {} _ rfl rfl rfl
  have hreading := run_of_follow (hstart.step (.call (.readLine none)))
    (List.replicate 7 0 ++ List.replicate 2 1)
  have hinput := hreading.step (.act (s := .input "line") rfl nofun)
  have hcall := hinput.step (.call (.execute { command := .ofScript "echo hi", options := {} }))
  have hdone := run_of_follow hcall (List.replicate 7 2 ++ List.replicate 3 1 ++
    List.replicate 5 2 ++ List.replicate 3 1 ++ List.replicate 4 2 ++ List.replicate 12 3 ++
    List.replicate 5 2)
  refine ⟨_, _, _, _, _, _, hdone, rfl, rfl, ?_, ?_, ?_, ?_⟩
  · decide +kernel
  · decide +kernel
  · decide +kernel
  · have honce := handed_at_most_once hdone (k := 2) rfl rfl
    exact of_success honce.2.1 (by decide +kernel)

end ScriptHost.Service
