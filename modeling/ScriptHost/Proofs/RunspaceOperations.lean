import ScriptHost.Proofs.AbortCourses
import ScriptHost.Proofs.Announcements
import ScriptHost.Proofs.OutcomesOfMoves

/-!
Operations on the runspaces that one thread carries out while no other is midway in one. A
thread that is midway waits for nobody, so that it stays midway until it moves; and a pop that
found a runspace pushed still finds it when it comes to take it, so that the base runspace is
never popped.
-/

namespace ScriptHost.Service

/-- A pop that has looked at the runspaces, and has not taken one yet, will find one. -/
def Activation.Stocked (pushed : List Runspace) : Activation → Prop
  | .popRunspace _ .checkingFrame | .popRunspace _ .poppingFrame
  | .popRunspace _ .poppingRunspace => pushed ≠ []
  | _ => True

def Thread.Stocked (pushed : List Runspace) (t : Thread) : Prop :=
  match t.control, t.stack with
  | .go, a :: _ => a.Stocked pushed
  | _, _ => True

/-- The base runspace is there, and every pop finds what it looked for. -/
structure World.Stocked (w : World) : Prop where
  base : w.baseGone = false
  pops : ∀ t ∈ w.threads, t.Stocked w.pushed

/-- Not more than one thread is midway in an operation on the runspaces. -/
def World.OneMidway (w : World) : Prop :=
  ∀ j < w.threads.length, ∀ k < w.threads.length, w.threads[j]?.any Thread.midway = true →
    w.threads[k]?.any Thread.midway = true → j = k

instance (w : World) : Decidable w.OneMidway :=
  inferInstanceAs (Decidable (∀ j < w.threads.length, ∀ k < w.threads.length,
    w.threads[j]?.any Thread.midway = true → w.threads[k]?.any Thread.midway = true → j = k))

/-- The runspaces that the service knows. -/
def World.runspaces (w : World) : Runspace × List Runspace × Bool :=
  (w.baseRunspace, w.pushed, w.baseGone)

section Moves

variable {w w' : World} {k : Nat} {t : Thread} {rest : List Activation} {m : World × Thread}

/-- Over the base runspace a runspace is added as the innermost. -/
theorem addRunspace_of_base (r : Runspace) (h : w.baseGone = false) :
    w.addRunspace r = { w with pushed := r :: w.pushed } := by
  rw [World.addRunspace, if_neg (by simp [h])]

theorem runspaces_changeSession (w : World) (c : Session × Option SessionChange) :
    (w.changeSession c).runspaces = w.runspaces := by
  rcases c with ⟨session, _ | change⟩ <;> rfl

theorem runspaces_of_outlook (h : w'.outlook = w.outlook) : w'.runspaces = w.runspaces := by
  simp only [World.outlook, Prod.mk.injEq] at h
  simp only [World.runspaces, h]

theorem Announces.runspaces (h : Announces w w') : w'.runspaces = w.runspaces := by
  cases h with
  | nothing h => exact runspaces_of_outlook h
  | session state result reason h =>
    exact (runspaces_of_outlook h).trans (runspaces_changeSession w _)
  | stop s h => exact (runspaces_of_outlook h).trans rfl
  | breakpoint u h => exact (runspaces_of_outlook h).trans rfl

theorem Thread.midway_of_go {a : Activation} (hgo : t.control = .go) (hs : t.stack = a :: rest) :
    t.midway = a.midway := by
  rw [Thread.midway, hgo, hs]

theorem Thread.stocked_of_go {a : Activation} {pushed : List Runspace} (hgo : t.control = .go)
    (hs : t.stack = a :: rest) : t.Stocked pushed ↔ a.Stocked pushed := by
  rw [Thread.Stocked, hgo, hs]

theorem Thread.stocked_of_not_midway {pushed : List Runspace} (h : t.midway = false) :
    t.Stocked pushed := by
  unfold Thread.midway at h
  unfold Thread.Stocked
  split
  · next a rest hgo hs =>
    rw [hgo, hs] at h
    cases a with
    | popRunspace reason phase =>
      cases phase with
      | checkingLength | publishing => trivial
      | checkingFrame | poppingFrame | poppingRunspace => cases h
    | _ => trivial
  · trivial

/-- A thread that is not midway leaves the runspaces. -/
theorem runspaces_of_rest (hm : m ∈ t.moves w k) (h : t.midway = false) :
    m.1.runspaces = w.runspaces := by
  cases doing_of_moves hm with
  | plain hplain => exact hplain.announces.runspaces
  | pushes hgo hs hm =>
    rw [Thread.midway_of_go hgo hs] at h
    cases hm with
    | framePushed | recorded | pushPublished => cases h
    | _ => rfl
  | pops hgo hs hm =>
    rw [Thread.midway_of_go hgo hs] at h
    cases hm with
    | framePopped | unrecorded | basePopped | popPublished => cases h
    | _ => rfl

/-- A thread that operates on the runspaces finds what it looked for. -/
theorem stocked_of_moves (hbase : w.baseGone = false) (hstocked : t.Stocked w.pushed)
    (hmidway : t.midway = true ∨ m.2.midway = true) (hm : m ∈ t.moves w k) :
    m.1.baseGone = false ∧ m.2.Stocked m.1.pushed := by
  cases doing_of_moves hm with
  | plain hplain hrests => exact absurd hmidway (by simp [hrests, hplain.midway])
  | pushes hgo hs hm =>
    cases hm with
    | onward hnext =>
      cases hnext with
      | noted => exact ⟨hbase, trivial⟩
    | ended hend => cases hend
    | underflowed r hgone => exact absurd (hbase.symm.trans hgone) Bool.false_ne_true
    | recorded r =>
      rw [addRunspace_of_base _ hbase]
      exact ⟨hbase, trivial⟩
    | framePushed | pushPublished => exact ⟨hbase, trivial⟩
  | pops hgo hs hm =>
    rw [Thread.stocked_of_go hgo hs] at hstocked
    cases hm with
    | onward hnext =>
      cases hnext with
      | pushed reason hpushed => exact ⟨hbase, hpushed⟩
      | remote => exact ⟨hbase, hstocked⟩
    | ended hend => cases hend <;> exact ⟨hbase, trivial⟩
    | framePopped => exact ⟨hbase, hstocked⟩
    | basePopped reason hpushed => exact absurd hpushed hstocked
    | unrecorded | popPublished => exact ⟨hbase, trivial⟩

end Moves

section Steps

variable {w w' : World} {mover : Option Nat} {k : Nat} {t t' : Thread} {past : List Transition}

theorem outlook_of_client (hstep : Step w none w') : w'.outlook = w.outlook := by
  cases hstep with
  | call hentry => rfl
  | @act s hs =>
    cases s with
    | resume action => exact outlook_signals (signals_signalInnermost w _ _)
    | exitPrompt => exact outlook_signals (signals_signalInnermost w _ _)
    | popFrame =>
      simp only [Clients.act, Clients.popFrame]
      split <;> rfl
    | exec | readLine | lease | drop | release | abort | dispose | pushRunspace | popRunspace =>
      cases hs
    | _ => rfl
  | @drop k t ht hgo hsuspended =>
    simp only [World.dropTask, ht]
    split <;> rfl
  | release k =>
    unfold World.releaseLease
    split <;> rfl

theorem midway_of_newly (h : Exchange.Newly t) : t.midway = false := by
  cases h with
  | called hentry => cases hentry <;> rfl
  | reader handle read => rfl
  | worker handle o => rfl

/-- A thread that does not move is as it was, or rests. -/
theorem same_or_not_midway (hstep : Step w mover w') (hk : mover ≠ some k)
    (ht' : w'.threads[k]? = some t') : w.threads[k]? = some t' ∨ t'.midway = false := by
  cases hstep with
  | @move j _ hfree hmove =>
    obtain ⟨t, ht, m, hm, rfl⟩ := mem_next.mp hmove
    obtain ⟨a, rest, hs, new, started, hlocal⟩ := local_of_moves hm
    have hjk : j ≠ k := fun hjk => hk (congrArg some hjk)
    change (m.1.threads.set j m.2)[k]? = some t' at ht'
    rw [List.getElem?_set_ne hjk, hlocal.threads_eq] at ht'
    by_cases hlt : k < w.threads.length
    · rw [List.getElem?_append_left hlt] at ht'
      exact Or.inl ht'
    · rw [List.getElem?_append_right (Nat.le_of_not_lt hlt)] at ht'
      exact Or.inr (midway_of_newly (newly_of_started hm hlocal t' (List.mem_of_getElem? ht')))
  | call hentry =>
    rcases Exchange.getElem?_append_new ht' with ht' | ⟨-, rfl⟩
    · exact Or.inl ht'
    · exact Or.inr (midway_of_newly (.called hentry))
  | act hs => exact Or.inl ((client_of_act hs).threads_same ▸ ht')
  | @drop j t ht hgo hsuspended =>
    rw [(dropTask_spec ht).2.2] at ht'
    rcases getElem?_of_set ht ht' with ⟨-, rfl⟩ | ht'
    · exact Or.inr rfl
    · exact Or.inl ht'
  | release j =>
    rcases releaseLease_spec w j with hsame | ⟨t, handle, ht, hs, hc, -, -, -, hthreads⟩
    · exact Or.inl (hsame ▸ ht')
    · rw [hthreads] at ht'
      rcases getElem?_of_set ht ht' with ⟨-, rfl⟩ | ht'
      · exact Or.inr rfl
      · exact Or.inl ht'

/-- A thread that is midway stays so until it moves. -/
theorem midway_stays {j : Nat} (hstep : Step w mover w') (ht : w.threads[j]? = some t)
    (hmidway : t.midway = true) (hmover : mover ≠ some j) : w'.threads[j]? = some t := by
  obtain ⟨depth, control, stack⟩ := t
  refine thread_stays hstep ht hmover (fun hgo hsuspended => ?_) fun hs => ?_
  · cases hgo
    cases hsuspended <;> cases hmidway
  · cases hs
    cases control <;> cases hmidway

theorem World.OneMidway.others {j : Nat} {s : Thread} (h : w.OneMidway)
    (ht : w.threads[k]? = some t) (hmidway : t.midway = true) (hs : w.threads[j]? = some s)
    (hj : j ≠ k) : s.midway = false := by
  by_contra hs'
  refine hj (h j (List.getElem?_eq_some_iff.mp hs).1 k (List.getElem?_eq_some_iff.mp ht).1 ?_ ?_)
  · simpa [hs] using hs'
  · simpa [ht] using hmidway

/-- A thread that moves within an operation, or begins or ends one, does so alone. -/
theorem alone_of_midway {t' : Thread} (hstep : Step w (some k) w') (hone : w.OneMidway)
    (hone' : w'.OneMidway) (ht : w.threads[k]? = some t) (ht' : w'.threads[k]? = some t')
    (hmidway : t.midway = true ∨ t'.midway = true) :
    (∀ j s, j ≠ k → w.threads[j]? = some s → s.midway = false) ∧
      ∀ j s, j ≠ k → w'.threads[j]? = some s → s.midway = false := by
  have hmover : ∀ {j}, j ≠ k → some k ≠ some j := fun hj heq => hj (Option.some.inj heq).symm
  rcases hmidway with hmidway | hmidway
  · have hothers := fun j s (hj : j ≠ k) hs => hone.others ht hmidway (j := j) (s := s) hs hj
    refine ⟨hothers, fun j s hj hs => ?_⟩
    exact (same_or_not_midway hstep (hmover hj) hs).elim (hothers j s hj) id
  · have hothers := fun j s (hj : j ≠ k) hs => hone'.others ht' hmidway (j := j) (s := s) hs hj
    refine ⟨fun j s hj hs => ?_, hothers⟩
    by_contra hmid
    exact hmid (hothers j s hj (midway_stays hstep hs (by simpa using hmid) (hmover hj)))

/-- While not more than one thread is midway, pops find what they looked for. -/
theorem stocked_of_step (hstep : Step w mover w') (hone : w.OneMidway) (hone' : w'.OneMidway)
    (h : w.Stocked) : w'.Stocked := by
  have hkept : w'.runspaces = w.runspaces → (∀ k, mover = some k → ∀ t', w'.threads[k]? = some t' →
      t'.Stocked w'.pushed) → w'.Stocked := by
    intro hsame hmover
    simp only [World.runspaces, Prod.mk.injEq] at hsame
    obtain ⟨-, hpushed, hgone⟩ := hsame
    refine ⟨hgone.trans h.base, fun t' ht' => ?_⟩
    obtain ⟨j, hj⟩ := List.mem_iff_getElem?.mp ht'
    by_cases hmoved : mover = some j
    · exact hmover j hmoved t' hj
    · rcases same_or_not_midway hstep hmoved hj with hold | hrests
      · exact hpushed ▸ h.pops t' (List.mem_of_getElem? hold)
      · exact Thread.stocked_of_not_midway hrests
  cases mover with
  | none => exact hkept (runspaces_of_outlook (outlook_of_client hstep)) (by simp)
  | some k =>
    cases id hstep with
    | move hfree hmove =>
      obtain ⟨t, ht, m, hm, rfl⟩ := mem_next.mp hmove
      have ht' := thread_of_moves ht hm
      by_cases hmidway : t.midway = true ∨ m.2.midway = true
      · obtain ⟨-, hothers⟩ := alone_of_midway hstep hone hone' ht ht' hmidway
        obtain ⟨hbase, hstocked⟩ :=
          stocked_of_moves h.base (h.pops t (List.mem_of_getElem? ht)) hmidway hm
        refine ⟨hbase, fun t' hmem => ?_⟩
        obtain ⟨j, hj⟩ := List.mem_iff_getElem?.mp hmem
        by_cases hjk : j = k
        · obtain rfl : m.2 = t' := Option.some.inj (ht'.symm.trans (hjk ▸ hj))
          exact hstocked
        · exact Thread.stocked_of_not_midway (hothers j t' hjk hj)
      · obtain ⟨hrests, hrests'⟩ := by simpa using hmidway
        refine hkept (runspaces_of_rest hm hrests) fun j hj t' hj' => ?_
        cases hj
        obtain rfl : m.2 = t' := Option.some.inj (ht'.symm.trans hj')
        exact Thread.stocked_of_not_midway hrests'

/-- A service starts ready, with its base runspace, and nobody has subscribed before. -/
theorem start_spec {config : Config} {engine : Engine} {initial : World}
    (h : World.start config engine = .ok initial) :
    initial.session = { state := .ready, result := .notFinished } ∧
      initial.bus.subscriptions = [] ∧ initial.pushed = [] ∧ initial.threads = [] ∧
      initial.baseGone = false := by
  unfold World.start at h
  simp only at h
  split at h
  · cases h
  · cases h
    exact ⟨rfl, rfl, rfl, rfl, rfl⟩

theorem stocked_of_start {config : Config} {engine : Engine} {initial : World}
    (h : World.start config engine = .ok initial) : initial.Stocked := by
  obtain ⟨-, -, -, hthreads, hbase⟩ := start_spec h
  exact ⟨hbase, by simp [hthreads]⟩

theorem stocked_of_run (h : Run past w) (hone : ∀ x ∈ past, x.after.OneMidway) :
    w.OneMidway ∧ w.Stocked := by
  induction h with
  | start hactive hpeak h =>
    obtain ⟨-, -, -, hthreads, -⟩ := start_spec h
    exact ⟨by simp [World.OneMidway, hthreads], stocked_of_start h⟩
  | step h hstep ih =>
    obtain ⟨hone', hone⟩ := List.forall_mem_cons.mp hone
    obtain ⟨hone, hstocked⟩ := ih hone
    exact ⟨hone', stocked_of_step hstep hone hone' hstocked⟩

end Steps

end ScriptHost.Service
