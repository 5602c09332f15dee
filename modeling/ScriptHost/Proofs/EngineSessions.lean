import Mathlib.Data.List.Nodup
import ScriptHost.Engine.Invocation

/-!
The sessions of the engine, and what a service that asks for the current runspace once after
each command can know of them. The names of the runspaces are all different. What the service
makes of an answer is right exactly if the transport broke, or sessions were only left since it
asked last, or a single one was entered.
-/

namespace ScriptHost

namespace Engine

variable {base r : Runspace} {e e' : Engine}

/-- What the answer to the question for the current runspace depends on. -/
def sessions (e : Engine) :
    Runspace × List Runspace × Nat × Bool × List (EngineCall × EngineError) :=
  (e.base, e.entered, e.nextRunspace, e.transportBroken, e.faults)

/-- The runspaces of the engine have different names, all given out before, and no fault waits
for the question which one is current. -/
structure Numbered (base : Runspace) (e : Engine) : Prop where
  base_eq : e.base = base
  nodup : ((e.entered ++ [base]).map Runspace.id).Nodup
  below : ∀ r ∈ e.entered ++ [base], r.id < e.nextRunspace
  unfaulted : ∀ f ∈ e.faults, f.1 ≠ .details

theorem Numbered.of_same (h : e.Numbered base) (hbase : e'.base = e.base)
    (hentered : e'.entered = e.entered) (hnext : e'.nextRunspace = e.nextRunspace)
    (hfaults : e'.faults = e.faults) : e'.Numbered base :=
  ⟨hbase.trans h.base_eq, hentered ▸ h.nodup, hentered ▸ hnext ▸ h.below, hfaults ▸ h.unfaulted⟩

theorem Numbered.takeFault {call : EngineCall} {error : EngineError} (h : e.Numbered base)
    (hfault : e.takeFault call = some (error, e')) : e'.Numbered base := by
  obtain ⟨f, -, heq⟩ := Option.map_eq_some_iff.mp hfault
  cases heq
  exact ⟨h.base_eq, h.nodup, h.below, fun f hf => h.unfaulted f (List.mem_of_mem_eraseP hf)⟩

theorem Numbered.invoke (h : e.Numbered base) (frame : FrameInfo) (c : Command)
    (addToHistory outermost : Bool) :
    (e.invoke frame c addToHistory outermost).1.Numbered base := by
  cases outermost <;> exact h.of_same rfl rfl rfl rfl

theorem Numbered.enterSession (h : e.Numbered base) (computer : String) :
    (e.enterSession computer).Numbered base := by
  have hfresh : e.nextRunspace ∉ (e.entered ++ [base]).map Runspace.id := by
    intro hmem
    obtain ⟨r, hr, heq⟩ := List.mem_map.mp hmem
    exact absurd (h.below r hr) (by omega)
  refine ⟨h.base_eq, List.nodup_cons.mpr ⟨hfresh, h.nodup⟩, ?_, h.unfaulted⟩
  exact List.forall_mem_cons.mpr
    ⟨Nat.lt_succ_self _, fun r hr => Nat.lt_succ_of_lt (h.below r hr)⟩

/-- Sessions are left. -/
theorem Numbered.leave (h : e.Numbered base) (hbase : e'.base = e.base)
    (hentered : e'.entered.Sublist e.entered) (hnext : e'.nextRunspace = e.nextRunspace)
    (hfaults : e'.faults = e.faults) : e'.Numbered base := by
  have hsub : (e'.entered ++ [base]).Sublist (e.entered ++ [base]) := hentered.append_right _
  exact ⟨hbase.trans h.base_eq, h.nodup.sublist (hsub.map _),
    hnext ▸ fun r hr => h.below r (hsub.subset hr), hfaults ▸ h.unfaulted⟩

theorem Numbered.details (h : e.Numbered base) :
    e.details = if e.transportBroken then
      (.error (.transportBroken "the remote session was closed"),
        { e with transportBroken := false, entered := [] })
    else (.ok e.current, e) := by
  have hnone : e.faults.find? (·.1 == .details) = none := by
    simpa using fun f hf => h.unfaulted f hf
  simp [Engine.details, Engine.takeFault, hnone]

end Engine

namespace Invocation

variable {base : Runspace} {e : Engine} {i : Invocation}

theorem numbered_builtin (h : e.Numbered base) (b : Builtin) (arguments : List Value) :
    (i.runBuiltin e b arguments).1.Numbered base := by
  unfold runBuiltin
  split
  case h_2 => split <;> exact h
  case h_7 => exact h.of_same rfl rfl rfl rfl
  case h_10 =>
    split
    · exact h
    · exact h.enterSession _
  case h_11 => exact h.leave rfl (List.tail_sublist _) rfl rfl
  case h_12 => exact h.of_same rfl rfl rfl rfl
  all_goals exact h

theorem numbered_stopped {otherwise : Engine × Move} (h : e.Numbered base)
    (hother : otherwise.1.Numbered base) : (i.stopped? e otherwise).1.Numbered base := by
  unfold stopped?
  split
  · exact h
  · exact hother

theorem numbered_step (h : e.Numbered base) (i : Invocation) : (i.step e).1.Numbered base := by
  unfold step
  split
  case h_2 =>
    split
    · exact h
    · refine numbered_stopped h ?_
      unfold runJob
      split
      · exact h
      · split
        · exact numbered_builtin h _ _
        · exact h
  case h_6 => exact numbered_stopped h h
  case h_7 => exact numbered_stopped h h
  case h_8 => split <;> (dsimp only; split) <;> exact h.of_same rfl rfl rfl rfl
  case h_9 => exact h.of_same rfl rfl rfl rfl
  all_goals exact h

end Invocation

section Known

variable {base r : Runspace} {pushed : List Runspace} {e : Engine}

/-- The runspaces over `base` that are known when the current one is `r`, if `pushed` were known
before: down to `r` if it is one of them, and `r` in addition if not. -/
def compared (base : Runspace) (pushed : List Runspace) (r : Runspace) : List Runspace :=
  if (pushed.head?.getD base).id = r.id then pushed
  else
    match (base :: pushed.reverse).findIdx? (·.id == r.id) with
    | some keep => pushed.drop (pushed.length - keep)
    | none => r :: pushed

/-- The runspaces that are known when the engine `e` was asked. -/
def reconciled (base : Runspace) (pushed : List Runspace) (e : Engine) : List Runspace :=
  match e.details.1 with
  | .ok r => compared base pushed r
  | .error (.transportBroken _) => []
  | .error _ => pushed

/-- The runspaces that are known after the engine was asked in the states `es`, latest first. -/
def tracked (base : Runspace) : List Engine → List Runspace
  | [] => []
  | e :: es => reconciled base (tracked base es) e

/-- The sessions that the engine is in when it was last asked. -/
def answered : List Engine → List Runspace
  | [] => []
  | e :: _ => e.details.2.entered

/-- The transport broke, or the engine is in some of the sessions `pushed` as before, or in one
more than these. -/
def Engine.Near (pushed : List Runspace) (e : Engine) : Prop :=
  e.transportBroken = true ∨ e.entered <:+ pushed ∨ e.entered.tail = pushed

instance (pushed : List Runspace) (e : Engine) : Decidable (e.Near pushed) :=
  inferInstanceAs (Decidable (_ ∨ _ ∨ _))

theorem compared_cases (base : Runspace) (pushed : List Runspace) (r : Runspace) :
    (∃ n, compared base pushed r = pushed.drop n) ∨
      compared base pushed r = r :: pushed ∧ r.id ∉ (pushed ++ [base]).map Runspace.id := by
  unfold compared
  split
  · exact Or.inl ⟨0, rfl⟩
  · split
    · exact Or.inl ⟨_, rfl⟩
    · next hnone =>
      refine Or.inr ⟨rfl, fun hmem => ?_⟩
      obtain ⟨known, hknown, hid⟩ := List.mem_map.mp hmem
      have hnone := List.findIdx?_eq_none_iff.mp hnone known (by simpa [or_comm] using hknown)
      simp [hid] at hnone

theorem unknown_of_compared (h : compared base pushed r = r :: pushed) :
    r.id ∉ (pushed ++ [base]).map Runspace.id := by
  rcases compared_cases base pushed r with ⟨n, hdrop⟩ | ⟨-, hnew⟩
  · have hlength := congrArg List.length (hdrop.symm.trans h)
    rw [List.length_drop, List.length_cons] at hlength
    omega
  · exact hnew

/-- Known runspaces have different names. -/
theorem tracked_nodup (base : Runspace) (es : List Engine) :
    ((tracked base es ++ [base]).map Runspace.id).Nodup := by
  induction es with
  | nil => simp [tracked]
  | cons e es ih =>
    have hdrop : ∀ n, (((tracked base es).drop n ++ [base]).map Runspace.id).Nodup := fun n =>
      ih.sublist (((List.drop_sublist n _).append_right _).map _)
    rw [tracked, reconciled]
    split
    · next r _ =>
      rcases compared_cases base (tracked base es) r with ⟨n, heq⟩ | ⟨heq, hnew⟩
      · rw [heq]
        exact hdrop n
      · rw [heq]
        exact List.nodup_cons.mpr ⟨hnew, ih⟩
    · simp
    · exact ih

theorem findIdx_of_nodup {known : List Runspace} (hnodup : (known.map Runspace.id).Nodup) {i : Nat}
    (hi : known[i]? = some r) : known.findIdx? (·.id == r.id) = some i := by
  obtain ⟨hlt, rfl⟩ := List.getElem?_eq_some_iff.mp hi
  refine List.findIdx?_eq_some_iff_getElem.mpr ⟨hlt, by simp, fun j hj heq => ?_⟩
  have hi : i < (known.map Runspace.id).length := by simpa using hlt
  have hj' : j < (known.map Runspace.id).length := Nat.lt_trans hj hi
  have hsame : (known.map Runspace.id)[j] = (known.map Runspace.id)[i] := by simpa using heq
  exact Nat.ne_of_lt hj (hnodup.getElem_inj_iff.mp hsame)

/-- If sessions were only left, the current runspace is known still. -/
theorem current_mem_of_suffix (hbase : e.base = base) (h : e.entered <:+ pushed) :
    e.current ∈ pushed ++ [base] := by
  obtain ⟨left, rfl⟩ := h
  rw [Engine.current, hbase]
  cases e.entered <;> simp

/-- If sessions were only left, those that the engine is in are known still. -/
theorem compared_of_suffix (hnodup : ((pushed ++ [base]).map Runspace.id).Nodup)
    (hbase : e.base = base) (h : e.entered <:+ pushed) :
    compared base pushed e.current = e.entered := by
  obtain ⟨left, rfl⟩ := h
  cases left with
  | nil =>
    rw [List.nil_append, compared, if_pos]
    rw [Engine.current, hbase]
  | cons r left =>
    have hcurrent : e.current ∈ left ++ e.entered ++ [base] :=
      current_mem_of_suffix hbase (List.suffix_append left _)
    have hother : r.id ≠ e.current.id := fun heq =>
      (List.nodup_cons.mp hnodup).1 (heq ▸ List.mem_map_of_mem hcurrent)
    have hknown : (base :: (r :: left ++ e.entered).reverse)[e.entered.length]? =
        some e.current := by
      rw [Engine.current, hbase]
      cases e.entered <;> simp
    have hreversed : ((base :: (r :: left ++ e.entered).reverse).map Runspace.id).Nodup := by
      simpa using List.nodup_reverse.mpr hnodup
    have hlength : (r :: left ++ e.entered).length - e.entered.length = (r :: left).length := by
      rw [List.length_append, Nat.add_sub_cancel]
    rw [compared, if_neg (by simpa using hother), findIdx_of_nodup hreversed hknown]
    dsimp only
    rw [hlength, List.drop_left]

theorem compared_of_new (hnew : r.id ∉ (pushed ++ [base]).map Runspace.id) :
    compared base pushed r = r :: pushed := by
  have hother : ∀ known ∈ pushed ++ [base], known.id ≠ r.id := fun known hknown heq =>
    hnew (heq ▸ List.mem_map_of_mem hknown)
  have hhead : pushed.head?.getD base ∈ pushed ++ [base] := by cases pushed <;> simp
  have hnone : (base :: pushed.reverse).findIdx? (·.id == r.id) = none := by
    refine List.findIdx?_eq_none_iff.mpr fun known hknown => ?_
    simpa using hother known (by simpa [or_comm] using hknown)
  rw [compared, if_neg (hother _ hhead), hnone]

/-- What is known is right exactly if the engine is near to what was known before. -/
theorem reconciled_eq_iff (h : e.Numbered base)
    (hnodup : ((pushed ++ [base]).map Runspace.id).Nodup) :
    reconciled base pushed e = e.details.2.entered ↔ e.Near pushed := by
  rw [reconciled, h.details]
  cases hbroken : e.transportBroken with
  | true => simp [Engine.Near, hbroken]
  | false =>
    simp only [Engine.Near, hbroken, Bool.false_eq_true, if_false, false_or]
    constructor
    · intro heq
      rcases compared_cases base pushed e.current with ⟨n, hdrop⟩ | ⟨hnew, -⟩
      · exact Or.inl (heq ▸ hdrop ▸ List.drop_suffix n pushed)
      · exact Or.inr (heq ▸ hnew ▸ rfl)
    · rintro (hleft | hentered)
      · exact compared_of_suffix hnodup h.base_eq hleft
      · cases hcase : e.entered with
        | nil =>
          rw [hcase] at hentered
          rw [compared_of_suffix hnodup h.base_eq (by simp [hcase]), hcase]
        | cons r sessions =>
          rw [hcase] at hentered
          have hcurrent : e.current = r := by simp [Engine.current, hcase]
          have hnew : r.id ∉ (pushed ++ [base]).map Runspace.id := by
            have hdiffers := h.nodup
            rw [hcase, show sessions = pushed from hentered] at hdiffers
            exact (List.nodup_cons.mp hdiffers).1
          rw [hcurrent, compared_of_new hnew, ← hentered, List.tail_cons]

end Known

end ScriptHost
