import ScriptHost.Engine.Invocation
import ScriptHost.Proofs.WordRange

/-!
Adding up. The command that adds takes its arguments and then its input, one value after
another. It ends at the first value that is no integer or at the first sum beyond 64 bits,
whichever comes first, and nothing that it hands on was wrapped.
-/

namespace ScriptHost

open Decimal (FitsWord)

namespace Sum

/-- The sum of integers, whatever its size. -/
def exact (ns : List Int64) : Int :=
  (ns.map Int64.toInt).sum

/-- Added to `acc` one after another, the integers do not leave the range of 64 bits. -/
def Fits (acc : Int) (ns : List Int64) : Prop :=
  ∀ begun, begun <+: ns → FitsWord (acc + exact begun)

/-- What comes of adding values to `acc`. -/
inductive Adds (acc : Int) (vs : List Value) : Sum → Prop
  | total (ns : List Int64) (n : Int64) (hvs : vs = ns.map .int) (hfits : Fits acc ns)
      (hn : n.toInt = acc + exact ns) : Adds acc vs (.total n)
  | notAnInt (ns : List Int64) (v : Value) (rest : List Value)
      (hvs : vs = ns.map .int ++ v :: rest) (hfits : Fits acc ns) (hv : ∀ n, v ≠ .int n) :
      Adds acc vs (.notAnInt v.typeName)
  | overflow (ns : List Int64) (n : Int64) (rest : List Value)
      (hvs : vs = ns.map .int ++ .int n :: rest) (hfits : Fits acc ns)
      (hn : ¬FitsWord (acc + exact (ns ++ [n]))) : Adds acc vs .overflow

theorem exact_nil : exact [] = 0 :=
  rfl

theorem exact_append (ms ns : List Int64) : exact (ms ++ ns) = exact ms + exact ns := by
  unfold exact
  rw [List.map_append, List.sum_append]

theorem exact_cons (n : Int64) (ns : List Int64) : exact (n :: ns) = n.toInt + exact ns :=
  List.sum_cons

section Fits

variable {acc : Int} {n : Int64} {ns : List Int64}

theorem fits_nil (hacc : FitsWord acc) : Fits acc [] := by
  intro begun hbegun
  rwa [List.prefix_nil.mp hbegun, exact_nil, Int.add_zero]

theorem fits_cons (hacc : FitsWord acc) : Fits acc (n :: ns) ↔ Fits (acc + n.toInt) ns := by
  constructor
  · intro h begun hbegun
    rw [Int.add_assoc, ← exact_cons]
    exact h (n :: begun) (List.cons_prefix_cons.mpr ⟨rfl, hbegun⟩)
  · intro h begun hbegun
    rcases List.prefix_cons_iff.mp hbegun with rfl | ⟨later, rfl, hlater⟩
    · exact fits_nil hacc [] List.prefix_rfl
    · rw [exact_cons, ← Int.add_assoc]
      exact h later hlater

theorem Fits.start (h : Fits acc ns) : FitsWord acc := by
  have hnone := h [] List.nil_prefix
  rwa [exact_nil, Int.add_zero] at hnone

end Fits

variable {acc n : Int64} {ns : List Int64} {v : Value} {rest vs : List Value} {r : Sum}

theorem sumFrom_int (hn : FitsWord (acc.toInt + n.toInt)) :
    sumFrom acc (.int n :: rest) = sumFrom (acc + n) rest := by
  rw [sumFrom, if_pos (Decimal.inWordRange_iff.mpr hn)]

theorem sumFrom_too_much (hn : ¬FitsWord (acc.toInt + n.toInt)) :
    sumFrom acc (.int n :: rest) = .overflow := by
  rw [sumFrom, if_neg fun hfits => hn (Decimal.inWordRange_iff.mp hfits)]

theorem sumFrom_other (hv : ∀ n, v ≠ .int n) :
    sumFrom acc (v :: rest) = .notAnInt v.typeName := by
  cases v with
  | int n => exact absurd rfl (hv n)
  | null | bool | float | str | list => rfl

/-- As long as the sums fit, the engine has the exact sum of what came so far. -/
theorem sumFrom_append (h : Fits acc.toInt ns) :
    ∃ m : Int64, m.toInt = acc.toInt + exact ns ∧
      ∀ rest, sumFrom acc (ns.map .int ++ rest) = sumFrom m rest := by
  induction ns generalizing acc with
  | nil => exact ⟨acc, (Int.add_zero _).symm, fun _ => rfl⟩
  | cons n ns ih =>
    have htail := (fits_cons (Decimal.fitsWord_toInt acc)).mp h
    have hn := htail.start
    rw [← hn.toInt_add] at htail
    obtain ⟨m, hm, hsum⟩ := ih htail
    refine ⟨m, by rw [hm, hn.toInt_add, exact_cons, Int.add_assoc], fun rest => ?_⟩
    rw [List.map_cons, List.cons_append, sumFrom_int hn, hsum]

theorem Adds.sumFrom_eq (h : Adds acc.toInt vs r) : sumFrom acc vs = r := by
  cases h with
  | total ns n hvs hfits hn =>
    obtain ⟨m, hm, hsum⟩ := sumFrom_append hfits
    rw [hvs, ← List.append_nil (ns.map Value.int), hsum, sumFrom,
      Int64.toInt_inj.mp (hm.trans hn.symm)]
  | notAnInt ns v rest hvs hfits hv =>
    obtain ⟨m, -, hsum⟩ := sumFrom_append hfits
    rw [hvs, hsum, sumFrom_other hv]
  | overflow ns n rest hvs hfits hn =>
    obtain ⟨m, hm, hsum⟩ := sumFrom_append hfits
    rw [exact_append, exact_cons, exact_nil, Int.add_zero, ← Int.add_assoc, ← hm] at hn
    rw [hvs, hsum, sumFrom_too_much hn]

theorem Adds.cons {acc : Int} (hacc : FitsWord acc) (h : Adds (acc + n.toInt) rest r) :
    Adds acc (.int n :: rest) r := by
  cases h with
  | total ns m hvs hfits hm =>
    refine .total (n :: ns) m (by rw [hvs, List.map_cons]) ((fits_cons hacc).mpr hfits) ?_
    rw [hm, exact_cons, Int.add_assoc]
  | notAnInt ns v tail hvs hfits hv =>
    exact .notAnInt (n :: ns) v tail (by rw [hvs]; rfl) ((fits_cons hacc).mpr hfits) hv
  | overflow ns m tail hvs hfits hm =>
    refine .overflow (n :: ns) m tail (by rw [hvs]; rfl) ((fits_cons hacc).mpr hfits) ?_
    rwa [List.cons_append, exact_cons, ← Int.add_assoc]

theorem adds_sumFrom (acc : Int64) (vs : List Value) : Adds acc.toInt vs (sumFrom acc vs) := by
  -- what comes of the rest is known from the sum so far, which fits and so is exact
  induction vs generalizing acc with
  | nil =>
    exact .total [] acc rfl (fits_nil (Decimal.fitsWord_toInt acc)) (Int.add_zero _).symm
  | cons v rest ih =>
    have hacc := Decimal.fitsWord_toInt acc
    by_cases hv : ∀ n, v ≠ .int n
    · rw [sumFrom_other hv]
      exact .notAnInt [] v rest rfl (fits_nil hacc) hv
    · obtain ⟨n, rfl⟩ : ∃ n, v = .int n := by simpa using hv
      by_cases hn : FitsWord (acc.toInt + n.toInt)
      · rw [sumFrom_int hn]
        exact .cons hacc (hn.toInt_add ▸ ih (acc + n))
      · rw [sumFrom_too_much hn]
        refine .overflow [] n rest rfl (fits_nil hacc) ?_
        rwa [List.nil_append, exact_cons, exact_nil, Int.add_zero]

/-- The engine's sum is what comes of adding. -/
theorem adds_iff : Adds acc.toInt vs r ↔ sumFrom acc vs = r :=
  ⟨Adds.sumFrom_eq, fun h => h ▸ adds_sumFrom acc vs⟩

end Sum

namespace Invocation

variable {e : Engine} {i : Invocation} {name : String} {arguments : List Value} {todo : List Job}

theorem pass_inj {output output' : List Value} :
    i.pass output = i.pass output' ↔ output = output' :=
  ⟨congrArg Invocation.output, congrArg i.pass⟩

theorem fail_inj {error error' : EngineError} : i.fail error = i.fail error' ↔ error = error' :=
  ⟨fun h => Except.error.inj (Phase.closing.inj (congrArg Invocation.phase h)), congrArg i.fail⟩

theorem pass_ne_fail (output : List Value) (error : EngineError) : i.pass output ≠ i.fail error :=
  fun h => Phase.noConfusion (congrArg Invocation.phase h)

theorem step_add (hphase : i.phase = .evaluating) (htodo : i.todo = .call name arguments :: todo)
    (hname : Text.lower name = "add") (hgoes : e.stopRequested = false) :
    i.step e = { i with todo }.runBuiltin e .add arguments := by
  have hbuiltin : Builtin.ofName? name = some .add := by simp [Builtin.ofName?, hname]
  simp only [step, hphase, htodo, stopped?, hgoes, runJob, hbuiltin, Bool.false_eq_true, if_false]

/-- The command that adds hands on the exact sum of its arguments and its input, or it fails at
the first value that is no integer, or it gives up at the first sum that does not fit. -/
theorem add_exact_or_fails (hphase : i.phase = .evaluating)
    (htodo : i.todo = .call name arguments :: todo) (hname : Text.lower name = "add")
    (hgoes : e.stopRequested = false) :
    let next := { i with todo }
    let values := arguments ++ i.output
    (∀ output, i.step e = (e, .advance (next.pass output)) ↔
        ∃ n, Sum.Adds 0 values (.total n) ∧ output = [.int n]) ∧
      (∀ error, i.step e = (e, .advance (next.fail error)) ↔
        ∃ found, Sum.Adds 0 values (.notAnInt found) ∧
          error = .runtime ("cannot add a " ++ found ++ " value")) ∧
      (∀ p, i.step e = (e, .panic p) ↔
        Sum.Adds 0 values .overflow ∧ p = .text "attempt to add with overflow") ∧
      ∃ r, Sum.Adds 0 values r := by
  intro next values
  have hadds : ∀ r, Sum.Adds 0 values r ↔ sumFrom 0 values = r := fun r => @Sum.adds_iff 0 values r
  have hstep : i.step e = next.runBuiltin e .add arguments := step_add hphase htodo hname hgoes
  have hvalues : arguments ++ next.output = values := rfl
  rw [hstep]
  simp only [hadds, runBuiltin, hvalues]
  cases sumFrom 0 values with
  | total n => simp [pass_inj, pass_ne_fail, @eq_comm (List Value)]
  | notAnInt found => simp [fail_inj, (pass_ne_fail _ _).symm, @eq_comm EngineError]
  | overflow => simp [Panic.overflow, eq_comm]

/-- The sum of the argument and the first of the input is too much, although one less follows,
and text after that. -/
theorem add_exact_or_fails_on_the_way :
    let i : Invocation :=
      { frame := {}, text := "", addToHistory := false, outermost := true, merge := false
        todo := [.call "Add" [.int 9223372036854775807]]
        output := [.int 1, .int (-1), .str "x"], phase := .evaluating }
    (i.phase = .evaluating ∧ i.todo = [.call "Add" [.int 9223372036854775807]] ∧
        Text.lower "Add" = "add" ∧ ({} : Engine).stopRequested = false) ∧
      i.step {} = ({}, .panic (.text "attempt to add with overflow")) := by
  intro i
  have hname : Text.lower "Add" = "add" := by decide
  obtain ⟨-, -, hpanics, -⟩ := add_exact_or_fails (i := i) (e := {}) rfl rfl hname rfl
  refine ⟨⟨rfl, rfl, hname, rfl⟩, (hpanics _).mpr ⟨?_, rfl⟩⟩
  refine .overflow [9223372036854775807] 1 [.int (-1), .str "x"] rfl ?_ (by decide)
  exact (Sum.fits_cons (by decide)).mpr (Sum.fits_nil (by decide))

end Invocation

end ScriptHost
