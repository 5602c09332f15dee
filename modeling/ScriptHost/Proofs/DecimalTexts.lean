import Mathlib.Data.List.DropRight
import Mathlib.Data.Nat.Digits.Defs
import ScriptHost.Proofs.CommandTexts
import ScriptHost.Proofs.WordRange

/-!
The texts of numbers. A text stands for a number if its blanks at both ends leave one or more
digits, with a sign before them or not; the readers know exactly these texts. A 64-bit integer
has one among them that is written for it and reads back as it.
-/

namespace ScriptHost

namespace Text

variable {cs core : List Char}

/-- `core` is what the characters are without the blanks before and behind them. -/
structure Trimmed (cs core : List Char) : Prop where
  framed : ∃ before after, cs = before ++ core ++ after ∧
    (∀ c ∈ before, isBlank c = true) ∧ ∀ c ∈ after, isBlank c = true
  bare : ∀ hne : core ≠ [], isBlank (core.head hne) = false ∧ isBlank (core.getLast hne) = false

theorem trimChars_eq (cs : List Char) : trimChars cs = (cs.dropWhile isBlank).rdropWhile isBlank :=
  rfl

theorem trimmed_trimChars (cs : List Char) : Trimmed cs (trimChars cs) := by
  rw [trimChars_eq]
  refine ⟨⟨cs.takeWhile isBlank, (cs.dropWhile isBlank).rtakeWhile isBlank, ?_, ?_, ?_⟩, ?_⟩
  · rw [List.append_assoc, List.rdropWhile_append_rtakeWhile, List.takeWhile_append_dropWhile]
  · exact fun c => List.mem_takeWhile_imp
  · exact fun c => List.mem_rtakeWhile_imp
  · intro hne
    constructor
    · rw [(List.rdropWhile_prefix isBlank _).head hne]
      exact List.head_dropWhile_not isBlank _
    · exact Bool.eq_false_of_not_eq_true (List.rdropWhile_last_not isBlank _ hne)

theorem Trimmed.eq_trimChars (h : Trimmed cs core) : core = trimChars cs := by
  obtain ⟨⟨before, after, rfl, hbefore, hafter⟩, hbare⟩ := h
  rw [trimChars_eq, List.append_assoc, List.dropWhile_append_of_pos hbefore]
  by_cases hne : core = []
  · have hnone : after.dropWhile isBlank = [] := List.dropWhile_eq_nil_iff.mpr hafter
    rw [hne, List.nil_append, hnone, List.rdropWhile_nil]
  · have hfirst : (core ++ after).dropWhile isBlank = core ++ after := by
      obtain ⟨c, rest, rfl⟩ := List.exists_cons_of_ne_nil hne
      rw [List.cons_append, List.dropWhile_cons_of_neg (by simpa using (hbare hne).1)]
    have hlast : core.rdropWhile isBlank = core :=
      List.rdropWhile_eq_self_iff.mpr fun hne => by simp [(hbare hne).2]
    have hafter : ∀ c ∈ after.reverse, isBlank c = true := by simpa using hafter
    rw [hfirst, List.rdropWhile, List.reverse_append, List.dropWhile_append_of_pos hafter]
    exact hlast.symm

theorem trimmed_iff : Trimmed cs core ↔ core = trimChars cs :=
  ⟨Trimmed.eq_trimChars, fun h => h ▸ trimmed_trimChars cs⟩

/-- Nothing is taken away from characters that are not blank. -/
theorem trimmed_self (h : ∀ c ∈ cs, isBlank c = false) : Trimmed cs cs :=
  ⟨⟨[], [], by simp, by simp, by simp⟩,
    fun hne => ⟨h _ (List.head_mem hne), h _ (List.getLast_mem hne)⟩⟩

end Text

namespace Decimal

/-- The number that digits stand for by their places. -/
def placeValue (ds : List Char) : Nat :=
  Nat.ofDigits 10 (ds.reverse.map fun c => c.toNat - '0'.toNat)

/-- One or more of the digits `0` to `9`, which stand for `n`. -/
structure Numeral (ds : List Char) (n : Nat) : Prop where
  ne_nil : ds ≠ []
  digit : ∀ c ∈ ds, '0' ≤ c ∧ c ≤ '9'
  value : placeValue ds = n

/-- Digits for `n`, with a plus sign before them or not. -/
inductive SpellsNatural : List Char → Nat → Prop
  | plain {ds : List Char} {n : Nat} (h : Numeral ds n) : SpellsNatural ds n
  | plus {ds : List Char} {n : Nat} (h : Numeral ds n) : SpellsNatural ('+' :: ds) n

/-- Digits for the magnitude of an integer, with a sign before them or not. -/
inductive SpellsInteger : List Char → Int → Prop
  | natural {cs : List Char} {n : Nat} (h : SpellsNatural cs n) : SpellsInteger cs n
  | minus {ds : List Char} {n : Nat} (h : Numeral ds n) : SpellsInteger ('-' :: ds) (-n)

variable {cs ds : List Char} {n : Nat}

theorem placeValue_nil : placeValue [] = 0 :=
  rfl

theorem placeValue_cons (c : Char) (ds : List Char) :
    placeValue (c :: ds) = (c.toNat - '0'.toNat) * 10 ^ ds.length + placeValue ds := by
  unfold placeValue
  rw [List.reverse_cons, List.map_append, Nat.ofDigits_append, List.map_singleton,
    Nat.ofDigits_singleton, List.length_map, List.length_reverse]
  ring

theorem digitValue?_eq_some_iff {c : Char} {d : Nat} :
    digitValue? c = some d ↔ ('0' ≤ c ∧ c ≤ '9') ∧ c.toNat - '0'.toNat = d := by
  unfold digitValue?
  split
  · next h => simp [h, show '0'.toNat = 48 from rfl]
  · next h => simp [h]

theorem valueFrom?_eq_some_iff {acc : Nat} :
    valueFrom? acc ds = some n ↔
      (∀ c ∈ ds, '0' ≤ c ∧ c ≤ '9') ∧ acc * 10 ^ ds.length + placeValue ds = n := by
  induction ds generalizing acc with
  | nil => simp [valueFrom?, placeValue_nil]
  | cons c ds ih =>
    have hplaces : ∀ d, (10 * acc + d) * 10 ^ ds.length + placeValue ds =
        acc * 10 ^ (c :: ds).length + (d * 10 ^ ds.length + placeValue ds) := by
      intro d
      rw [List.length_cons]
      ring
    simp only [valueFrom?, Option.bind_eq_some_iff, digitValue?_eq_some_iff, ih, hplaces,
      List.forall_mem_cons, placeValue_cons]
    constructor
    · rintro ⟨d, ⟨hc, rfl⟩, hds, hn⟩
      exact ⟨⟨hc, hds⟩, hn⟩
    · rintro ⟨⟨hc, hds⟩, hn⟩
      exact ⟨_, ⟨hc, rfl⟩, hds, hn⟩

theorem unsigned?_eq_some_iff : unsigned? ds = some n ↔ Numeral ds n := by
  cases ds with
  | nil => exact ⟨fun h => (by cases h), fun h => absurd rfl h.ne_nil⟩
  | cons c ds =>
    rw [unsigned?, valueFrom?_eq_some_iff, Nat.zero_mul, Nat.zero_add]
    exact ⟨fun h => ⟨List.cons_ne_nil c ds, h.1, h.2⟩, fun h => ⟨h.digit, h.value⟩⟩

/-- A numeral begins with no sign. -/
theorem Numeral.head_ne {c : Char} (h : Numeral (c :: ds) n) : c ≠ '+' ∧ c ≠ '-' := by
  have hdigit := (h.digit c List.mem_cons_self).1
  constructor <;> rintro rfl <;> exact absurd hdigit (by decide)

theorem natural?_eq_some_iff : natural? cs = some n ↔ SpellsNatural cs n := by
  constructor
  · intro h
    unfold natural? at h
    split at h
    · exact .plus (unsigned?_eq_some_iff.mp h)
    · exact .plain (unsigned?_eq_some_iff.mp h)
  · rintro (h | h)
    · have hunsigned := unsigned?_eq_some_iff.mpr h
      unfold natural?
      split
      · exact absurd rfl h.head_ne.1
      · exact hunsigned
    · exact unsigned?_eq_some_iff.mpr h

theorem SpellsNatural.head_ne {c : Char} (h : SpellsNatural (c :: cs) n) : c ≠ '-' := by
  cases h with
  | plain h => exact h.head_ne.2
  | plus h => decide

theorem integer?_minus (ds : List Char) :
    integer? ('-' :: ds) = (unsigned? ds).map fun n : Nat => -(n : Int) := by
  cases hds : unsigned? ds <;> simp [integer?, hds]

theorem integer?_other (h : ∀ ds, cs ≠ '-' :: ds) :
    integer? cs = (natural? cs).map fun n : Nat => (n : Int) := by
  unfold integer?
  split
  · exact absurd rfl (h _)
  · cases natural? cs <;> rfl

theorem integer?_eq_some_iff {k : Int} : integer? cs = some k ↔ SpellsInteger cs k := by
  constructor
  · intro h
    by_cases hminus : ∃ ds, cs = '-' :: ds
    · obtain ⟨ds, rfl⟩ := hminus
      rw [integer?_minus] at h
      obtain ⟨n, hn, rfl⟩ := Option.map_eq_some_iff.mp h
      exact .minus (unsigned?_eq_some_iff.mp hn)
    · rw [integer?_other fun ds hds => hminus ⟨ds, hds⟩] at h
      obtain ⟨n, hn, rfl⟩ := Option.map_eq_some_iff.mp h
      exact .natural (natural?_eq_some_iff.mp hn)
  · rintro (h | h)
    · rw [integer?_other fun ds hds => (hds ▸ h).head_ne rfl, natural?_eq_some_iff.mpr h,
        Option.map_some]
    · rw [integer?_minus, unsigned?_eq_some_iff.mpr h, Option.map_some]

variable {s : String}

theorem word?_eq_some_iff {k : Int64} : word? s = some k ↔ SpellsInteger s.toList k.toInt := by
  unfold word?
  simp only [Option.map_eq_some_iff, Option.filter_eq_some_iff, integer?_eq_some_iff,
    inWordRange_iff]
  constructor
  · rintro ⟨n, ⟨hn, hfits⟩, rfl⟩
    rwa [hfits.toInt_ofInt]
  · intro hk
    exact ⟨k.toInt, ⟨hk, fitsWord_toInt k⟩, Int64.ofInt_toInt k⟩

theorem word?_eq_none_iff :
    word? s = none ↔ ¬∃ k, SpellsInteger s.toList k ∧ FitsWord k := by
  rw [Option.eq_none_iff_forall_ne_some]
  constructor
  · rintro h ⟨k, hk, hfits⟩
    exact h (Int64.ofInt k) (word?_eq_some_iff.mpr (hfits.toInt_ofInt.symm ▸ hk))
  · intro h k hk
    exact h ⟨k.toInt, word?_eq_some_iff.mp hk, fitsWord_toInt k⟩

end Decimal

namespace Value

variable {s : String}

theorem toInt_str_eq_ok_iff {n : Int64} :
    (str s).toInt = .ok n ↔ Decimal.word? (Text.trim s) = some n := by
  rw [toInt]
  cases Decimal.word? (Text.trim s) <;> simp [refuse]

theorem toInt_str_eq_error_iff {error : ConversionError} :
    (str s).toInt = .error error ↔
      Decimal.word? (Text.trim s) = none ∧ error = ⟨"int", "string"⟩ := by
  rw [toInt]
  cases Decimal.word? (Text.trim s) <;> simp [refuse, typeName, eq_comm]

/-- A text is converted to exactly the integer that it spells, and refused if it spells none of
64 bits. An integer is spelled by its own text, in a value as well as in a script. -/
theorem integer_texts_exact :
    (∀ (s : String) (n : Int64), (str s).toInt = .ok n ↔
      ∃ core, Text.Trimmed s.toList core ∧ Decimal.SpellsInteger core n.toInt) ∧
    (∀ (s : String) (error : ConversionError), (str s).toInt = .error error ↔
      (¬∃ core k, Text.Trimmed s.toList core ∧ Decimal.SpellsInteger core k ∧
        Decimal.FitsWord k) ∧ error = { expected := "int", found := "string" }) ∧
    ∀ n : Int64, ∃ text, (int n).toStr = .ok text ∧ (str text).toInt = .ok n ∧
      Job.wordValue text = .int n := by
  have htrim : ∀ s : String, (Text.trim s).toList = Text.trimChars s.toList := fun s =>
    String.toList_ofList
  refine ⟨fun s n => ?_, fun s error => ?_, fun n => ?_⟩
  · rw [toInt_str_eq_ok_iff, Decimal.word?_eq_some_iff, htrim]
    simp [Text.trimmed_iff]
  · rw [toInt_str_eq_error_iff, Decimal.word?_eq_none_iff, htrim]
    simp [Text.trimmed_iff]
  · have hword := Decimal.word?_wordText n
    have hbare : Text.trim (Decimal.wordText n) = Decimal.wordText n := by
      have hself := Text.trimmed_self fun c hc => ((Decimal.isWord_wordText n).2 c hc).1
      rw [Text.trim, ← hself.eq_trimChars, String.ofList_toList]
    refine ⟨Decimal.wordText n, by simp [toStr, text], ?_, ?_⟩
    · rw [toInt_str_eq_ok_iff, hbare, hword]
    · rw [Job.wordValue, hword]

/-- The least integer has a text, and the number before it has none. -/
example : (Decimal.word? "-9223372036854775808", Decimal.word? "-9223372036854775809") =
    (some Int64.minValue, none) := by decide

end Value

end ScriptHost
