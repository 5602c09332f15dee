import ScriptHost.Proofs.DecimalTexts
import ScriptHost.Version

/-!
The texts of engine versions. A text is cut at its first point, and each part is read as a number
of 16 bits. The text of a version reads back as it, and a text that stands for none is refused
for its major part if that is bad, and for its minor part only if nothing else is.
-/

namespace ScriptHost

namespace Decimal

theorem numeral_digits (n : Nat) : Numeral (digits n) n := by
  obtain ⟨c, cs, hdigits⟩ := List.exists_cons_of_ne_nil (digits_ne_nil n)
  rw [← unsigned?_eq_some_iff, hdigits, unsigned?, ← hdigits, valueFrom?_digits]

theorem digit_plain {c : Char} {n : Nat} (h : c ∈ digits n) : Text.isBlank c = false ∧ c ≠ '.' := by
  obtain ⟨d, hd, rfl⟩ := mem_digits h
  interval_cases d <;> decide

theorem naturalUpTo?_eq_some_iff {limit n : Nat} {s : String} :
    naturalUpTo? limit s = some n ↔ SpellsNatural s.toList n ∧ n ≤ limit := by
  rw [naturalUpTo?, Option.filter_eq_some_iff, natural?_eq_some_iff, decide_eq_true_eq]

end Decimal

namespace Version

/-- The parts of a text: what stands before its first point and what stands behind that. Without
a point the minor part is a zero. -/
inductive Parts : List Char → List Char → List Char → Prop
  | cut {major minor : List Char} (h : '.' ∉ major) : Parts (major ++ '.' :: minor) major minor
  | whole {major : List Char} (h : '.' ∉ major) : Parts major major ['0']

/-- The part stands for a number. -/
def PartIs (part : List Char) (n : Nat) : Prop :=
  ∃ core, Text.Trimmed part core ∧ Decimal.SpellsNatural core n

/-- The part stands for a number of 16 bits. -/
def GoodPart (part : List Char) : Prop :=
  ∃ n, n ≤ 65535 ∧ PartIs part n

variable {s : String} {cs major minor part : List Char}

theorem Parts.split (h : Parts s.toList major minor) :
    (Text.splitFirst '.' s).getD (s, "0") = (String.ofList major, String.ofList minor) := by
  generalize hcs : s.toList = cs at h
  cases h with
  | cut h =>
    have hbefore : ∀ c ∈ major, (c != '.') = true := fun c hc =>
      bne_iff_ne.mpr fun hpoint => h (hpoint ▸ hc)
    unfold Text.splitFirst
    rw [hcs, List.dropWhile_append_of_pos hbefore, List.takeWhile_append_of_pos hbefore]
    simp
  | whole h =>
    have hnone : s.toList.dropWhile (· != '.') = [] :=
      List.dropWhile_eq_nil_iff.mpr fun c hc =>
        bne_iff_ne.mpr fun hpoint => h (hpoint ▸ hcs ▸ hc)
    rw [Text.splitFirst, hnone, ← hcs, String.ofList_toList]
    rfl

theorem exists_parts (cs : List Char) : ∃ major minor, Parts cs major minor := by
  induction cs with
  | nil => exact ⟨[], ['0'], .whole List.not_mem_nil⟩
  | cons c cs ih =>
    by_cases hc : c = '.'
    · exact ⟨[], cs, hc ▸ .cut List.not_mem_nil⟩
    · obtain ⟨major, minor, hparts⟩ := ih
      cases hparts with
      | cut h =>
        exact ⟨c :: major, minor, .cut (List.not_mem_cons_of_ne_of_not_mem (Ne.symm hc) h)⟩
      | whole h =>
        exact ⟨c :: cs, ['0'], .whole (List.not_mem_cons_of_ne_of_not_mem (Ne.symm hc) h)⟩

theorem part?_eq_some_iff {n : UInt16} :
    part? (String.ofList part) = some n ↔ PartIs part n.toNat := by
  have htrim : (Text.trim (String.ofList part)).toList = Text.trimChars part := by
    rw [Text.trim, String.toList_ofList, String.toList_ofList]
  simp only [part?, Option.map_eq_some_iff, Decimal.naturalUpTo?_eq_some_iff, htrim, PartIs,
    Text.trimmed_iff, exists_eq_left]
  constructor
  · rintro ⟨m, ⟨hm, hlimit⟩, rfl⟩
    rwa [UInt16.toNat_ofNat_of_lt' (Nat.lt_succ_of_le hlimit)]
  · intro hn
    exact ⟨n.toNat, ⟨hn, Nat.le_of_lt_succ n.toNat_lt⟩, UInt16.ofNat_toNat⟩

theorem part?_eq_none_iff : part? (String.ofList part) = none ↔ ¬GoodPart part := by
  rw [Option.eq_none_iff_forall_ne_some]
  constructor
  · rintro h ⟨n, hlimit, hn⟩
    refine h (UInt16.ofNat n) (part?_eq_some_iff.mpr ?_)
    rwa [UInt16.toNat_ofNat_of_lt' (Nat.lt_succ_of_le hlimit)]
  · intro h n hn
    exact h ⟨n.toNat, Nat.le_of_lt_succ n.toNat_lt, part?_eq_some_iff.mp hn⟩

/-- A text is read part by part. -/
theorem Parts.parse_eq (h : Parts s.toList major minor) :
    parse s = match part? (String.ofList major), part? (String.ofList minor) with
      | none, _ => .error (.badMajor s)
      | some _, none => .error (.badMinor s)
      | some major, some minor => .ok { major, minor } := by
  -- `unfold` would derive an equation of the definition first, which takes long here
  delta parse
  cases hmajor : part? (String.ofList major) <;> cases hminor : part? (String.ofList minor) <;>
    simp only [h.split, hmajor, hminor]

theorem Parts.ok_iff (h : Parts s.toList major minor) {v : Version} :
    parse s = .ok v ↔ PartIs major v.major.toNat ∧ PartIs minor v.minor.toNat := by
  obtain ⟨m, n⟩ := v
  rw [h.parse_eq, ← part?_eq_some_iff, ← part?_eq_some_iff]
  cases part? (String.ofList major) <;> cases part? (String.ofList minor) <;> simp

theorem Parts.error_iff (h : Parts s.toList major minor) {error : VersionError} :
    parse s = .error error ↔ (¬GoodPart major ∧ error = .badMajor s) ∨
      (GoodPart major ∧ ¬GoodPart minor ∧ error = .badMinor s) := by
  rw [h.parse_eq, ← not_not (a := GoodPart major), ← part?_eq_none_iff, ← part?_eq_none_iff]
  cases part? (String.ofList major) <;> cases part? (String.ofList minor) <;> simp [eq_comm]

theorem partIs_digits (n : Nat) : PartIs (Decimal.digits n) n :=
  ⟨_, Text.trimmed_self fun _ hc => (Decimal.digit_plain hc).1, .plain (Decimal.numeral_digits n)⟩

theorem parts_text (v : Version) : Parts v.text.toList (Decimal.digits v.major.toNat)
    (Decimal.digits v.minor.toNat) := by
  have htext : v.text.toList =
      Decimal.digits v.major.toNat ++ '.' :: Decimal.digits v.minor.toNat := by
    simp [text, Decimal.naturalText]
  rw [htext]
  exact .cut fun hpoint => (Decimal.digit_plain hpoint).2 rfl

/-- A version reads back from its text. A text is read as exactly the version whose parts it
spells, and refused for the first of its parts that spells no number of 16 bits. -/
theorem version_texts_exact :
    (∀ v : Version, parse v.text = .ok v) ∧
    (∀ (s : String) (v : Version), parse s = .ok v ↔ ∃ major minor,
      Parts s.toList major minor ∧ PartIs major v.major.toNat ∧ PartIs minor v.minor.toNat) ∧
    ∀ (s : String) (error : VersionError), parse s = .error error ↔ ∃ major minor,
      Parts s.toList major minor ∧ ((¬GoodPart major ∧ error = .badMajor s) ∨
        (GoodPart major ∧ ¬GoodPart minor ∧ error = .badMinor s)) := by
  refine ⟨fun v => ?_, fun s v => ?_, fun s error => ?_⟩
  · exact (parts_text v).ok_iff.mpr ⟨partIs_digits _, partIs_digits _⟩
  · constructor
    · intro hparse
      obtain ⟨major, minor, hparts⟩ := exists_parts s.toList
      exact ⟨major, minor, hparts, hparts.ok_iff.mp hparse⟩
    · rintro ⟨major, minor, hparts, hread⟩
      exact hparts.ok_iff.mpr hread
  · constructor
    · intro hparse
      obtain ⟨major, minor, hparts⟩ := exists_parts s.toList
      exact ⟨major, minor, hparts, hparts.error_iff.mp hparse⟩
    · rintro ⟨major, minor, hparts, hbad⟩
      exact hparts.error_iff.mpr hbad

example : parse " +05 .1.0" = .error (.badMinor " +05 .1.0") := by decide

end Version

end ScriptHost
