import Mathlib.Data.List.Induction
import Mathlib.Tactic.IntervalCases
import ScriptHost.Engine.Job

/-!
Reading a command's text back. The text of a number reads as that number, the pieces of a text
end where its separators stand, and blanks only keep words apart. From there the stages of a
command can be told from its text, as long as each of its parameters is written as one word and
has a command to go to.
-/

namespace ScriptHost

namespace Decimal

variable {n d : Nat}

theorem digitValue?_digitChar (h : d < 10) : digitValue? (digitChar d) = some d := by
  interval_cases d <;> decide

theorem valueFrom?_append (acc : Nat) (cs cs' : List Char) :
    valueFrom? acc (cs ++ cs') = (valueFrom? acc cs).bind fun v => valueFrom? v cs' := by
  induction cs generalizing acc with
  | nil => rfl
  | cons c cs ih =>
    simp only [List.cons_append, valueFrom?, Option.bind_assoc, ih]

theorem mem_digits {c : Char} (h : c ∈ digits n) : ∃ d < 10, c = digitChar d := by
  fun_induction digits n with
  | case1 n hn =>
    obtain rfl := List.mem_singleton.mp h
    exact ⟨n, hn, rfl⟩
  | case2 n hn ih =>
    rcases List.mem_append.mp h with h | h
    · exact ih h
    · obtain rfl := List.mem_singleton.mp h
      exact ⟨n % 10, Nat.mod_lt _ (by omega), rfl⟩

theorem digits_ne_nil (n : Nat) : digits n ≠ [] := by
  rw [digits]
  split <;> simp

theorem valueFrom?_digits (n : Nat) : valueFrom? 0 (digits n) = some n := by
  fun_induction digits n with
  | case1 n hn => simp [valueFrom?, digitValue?_digitChar hn]
  | case2 n hn ih =>
    have hlast : n % 10 < 10 := Nat.mod_lt _ (by omega)
    rw [valueFrom?_append, ih, Option.bind_some]
    simp only [valueFrom?, digitValue?_digitChar hlast, Option.bind_some, Option.some.injEq]
    omega

theorem integer?_integerDigits (n : Int) : integer? (integerDigits n) = some n := by
  obtain ⟨c, cs, hdigits⟩ := List.exists_cons_of_ne_nil (digits_ne_nil n.natAbs)
  have hunsigned : unsigned? (c :: cs) = some n.natAbs := by
    rw [unsigned?, ← hdigits]
    exact valueFrom?_digits _
  have hsign : c ≠ '+' ∧ c ≠ '-' := by
    obtain ⟨d, hd, rfl⟩ := mem_digits (n := n.natAbs) (hdigits ▸ List.mem_cons_self)
    interval_cases d <;> decide
  unfold integerDigits
  rw [hdigits]
  split
  · next hn =>
    have hvalue : -(n.natAbs : Int) = n := by omega
    rw [integer?, hunsigned]
    exact congrArg some hvalue
  · next hn =>
    have hnatural : natural? (c :: cs) = unsigned? (c :: cs) := by
      unfold natural?
      split
      · next heq => exact absurd (List.cons.inj heq).1 hsign.1
      · rfl
    unfold integer?
    split
    · next heq => exact absurd (List.cons.inj heq).1 hsign.2
    · have hvalue : (n.natAbs : Int) = n := by omega
      rw [hnatural, hunsigned]
      exact congrArg some hvalue

/-- A number reads back from its text. -/
theorem word?_wordText (n : Int64) : word? (wordText n) = some n := by
  have hrange : inWordRange n.toInt = true := by
    have hlow := n.le_toInt
    have hhigh := n.toInt_lt
    simp only [inWordRange, Bool.and_eq_true, decide_eq_true_eq]
    exact ⟨hlow, hhigh⟩
  unfold word? wordText
  rw [String.toList_ofList, integer?_integerDigits, Option.filter_some, if_pos hrange,
    Option.map_some, Int64.ofInt_toInt]

end Decimal

namespace Text

variable {p : Char → Bool} {c : Char} {cs cs' w : List Char}

theorem cutAt_eq_splitOnP (p : Char → Bool) (cs : List Char) : cutAt p cs = cs.splitOnP p := by
  induction cs with
  | nil => rfl
  | cons c cs ih =>
    obtain ⟨piece, pieces, hcs⟩ := List.exists_cons_of_ne_nil (List.splitOnP_ne_nil p cs)
    rw [List.splitOnP_cons_eq_if_modifyHead, hcs, List.modifyHead_cons, cutAt, ih, hcs]

/-- What is added behind the last separator is added to the last piece. -/
theorem splitOnP_append (p : Char → Bool) (cs : List Char) :
    ∃ before last, cs.splitOnP p = before ++ [last] ∧
      ∀ w : List Char, (∀ c ∈ w, p c = false) → (cs ++ w).splitOnP p = before ++ [last ++ w] := by
  induction cs with
  | nil =>
    refine ⟨[], [], rfl, fun w hw => ?_⟩
    simp [List.splitOnP_eq_singleton hw]
  | cons c cs ih =>
    obtain ⟨before, last, hcs, hadded⟩ := ih
    by_cases hc : p c = true
    · refine ⟨[] :: before, last, ?_, fun w hw => ?_⟩
      · rw [List.splitOnP_cons_eq_if_modifyHead, if_pos hc, hcs, List.cons_append]
      · rw [List.cons_append, List.splitOnP_cons_eq_if_modifyHead, if_pos hc, hadded w hw,
          List.cons_append]
    · cases before with
      | nil =>
        refine ⟨[], c :: last, ?_, fun w hw => ?_⟩
        · simp [List.splitOnP_cons_eq_if_modifyHead, hc, hcs]
        · simp [List.splitOnP_cons_eq_if_modifyHead, hc, hadded w hw]
      | cons piece before =>
        refine ⟨(c :: piece) :: before, last, ?_, fun w hw => ?_⟩
        · simp [List.splitOnP_cons_eq_if_modifyHead, hc, hcs]
        · simp [List.splitOnP_cons_eq_if_modifyHead, hc, hadded w hw]

/-- The words of a line. -/
def wordsOf (cs : List Char) : List (List Char) :=
  (cs.splitOnP isBlank).filter (!·.isEmpty)

theorem words_eq (s : String) : words s = (wordsOf s.toList).map String.ofList := by
  rw [words, cutAt_eq_splitOnP, wordsOf]

theorem wordsOf_append_blank (hc : isBlank c = true) (cs cs' : List Char) :
    wordsOf (cs ++ c :: cs') = wordsOf cs ++ wordsOf cs' := by
  unfold wordsOf
  rw [List.splitOnP_append_cons _ _ hc, List.filter_append]

theorem wordsOf_nil : wordsOf [] = [] := by
  simp [wordsOf, List.splitOnP_nil]

theorem wordsOf_word (hne : w ≠ []) (hw : ∀ c ∈ w, isBlank c = false) : wordsOf w = [w] := by
  simp [wordsOf, List.splitOnP_eq_singleton hw, hne]

theorem wordsOf_cons_blank (hc : isBlank c = true) (cs : List Char) :
    wordsOf (c :: cs) = wordsOf cs := by
  have h := wordsOf_append_blank hc [] cs
  rwa [List.nil_append, wordsOf_nil, List.nil_append] at h

theorem wordsOf_concat_blank (hc : isBlank c = true) (cs : List Char) :
    wordsOf (cs ++ [c]) = wordsOf cs := by
  rw [wordsOf_append_blank hc, wordsOf_nil, List.append_nil]

/-- One word, in one piece. -/
def IsWord (s : String) : Prop :=
  s.toList ≠ [] ∧ ∀ c ∈ s.toList, isBlank c = false ∧ c ≠ '|'

instance (s : String) : Decidable (IsWord s) :=
  decidable_of_iff (s.toList ≠ [] ∧ (s.toList.all fun c => !isBlank c && c != '|') = true) <| by
    simp [IsWord]

theorem wordsOf_isWord {s : String} (h : IsWord s) : wordsOf s.toList = [s.toList] :=
  wordsOf_word h.1 fun c hc => (h.2 c hc).1

end Text

/-- The text of a number is one word. -/
theorem Decimal.isWord_wordText (n : Int64) : Text.IsWord (wordText n) := by
  have hchars : (wordText n).toList = integerDigits n.toInt := String.toList_ofList
  unfold Text.IsWord
  rw [hchars]
  have hdigit : ∀ c ∈ digits n.toInt.natAbs, Text.isBlank c = false ∧ c ≠ '|' := by
    intro c hc
    obtain ⟨d, hd, rfl⟩ := mem_digits hc
    interval_cases d <;> decide
  unfold integerDigits
  split
  · refine ⟨List.cons_ne_nil _ _, fun c hc => ?_⟩
    rcases List.mem_cons.mp hc with rfl | hc
    · decide
    · exact hdigit c hc
  · exact ⟨digits_ne_nil _, hdigit⟩

namespace Job

def ofWords : List (List Char) → Job
  | [] => call "" []
  | name :: rest => call (String.ofList name) (rest.map fun w => wordValue (String.ofList w))

/-- The jobs that the lines of a script stand for. -/
def ofScript (cs : List Char) : List Job :=
  (cs.splitOnP (· == '|')).map fun line => ofWords (Text.wordsOf line)

theorem ofSegment_eq (s : String) : ofSegment s = ofWords (Text.wordsOf s.toList) := by
  unfold ofSegment
  rw [Text.words_eq]
  cases Text.wordsOf s.toList with
  | nil => rfl
  | cons name rest => simp [ofWords]

theorem pieces_eq (s : String) : (Text.pieces '|' s).map ofSegment = ofScript s.toList := by
  unfold Text.pieces ofScript
  rw [Text.cutAt_eq_splitOnP, List.map_map]
  refine List.map_congr_left fun line _ => ?_
  rw [Function.comp_apply, ofSegment_eq, String.toList_ofList]

theorem ofWords_concat {ws : List (List Char)} (h : ws ≠ []) (w : List Char) :
    ofWords (ws ++ [w]) = (ofWords ws).withArguments [wordValue (String.ofList w)] := by
  cases ws with
  | nil => exact absurd rfl h
  | cons name rest => simp [ofWords, withArguments]

theorem giveLast_concat (extra : List Value) (js : List Job) (j : Job) :
    giveLast extra (js ++ [j]) = js ++ [j.withArguments extra] := by
  induction js with
  | nil => rfl
  | cons k js ih =>
    cases hrest : js ++ [j] with
    | nil => simp at hrest
    | cons l ls => rw [List.cons_append, hrest, giveLast, ← hrest, ih, List.cons_append]; simp

theorem withArguments_nil (j : Job) : j.withArguments [] = j := by
  cases j <;> simp [withArguments]

theorem withArguments_append (a b : List Value) (j : Job) :
    j.withArguments (a ++ b) = (j.withArguments a).withArguments b := by
  cases j <;> simp [withArguments]

theorem giveLast_nil (js : List Job) : giveLast [] js = js := by
  cases js using List.reverseRecOn with
  | nil => rfl
  | append_singleton js j => rw [giveLast_concat, withArguments_nil]

theorem giveLast_append (a b : List Value) (js : List Job) :
    giveLast (a ++ b) js = giveLast b (giveLast a js) := by
  cases js using List.reverseRecOn with
  | nil => rfl
  | append_singleton js j => simp only [giveLast_concat, withArguments_append]

theorem render_not_mem_ofScript (cs : List Char) : .render ∉ ofScript cs := by
  intro h
  obtain ⟨line, -, hline⟩ := List.mem_map.mp h
  cases hwords : Text.wordsOf line <;> simp [hwords, ofWords] at hline

theorem render_not_mem_giveLast {js : List Job} (h : .render ∉ js) (extra : List Value) :
    .render ∉ giveLast extra js := by
  cases js using List.reverseRecOn with
  | nil => exact h
  | append_singleton js j =>
    have hj : j ≠ .render := by
      rintro rfl
      exact h (List.mem_append_right js List.mem_cons_self)
    rw [giveLast_concat]
    intro hmem
    rcases List.mem_append.mp hmem with hmem | hmem
    · exact h (List.mem_append_left [j] hmem)
    · cases j with
      | render => exact hj rfl
      | call => cases List.mem_singleton.mp hmem

variable {c : Char} {cs : List Char}

/-- The last line of a script has a word. -/
def EndsInWord (cs : List Char) : Prop :=
  ∃ line, (cs.splitOnP (· == '|')).getLast? = some line ∧ Text.wordsOf line ≠ []

theorem ofScript_append_bar (cs cs' : List Char) :
    ofScript (cs ++ '|' :: cs') = ofScript cs ++ ofScript cs' := by
  unfold ofScript
  rw [List.splitOnP_append_cons _ _ rfl, List.map_append]

theorem not_bar_of_blank (hc : Text.isBlank c = true) : (c == '|') = false := by
  rw [beq_eq_false_iff_ne]
  rintro rfl
  cases hc

theorem ofScript_cons_blank (hc : Text.isBlank c = true) (cs : List Char) :
    ofScript (c :: cs) = ofScript cs := by
  obtain ⟨line, lines, hcs⟩ := List.exists_cons_of_ne_nil (List.splitOnP_ne_nil (· == '|') cs)
  unfold ofScript
  rw [List.splitOnP_cons_eq_if_modifyHead, not_bar_of_blank hc, hcs]
  simp [Text.wordsOf_cons_blank hc]

theorem ofScript_concat_blank (hc : Text.isBlank c = true) (cs : List Char) :
    ofScript (cs ++ [c]) = ofScript cs := by
  obtain ⟨before, last, hcs, hadded⟩ := Text.splitOnP_append (· == '|') cs
  unfold ofScript
  rw [hcs, hadded [c] (by simpa using not_bar_of_blank hc)]
  simp [Text.wordsOf_concat_blank hc]

/-- A word added to a script goes to its last command. -/
theorem ofScript_append_word {w : String} (hw : Text.IsWord w) (hcs : EndsInWord cs) :
    ofScript (cs ++ ' ' :: w.toList) = giveLast [wordValue w] (ofScript cs) ∧
      EndsInWord (cs ++ ' ' :: w.toList) := by
  obtain ⟨before, last, hsplit, hadded⟩ := Text.splitOnP_append (· == '|') cs
  have hlast : Text.wordsOf last ≠ [] := by
    obtain ⟨line, hline, hwords⟩ := hcs
    rw [hsplit, List.getLast?_concat, Option.some.injEq] at hline
    exact hline ▸ hwords
  have hwords : Text.wordsOf (last ++ ' ' :: w.toList) = Text.wordsOf last ++ [w.toList] := by
    rw [Text.wordsOf_append_blank (by decide), Text.wordsOf_isWord hw]
  have hnew : (cs ++ ' ' :: w.toList).splitOnP (· == '|') =
      before ++ [last ++ ' ' :: w.toList] := by
    refine hadded _ fun c hc => ?_
    rcases List.mem_cons.mp hc with rfl | hc
    · decide
    · exact beq_eq_false_iff_ne.mpr (hw.2 c hc).2
  refine ⟨?_, _, by rw [hnew, List.getLast?_concat], by simp [hwords]⟩
  unfold ofScript
  rw [hnew, hsplit, List.map_append, List.map_append, List.map_singleton, List.map_singleton,
    giveLast_concat, hwords, ofWords_concat hlast, String.ofList_toList]

end Job

/-- A parameter that its text says all about: a number, or a word that reads as none. -/
def Parameter.Spelled : Parameter → Prop
  | positional (.int _) => True
  | positional (.str s) => Text.IsWord s ∧ Decimal.word? s = none
  | _ => False

theorem Parameter.Spelled.reads {p : Parameter} (h : p.Spelled) :
    ∃ w, Text.IsWord w ∧ p.text.toList = ' ' :: w.toList ∧
      p.argument? = some (Job.wordValue w) := by
  cases p with
  | positional v =>
    cases v with
    | int n =>
      refine ⟨Decimal.wordText n, Decimal.isWord_wordText n, by simp [text, Value.text], ?_⟩
      simp [argument?, Job.wordValue, Decimal.word?_wordText]
    | str s =>
      refine ⟨s, h.1, by simp [text, Value.text], ?_⟩
      simp [argument?, Job.wordValue, h.2]
    | null | bool | float | list => cases h
  | named | switch => cases h

/-- A stage that its text says all about. Its parameters have a command to go to. -/
structure Stage.Spelled (s : Stage) : Prop where
  parameters : ∀ p ∈ s.parameters, p.Spelled
  command : s.script = true → s.parameters = [] ∨
    ∃ piece, (Text.pieces '|' s.text).getLast? = some piece ∧ Text.words piece ≠ []
  name : s.script = false → Text.IsWord s.text ∧ s.isRendering = false

namespace Stage

variable {s : Stage}

theorem ofScript_parameters {ps : List Parameter} (hps : ∀ p ∈ ps, p.Spelled) {cs : List Char}
    (hcs : ps = [] ∨ Job.EndsInWord cs) :
    Job.ofScript (cs ++ ps.flatMap (·.text.toList)) =
      Job.giveLast (ps.filterMap Parameter.argument?) (Job.ofScript cs) := by
  induction ps generalizing cs with
  | nil => rw [List.flatMap_nil, List.append_nil, List.filterMap_nil, Job.giveLast_nil]
  | cons p ps ih =>
    obtain ⟨w, hw, htext, hargument⟩ := (hps p List.mem_cons_self).reads
    obtain ⟨hjobs, hends⟩ := Job.ofScript_append_word hw (hcs.resolve_left (List.cons_ne_nil _ _))
    have hrest := ih (fun q hq => hps q (List.mem_cons_of_mem p hq)) (Or.inr hends)
    rw [List.flatMap_cons, htext, ← List.append_assoc, hrest, hjobs, List.filterMap_cons, hargument]
    exact (Job.giveLast_append [_] _ _).symm

theorem toList_fullText (s : Stage) :
    s.fullText.toList = s.text.toList ++ s.parameters.flatMap (·.text.toList) := by
  simp [fullText, List.flatMap_map]

theorem Spelled.not_rendering (h : s.Spelled) : s.isRendering = false := by
  cases hscript : s.script with
  | true => simp [isRendering, hscript]
  | false => exact (h.name hscript).2

theorem Spelled.jobs (h : s.Spelled) : Job.ofScript s.fullText.toList = s.jobs := by
  have hjobs : s.jobs = Job.giveLast (s.parameters.filterMap Parameter.argument?)
      (Job.ofScript s.text.toList) ∧ (s.parameters = [] ∨ Job.EndsInWord s.text.toList) := by
    unfold Stage.jobs
    rw [h.not_rendering, if_neg Bool.false_ne_true]
    cases hscript : s.script with
    | true =>
      refine ⟨by rw [if_pos rfl, Job.pieces_eq], (h.command hscript).imp_right ?_⟩
      rintro ⟨piece, hpiece, hwords⟩
      rw [Text.pieces, Text.cutAt_eq_splitOnP, List.getLast?_map, Option.map_eq_some_iff] at hpiece
      obtain ⟨line, hline, rfl⟩ := hpiece
      refine ⟨line, hline, ?_⟩
      rw [Text.words_eq, String.toList_ofList] at hwords
      exact fun hnone => hwords (by rw [hnone, List.map_nil])
    | false =>
      have hword := (h.name hscript).1
      have hline : s.text.toList.splitOnP (· == '|') = [s.text.toList] :=
        List.splitOnP_eq_singleton fun c hc => beq_eq_false_iff_ne.mpr (hword.2 c hc).2
      refine ⟨?_, Or.inr ⟨s.text.toList, by rw [hline]; rfl, by simp [Text.wordsOf_isWord hword]⟩⟩
      rw [if_neg Bool.false_ne_true, Job.ofScript, hline, List.map_singleton,
        Text.wordsOf_isWord hword]
      simp [Job.ofWords]
  rw [toList_fullText, ofScript_parameters h.parameters hjobs.2, hjobs.1]

theorem render_not_mem_jobs (h : s.isRendering = false) : .render ∉ s.jobs := by
  unfold Stage.jobs
  rw [h, if_neg Bool.false_ne_true]
  refine Job.render_not_mem_giveLast ?_ _
  split
  · rw [Job.pieces_eq]
    exact Job.render_not_mem_ofScript _
  · simp

end Stage

namespace Command

variable {c : Command}

theorem render_not_mem_jobs (h : ∀ s ∈ c.stages, s.isRendering = false) : .render ∉ c.jobs := by
  intro hmem
  obtain ⟨s, hs, hjob⟩ := List.mem_flatMap.mp hmem
  exact Stage.render_not_mem_jobs (h s hs) hjob

theorem ofScript_intercalate {ss : List Stage} (hne : ss ≠ []) (h : ∀ s ∈ ss, s.Spelled) :
    Job.ofScript (" | ".intercalate (ss.map Stage.fullText)).toList = ss.flatMap Stage.jobs := by
  induction ss with
  | nil => exact absurd rfl hne
  | cons s ss ih =>
    have hs := (h s List.mem_cons_self).jobs
    cases ss with
    | nil => simpa using hs
    | cons t ss =>
      have hrest := ih (List.cons_ne_nil t ss) fun u hu => h u (List.mem_cons_of_mem s hu)
      have hcut : ∀ a b : List Char, Job.ofScript (a ++ [' ', '|', ' '] ++ b) =
          Job.ofScript a ++ Job.ofScript b := by
        intro a b
        rw [show a ++ [' ', '|', ' '] ++ b = (a ++ [' ']) ++ '|' :: ' ' :: b by simp,
          Job.ofScript_append_bar, Job.ofScript_concat_blank (by decide),
          Job.ofScript_cons_blank (by decide)]
      rw [List.map_cons, List.map_cons, String.intercalate_cons_cons, String.toList_append,
        String.toList_append, show " | ".toList = [' ', '|', ' '] from rfl, hcut, hs,
        ← List.map_cons, hrest]
      rfl

/-- A command whose stages say all about themselves can be told from its text. -/
theorem jobs_ofScript_text (hne : c.stages ≠ []) (h : ∀ s ∈ c.stages, s.Spelled) :
    (ofScript c.text).jobs = c.jobs := by
  have hscript : (ofScript c.text).jobs = Job.ofScript c.text.toList := by
    unfold jobs ofScript
    rw [List.flatMap_singleton, Stage.jobs, if_neg (by simp [Stage.isRendering]), if_pos rfl,
      Job.pieces_eq, List.filterMap_nil, Job.giveLast_nil]
  rw [hscript]
  exact ofScript_intercalate hne h

end Command

end ScriptHost
