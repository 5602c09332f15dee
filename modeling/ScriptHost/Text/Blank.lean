/-!
Blank characters, and the cuts that depend on them. A text is trimmed at both
ends, split into words at runs of blanks, or split into pieces at every
occurrence of one separator.
-/

namespace ScriptHost.Text

/-- The characters that Unicode lists as white space. -/
def isBlank (c : Char) : Bool :=
  let n := c.toNat
  (9 ≤ n && n ≤ 13) || n == 0x20 || n == 0x85 || n == 0xA0 || n == 0x1680 ||
    (0x2000 ≤ n && n ≤ 0x200A) || n == 0x2028 || n == 0x2029 || n == 0x202F ||
    n == 0x205F || n == 0x3000

def trimChars (cs : List Char) : List Char :=
  ((cs.dropWhile isBlank).reverse.dropWhile isBlank).reverse

/-- The text without the blanks at its two ends. -/
def trim (s : String) : String :=
  String.ofList (trimChars s.toList)

/-- Cuts a list at every element that satisfies `p`: `n` cuts give `n + 1` pieces. -/
def cutAt (p : Char → Bool) : List Char → List (List Char)
  | [] => [[]]
  | c :: cs =>
    match cutAt p cs with
    | [] => [[c]]
    | piece :: pieces => if p c then [] :: piece :: pieces else (c :: piece) :: pieces

/-- The maximal runs of characters that are not blank, in order. -/
def words (s : String) : List String :=
  ((cutAt isBlank s.toList).filter (fun w => !w.isEmpty)).map String.ofList

/-- The pieces between the occurrences of `separator`, empty ones included. -/
def pieces (separator : Char) (s : String) : List String :=
  (cutAt (· == separator) s.toList).map String.ofList

/-- The text before the first `separator` and the text after it. -/
def splitFirst (separator : Char) (s : String) : Option (String × String) :=
  match s.toList.dropWhile (· != separator) with
  | [] => none
  | _ :: rest => some (String.ofList (s.toList.takeWhile (· != separator)), String.ofList rest)

end ScriptHost.Text
