import ScriptHost.Decimal.Reading
import ScriptHost.Text.Blank
import ScriptHost.Text.Case
import ScriptHost.Value

/-!
Typed views of values. A caller that asks for a type gets the value in that type
or learns which type was found instead.
-/

namespace ScriptHost

/-- A value of type `found` was met where `expected` was wanted. -/
structure ConversionError where
  expected : String
  found : String
  deriving DecidableEq, Repr

def ConversionError.message (e : ConversionError) : String :=
  "cannot convert " ++ e.found ++ " value to " ++ e.expected

namespace Value

def refuse (expected : String) (v : Value) : Except ConversionError α :=
  .error { expected, found := v.typeName }

/-- Every scalar has a text; a list has none. -/
def toStr (v : Value) : Except ConversionError String :=
  match v with
  | list _ => v.refuse "string"
  | _ => .ok v.text

/-- The 64-bit number nearest to a whole number of any size. -/
def clampToWord (n : Int) : Int64 :=
  Int64.ofInt (max (-Int.pow 2 63) (min n (Int.pow 2 63 - 1)))

/-- A whole float as an integer; beyond the 64-bit range the end of the range stands in. -/
def wordOfFloat? (x : Decimal.Binary64) : Option Int64 :=
  match x.meaning with
  | .finite negative m q =>
    let (n, exact) := Decimal.Binary64.wholePart m q
    if exact then some (clampToWord (if negative then -(n : Int) else n)) else none
  | _ => none

def toInt (v : Value) : Except ConversionError Int64 :=
  match v with
  | int n => .ok n
  | bool b => .ok (if b then 1 else 0)
  | float x => match wordOfFloat? x with
    | some n => .ok n
    | none => v.refuse "int"
  | str s => match Decimal.word? (Text.trim s) with
    | some n => .ok n
    | none => v.refuse "int"
  | _ => v.refuse "int"

def toFloat (v : Value) : Except ConversionError Decimal.Binary64 :=
  match v with
  | float x => .ok x
  | int n => .ok (Decimal.Binary64.ofInt n.toInt)
  | str s => match Decimal.Binary64.ofText? (Text.trim s) with
    | some x => .ok x
    | none => v.refuse "float"
  | _ => v.refuse "float"

def toBool (v : Value) : Except ConversionError Bool :=
  match v with
  | bool b => .ok b
  | int n => .ok (n != 0)
  | null => .ok false
  | str s =>
    if Text.sameLetters s "true" then .ok true
    else if Text.sameLetters s "false" then .ok false
    else v.refuse "bool"
  | _ => v.refuse "bool"

/-- A null is the absence of a value of the type that `convert` reads. -/
def toOption (convert : Value → Except ConversionError α) (v : Value) :
    Except ConversionError (Option α) :=
  match v with
  | null => .ok none
  | v => (convert v).map some

/-- A null is the empty list and any other scalar a list of one. -/
def toList (convert : Value → Except ConversionError α) (v : Value) :
    Except ConversionError (List α) :=
  match v with
  | list items => items.mapM convert
  | null => .ok []
  | v => (convert v).map fun a => [a]

end Value

/-- The types a caller can ask for. -/
inductive Shape where
  | value
  | string
  | int
  | float
  | bool
  | option (inner : Shape)
  | list (inner : Shape)
  deriving DecidableEq, Repr

/-- A value seen through a `Shape`. -/
inductive Typed where
  | plain (v : Value)
  | absent
  | present (t : Typed)
  | items (ts : List Typed)

namespace Shape

def read : Shape → Value → Except ConversionError Typed
  | value, v => .ok (.plain v)
  | string, v => v.toStr.map fun s => .plain (.str s)
  | int, v => v.toInt.map fun n => .plain (.int n)
  | float, v => v.toFloat.map fun x => .plain (.float x)
  | bool, v => v.toBool.map fun b => .plain (.bool b)
  | option inner, v => (v.toOption inner.read).map fun
    | none => .absent
    | some t => .present t
  | list inner, v => (v.toList inner.read).map .items

end Shape

end ScriptHost
