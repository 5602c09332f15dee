import ScriptHost.Decimal.Shortest

/-!
The values a script engine takes and produces, their types and their text.
-/

namespace ScriptHost

inductive Value where
  | null
  | bool (b : Bool)
  | int (n : Int64)
  | float (x : Decimal.Binary64)
  | str (s : String)
  | list (items : List Value)

namespace Value

/-- The names of the types, as error messages write them. -/
def typeName : Value → String
  | null => "null"
  | bool _ => "bool"
  | int _ => "int"
  | float _ => "float"
  | str _ => "string"
  | list _ => "list"

def isNull : Value → Bool
  | null => true
  | _ => false

mutual
/-- What a console shows for the value; a list shows one item on each line. -/
def text : Value → String
  | null => ""
  | bool true => "True"
  | bool false => "False"
  | int n => Decimal.wordText n
  | float x => x.text
  | str s => s
  | list items => "\n".intercalate (texts items)

def texts : List Value → List String
  | [] => []
  | v :: vs => v.text :: texts vs
end

mutual
/-- Equality of contents. A float that is no number makes a value differ from itself. -/
def same : Value → Value → Bool
  | null, null => true
  | bool a, bool b => a == b
  | int a, int b => a == b
  | float a, float b => a.equal b
  | str a, str b => a == b
  | list a, list b => sameAll a b
  | _, _ => false

def sameAll : List Value → List Value → Bool
  | [], [] => true
  | v :: vs, w :: ws => v.same w && sameAll vs ws
  | _, _ => false
end

/-- The texts of several values on one line. -/
def joined (values : List Value) : String :=
  " ".intercalate (values.map text)

end Value

end ScriptHost
