import SourceTidy.Text.Quoted
import SourceTidy.Value.Binary64
import SourceTidy.Value.Moment

/-!
# Values of configuration files

What a configuration document holds before anything is known about its form: texts, numbers, truth values, moments,
arrays, and tables that keep the order of their keys.
-/

namespace SourceTidy

/-- A value of a configuration document. -/
inductive Value where
  | null
  | bool (b : Bool)
  | int (n : Int)
  | float (x : Binary64)
  | text (t : Text)
  | date (d : Date)
  | time (t : TimeOfDay)
  | dateTime (d : DateTime)
  | array (vs : List Value)
  | table (fields : List (Text × Value))

/-- The entries of a table, in order. -/
abbrev Fields := List (Text × Value)

instance : Inhabited Value := ⟨.null⟩

namespace Fields

/-- The value of a key. -/
def get? (t : Fields) (key : Text) : Option Value := List.lookup key t

/-- Whether a table has a key. -/
def has (t : Fields) (key : Text) : Bool := (t.get? key).isSome

/-- A table with a value put at a key: in the place that the key has, and at the end when it is new. -/
def put (t : Fields) (key : Text) (v : Value) : Fields :=
  match t with
  | [] => [(key, v)]
  | (k, w) :: rest => if k = key then (k, v) :: rest else (k, w) :: put rest key v

/-- A table without a key. -/
def erase (t : Fields) (key : Text) : Fields := t.filter fun (k, _) => k != key

end Fields

namespace Value

/-- The name of a value's type. -/
def typeName : Value → String
  | null => "NoneType"
  | bool _ => "bool"
  | int _ => "int"
  | float _ => "float"
  | text _ => "str"
  | date _ => "date"
  | time _ => "time"
  | dateTime _ => "datetime"
  | array _ => "list"
  | table _ => "dict"

/-- The name of a value's type with the name of its family. -/
def qualifiedTypeName (v : Value) : String :=
  match v with
  | date _ | time _ | dateTime _ => "datetime." ++ v.typeName
  | _ => v.typeName

/-- The decimal text of an integer. -/
def intText (n : Int) : Text := (if n < 0 then "-" else "" : String) ++ Text.ofNat n.natAbs

mutual

/-- A value as messages show it. -/
def shown : Value → Text
  | null => "None"
  | bool b => if b then "True" else "False"
  | int n => intText n
  | float x => x.text
  | text t => t.quoted
  | date d => d.shown
  | time t => t.shown
  | dateTime d => d.shown
  | array vs => "[" ++ Text.join ", " (shownAll vs) ++ "]"
  | table fields => "\x7b" ++ Text.join ", " (shownFields fields) ++ "\x7d"

/-- The values of an array as messages show them. -/
def shownAll : List Value → List Text
  | [] => []
  | v :: vs => shown v :: shownAll vs

/-- The entries of a table as messages show them. -/
def shownFields : List (Text × Value) → List Text
  | [] => []
  | (k, v) :: rest => (k.quoted ++ Text.ofString ": " ++ shown v) :: shownFields rest

end

/-- The most digits that the decimal text of an integer may have. -/
def maxDigits : Nat := 4300

/-- What the integers that have a decimal text are below, but for their signs. -/
def integerLimit : Nat := Binary64.tenTo maxDigits

mutual

/-- Whether messages can show a value: every integer in it has a decimal text. -/
def isShowable : Value → Bool
  | int n => n.natAbs < integerLimit
  | array vs => allShowable vs
  | table fields => fieldsShowable fields
  | _ => true

/-- Whether messages can show the values of an array. -/
def allShowable : List Value → Bool
  | [] => true
  | v :: vs => isShowable v && allShowable vs

/-- Whether messages can show the entries of a table. -/
def fieldsShowable : List (Text × Value) → Bool
  | [] => true
  | (_, v) :: rest => isShowable v && fieldsShowable rest

end

/-- Whether a value counts as something: not for nothing, zero, and empty texts, arrays and tables. -/
def isTruthy : Value → Bool
  | null => false
  | bool b => b
  | int n => n != 0
  | float x => !x.equalsNat 0
  | text t => !t.isEmpty
  | array vs => !vs.isEmpty
  | table fields => !fields.isEmpty
  | _ => true

end Value
end SourceTidy
