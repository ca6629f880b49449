import SourceTidy.Value.Basic

/-!
# Complaints about settings

A complaint says where in a configuration something is wrong, what it is, and which value stands there. The wording is
fixed here, for a single complaint and for a list of them.
-/

namespace SourceTidy.Config

/-- The groups of settings. -/
inductive Model where
  | settings
  | discovery
  | tasks
  | output
  deriving DecidableEq, Repr

/-- The name of a group in messages. -/
def Model.name : Model → String
  | settings => "CheckerConfig"
  | discovery => "DiscoveryConfig"
  | tasks => "TaskOptions"
  | output => "OutputConfig"

/-- A step on the way to a value: the name of a setting or the index of an item. -/
inductive Step where
  | name (n : Text)
  | index (i : Nat)
  deriving DecidableEq, Repr

/-- What is wrong with a value. -/
inductive Fault where
  /-- A text or a number that stands for no truth value. -/
  | uninterpretable
  | notBool
  | notList
  | notText
  | notTable (model : Model)
  | unknownKey
  | unknownAttribute (name : Text)
  deriving DecidableEq, Repr

/-- The short name of a fault. -/
def Fault.kind : Fault → String
  | uninterpretable => "bool_parsing"
  | notBool => "bool_type"
  | notList => "list_type"
  | notText => "string_type"
  | notTable _ => "model_type"
  | unknownKey => "extra_forbidden"
  | unknownAttribute _ => "no_such_attribute"

/-- The wording of a fault. -/
def Fault.message : Fault → Text
  | uninterpretable => "Input should be a valid boolean, unable to interpret input"
  | notBool => "Input should be a valid boolean"
  | notList => "Input should be a valid list"
  | notText => "Input should be a valid string"
  | notTable m => "Input should be a valid dictionary or instance of " ++ Text.ofString m.name
  | unknownKey => "Extra inputs are not permitted"
  | unknownAttribute n => "Object has no attribute '" ++ n ++ "'"

/-- A fault, where it is, and the value that stands there. -/
structure Complaint where
  location : List Step
  fault : Fault
  input : Value

/-- The complaint as it reads from one step further out. -/
def Complaint.under (step : Step) (c : Complaint) : Complaint := { c with location := step :: c.location }

/-- A step in the wording of a location; a name with a point in it stands between backquotes. -/
def Step.shown : Step → Text
  | .name n => if n.contains ('.' : CodePoint) then [.ofNat 0x60] ++ n ++ [.ofNat 0x60] else n
  | .index i => Text.ofNat i

/-- The number of bytes of the UTF-8 form of a code point. -/
def byteSize (c : CodePoint) : Nat :=
  if c.toNat < 0x80 then 1 else if c.toNat < 0x800 then 2 else if c.toNat < 0x10000 then 3 else 4

/-- The longest start of a text whose UTF-8 form fits a number of bytes. -/
def fittingStart (bytes : Nat) : Text → Text
  | [] => []
  | c :: rest => if byteSize c ≤ bytes then c :: fittingStart (bytes - byteSize c) rest else []

/-- The number of bytes of the UTF-8 form of a text. -/
def byteLength (t : Text) : Nat := t.foldr (fun c n => byteSize c + n) 0

/-- A text of more than 50 bytes is shown by its first 25 and its last 24. -/
def abridged (t : Text) : Text :=
  if byteLength t ≤ 50 then t else fittingStart 25 t ++ "..." ++ (fittingStart 24 t.reverse).reverse

/-- A value as complaints show it. -/
def inputShown (v : Value) : Text :=
  if v.isShowable then abridged v.shown else "<unprintable " ++ Text.ofString v.typeName ++ " object>"

/-- The wording of a complaint: a line for the location, if there is one, and a line for the fault and the value. -/
def Complaint.message (c : Complaint) : Text :=
  let place : Text := if c.location.isEmpty then [] else Text.join "." (c.location.map Step.shown) ++ "\n"
  place ++ "  " ++ c.fault.message ++ " [type=" ++ Text.ofString c.fault.kind ++ ", input_value="
    ++ inputShown c.input ++ ", input_type=" ++ Text.ofString c.input.typeName ++ "]"

/-- The wording of a list of complaints about a group of settings. -/
def complaintsMessage (model : Model) (cs : List Complaint) : Text :=
  Text.ofNat cs.length ++ (if cs.length = 1 then " validation error for " else " validation errors for " : String)
    ++ Text.ofString model.name ++ (cs.flatMap fun c => Text.ofString "\n" ++ c.message)

end SourceTidy.Config
