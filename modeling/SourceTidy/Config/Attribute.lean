import SourceTidy.Config.Complaint

/-!
# Names on the way to a setting

An assignment follows a way of names. Each of them has to be a name that the thing before it has: a group of settings
has its settings, what follows from them and the names that every group has, and a value has the names of its type.
Types are known by their names in messages.
-/

namespace SourceTidy.Config

/-- What a way of names can lead to. -/
inductive Place where
  | group (model : Model)
  /-- A value, or something that can be done with a thing; all that counts is its type. -/
  | object (type : String)
  deriving DecidableEq, Repr

/-- Whether a text is one of some words. -/
def isOneOf (name : Text) (words : List String) : Bool := words.any fun w => Text.ofString w == name

/-- The type of what can be done with a group. -/
def methodType : String := "method"

/-- The type of what can be done with a value. -/
def builtinType : String := "builtin_function_or_method"

namespace Model

/-- The group of a name, if there is one. -/
def ofName? (name : Text) : Option Model :=
  if name = "discovery" then some discovery
  else if name = "tasks" then some tasks
  else if name = "output" then some output
  else none

/-- What can be done with every group. -/
def commonMethods : List String :=
  ["construct", "copy", "dict", "from_orm", "json", "model_construct", "model_copy", "model_dump", "model_dump_json",
    "model_json_schema", "model_parametrized_name", "model_post_init", "model_rebuild", "model_validate",
    "model_validate_json", "model_validate_strings", "parse_file", "parse_obj", "parse_raw", "schema", "schema_json",
    "update_forward_refs", "validate"]

/-- What every group has beside its settings. -/
def commonPlace? (name : Text) : Option Place :=
  if isOneOf name commonMethods then some (.object methodType)
  else if isOneOf name ["model_computed_fields", "model_config", "model_fields"] then some (.object "dict")
  else if name = "model_fields_set" then some (.object "set")
  else if name = "model_extra" then some (.object "NoneType")
  else none

/-- The names of the truth values of a group. -/
def switches : Model → List String
  | settings => ["fix", "read_only"]
  | discovery => []
  | tasks => ["eol", "strict_types", "short_arrays"]
  | output => ["progress", "color", "emoji"]

/-- The names of the lists of a group. -/
def lists : Model → List String
  | discovery => ["accept", "ignore"]
  | tasks => ["skip"]
  | settings | output => []

/-- What can be done with a group of its own. -/
def methods : Model → List String
  | discovery => ["accept_set", "ignore_set"]
  | settings | tasks | output => []

/-- What a name of a group leads to. -/
def place? (m : Model) (name : Text) : Option Place :=
  if m = settings ∧ (ofName? name).isSome then (ofName? name).map .group
  else if isOneOf name m.switches then some (.object "bool")
  else if isOneOf name m.lists then some (.object "list")
  else if isOneOf name m.methods then some (.object methodType)
  else commonPlace? name

/-- Whether a name of a group stands for something that follows from its settings. -/
def isDerived (m : Model) (name : Text) : Bool :=
  isOneOf name ["model_extra", "model_fields_set"] || (m == settings && name == "read_only")

end Model

/-- A name that the values of a type have. -/
inductive Attribute where
  /-- A part of the value, and the type that parts of this name belong to. -/
  | part (owner : String)
  /-- Something that can be done with the value. -/
  | method
  deriving DecidableEq, Repr

namespace Attribute

/-- What can be done with the values of a type. -/
def methodsOf (type : String) : List String :=
  if type = "bool" ∨ type = "int" then
    ["as_integer_ratio", "bit_count", "bit_length", "conjugate", "from_bytes", "to_bytes"]
  else if type = "float" then ["as_integer_ratio", "conjugate", "fromhex", "hex", "is_integer"]
  else if type = "str" then
    ["capitalize", "casefold", "center", "count", "encode", "endswith", "expandtabs", "find", "format", "format_map",
      "index", "isalnum", "isalpha", "isascii", "isdecimal", "isdigit", "isidentifier", "islower", "isnumeric",
      "isprintable", "isspace", "istitle", "isupper", "join", "ljust", "lower", "lstrip", "maketrans", "partition",
      "removeprefix", "removesuffix", "replace", "rfind", "rindex", "rjust", "rpartition", "rsplit", "rstrip", "split",
      "splitlines", "startswith", "strip", "swapcase", "title", "translate", "upper", "zfill"]
  else if type = "list" then
    ["append", "clear", "copy", "count", "extend", "index", "insert", "pop", "remove", "reverse", "sort"]
  else if type = "dict" then
    ["clear", "copy", "fromkeys", "get", "items", "keys", "pop", "popitem", "setdefault", "update", "values"]
  else if type = "set" then
    ["add", "clear", "copy", "difference", "difference_update", "discard", "intersection", "intersection_update",
      "isdisjoint", "issubset", "issuperset", "pop", "remove", "symmetric_difference", "symmetric_difference_update",
      "union", "update"]
  else []

/-- The attribute of a name that the values of a type have, if there is one. -/
def of? (type : String) (name : Text) : Option Attribute :=
  if isOneOf name (methodsOf type) then some .method
  else if (type = "bool" ∨ type = "int") ∧ isOneOf name ["real", "imag", "numerator", "denominator"] then
    some (.part "int")
  else if type = "float" ∧ isOneOf name ["real", "imag"] then some (.part "float")
  else none

/-- What an attribute leads to. -/
def place : Attribute → Place
  | part owner => .object owner
  | method => .object builtinType

end Attribute
end SourceTidy.Config
