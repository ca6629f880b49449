import SourceTidy.Config.Attribute
import SourceTidy.Config.Reading

/-!
# Assigning settings

A single setting, or a whole group of them, can be assigned a value by the names that lead to it. The value is checked
as it is when settings are read, and settings stay as they are when it is refused. Names of a group that start with an
underscore are free: they take any value, and nothing depends on them.
-/

namespace SourceTidy.Config

/-- Why an assignment is refused. -/
inductive AssignError where
  /-- A group on the way does not have a name that was asked for. -/
  | noMember (model : Model) (name : Text)
  /-- A value on the way does not have a name that was asked for. -/
  | noAttribute (type : String) (name : Text)
  /-- What a group has under the name follows from its settings. -/
  | derived (model : Model) (name : Text)
  /-- The part of a value cannot be changed. -/
  | fixedPart (owner : String) (name : Text)
  /-- What can be done with a value cannot be changed. -/
  | fixedMethod (type : String) (name : Text)
  | notIterable (e : NotIterable)
  | complaints (model : Model) (cs : List Complaint)

/-- The wording of a refusal. -/
def AssignError.message : AssignError → Text
  | noMember model name => "'" ++ Text.ofString model.name ++ "' object has no attribute " ++ name.quoted
  | noAttribute type name => "'" ++ Text.ofString type ++ "' object has no attribute '" ++ name ++ "'"
  | derived model name => "property '" ++ name ++ "' of '" ++ Text.ofString model.name ++ "' object has no setter"
  | fixedPart owner name => "attribute '" ++ name ++ "' of '" ++ Text.ofString owner ++ "' objects is not writable"
  | fixedMethod type name => "'" ++ Text.ofString type ++ "' object attribute '" ++ name ++ "' is read-only"
  | notIterable e => e.message
  | complaints m cs => complaintsMessage m cs

/-- The outcome of an assignment. -/
abbrev Assigned (α : Type) := Except AssignError α

/-- A checked value for a setting of a group. -/
def assigned (model : Model) (name : Text) (r : Checked α) : Assigned α :=
  (r.under (.name name)).mapError (.complaints model)

/-- The refusal of a name that a group does not have. -/
def unknownName (model : Model) (name : Text) (v : Value) : Assigned α :=
  .error (.complaints model [⟨[.name name], .unknownAttribute name, v⟩])

/-- Discovery settings with one of them assigned. -/
def Discovery.assign (d : Discovery) (name : Text) (v : Value) : Assigned Discovery :=
  let put := assigned (α := List Text) .discovery name (textsOf v)
  if name = "accept" then put.map fun ts => { d with accept := ts }
  else if name = "ignore" then put.map fun ts => { d with ignore := ts }
  else unknownName .discovery name v

/-- Task options with one of them assigned. -/
def TaskOptions.assign (o : TaskOptions) (name : Text) (v : Value) : Assigned TaskOptions :=
  let put := assigned .tasks name (boolOf v)
  if name = "eol" then put.map fun b => { o with eol := b }
  else if name = "strict_types" then put.map fun b => { o with strictTypes := b }
  else if name = "short_arrays" then put.map fun b => { o with shortArrays := b }
  else if name = "skip" then (assigned .tasks name (textsOf v)).map fun ts => { o with skip := ts }
  else unknownName .tasks name v

/-- Output settings with one of them assigned. -/
def Output.assign (o : Output) (name : Text) (v : Value) : Assigned Output :=
  let put := assigned .output name (boolOf v)
  if name = "progress" then put.map fun b => { o with progress := b }
  else if name = "color" then put.map fun b => { o with color := b }
  else if name = "emoji" then put.map fun b => { o with emoji := b }
  else unknownName .output name v

/-- Settings with one of them, or a whole group, assigned. -/
def Settings.assign (s : Settings) (name : Text) (v : Value) : Assigned Settings :=
  if name = "discovery" then do
    let checked ← (Discovery.ofValue .usual v).mapError .notIterable
    (assigned .settings name checked).map fun d => { s with discovery := d }
  else if name = "tasks" then (assigned .settings name (TaskOptions.ofValue .usual v)).map fun o => { s with tasks := o }
  else if name = "output" then (assigned .settings name (Output.ofValue .usual v)).map fun o => { s with output := o }
  else if name = "fix" then (assigned .settings name (boolOf v)).map fun b => { s with fix := b }
  else unknownName .settings name v

/-- Settings with a setting of one of the groups assigned. -/
def Settings.assignIn (s : Settings) (m : Model) (name : Text) (v : Value) : Assigned Settings :=
  match m with
  | .settings => s.assign name v
  | .discovery => (s.discovery.assign name v).map fun d => { s with discovery := d }
  | .tasks => (s.tasks.assign name v).map fun o => { s with tasks := o }
  | .output => (s.output.assign name v).map fun o => { s with output := o }

/-- Settings that can be assigned to, with their free names. -/
structure Sheet where
  settings : Settings
  /-- The free names that have been assigned, with their groups and the types of their values, the last one first. -/
  free : List ((Model × Text) × String) := []

namespace Sheet

/-- What a name leads to from a place. -/
def member (s : Sheet) (p : Place) (name : Text) : Assigned Place :=
  match p with
  | .group m =>
    match m.place? name, s.free.lookup (m, name) with
    | some q, _ => .ok q
    | none, some type => .ok (.object type)
    | none, none => .error (.noMember m name)
  | .object type =>
    match Attribute.of? type name with
    | some a => .ok a.place
    | none => .error (.noAttribute type name)

/-- What a way of names leads to. -/
def follow (s : Sheet) (way : List Text) : Assigned Place := way.foldlM s.member (.group .settings)

/-- Whether a name is free in every group. -/
def isFree (name : Text) : Bool := name.head? == some (CodePoint.ofChar '_')

/-- The sheet after a value has been assigned to a name of a group. A group that is assigned as a whole loses its free
names. -/
def assignMember (s : Sheet) (m : Model) (name : Text) (v : Value) : Assigned Sheet :=
  if isFree name then .ok { s with free := ((m, name), v.typeName) :: s.free }
  else if m.isDerived name then .error (.derived m name)
  else do
    let settings ← s.settings.assignIn m name v
    let replaced := if m = .settings then Model.ofName? name else none
    return ⟨settings, s.free.filter fun ((n, _), _) => some n ≠ replaced⟩

/-- The refusal of an assignment to a name of a value. -/
def fixedName (type : String) (name : Text) : AssignError :=
  match Attribute.of? type name with
  | some (.part owner) => .fixedPart owner name
  | some .method => .fixedMethod type name
  | none => .noAttribute type name

/-- The sheet after a value has been assigned to a name at a place. -/
def assignAt (s : Sheet) (p : Place) (name : Text) (v : Value) : Assigned Sheet :=
  match p with
  | .group m => s.assignMember m name v
  | .object type => .error (fixedName type name)

/-- The sheet after a value has been assigned at the end of a way of names. -/
def assign (s : Sheet) (way : List Text) (v : Value) : Assigned Sheet :=
  match way.getLast? with
  | none => .ok s
  | some name => do s.assignAt (← s.follow way.dropLast) name v

end Sheet
end SourceTidy.Config
