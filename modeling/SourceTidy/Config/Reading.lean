import SourceTidy.Config.Complaint
import SourceTidy.Config.Settings

/-!
# Settings from values

`Settings.ofValue` takes the table of a configuration document as settings, or says everything that is wrong with it.
The keys `extend_accept` and `extend_ignore` are folded into the lists that they extend before anything is checked.

How values are checked is left to what does it (`Checks`): what is taken as a truth value, what as a list of texts, and how the
settings of a group are put together. `Checks.usual` is what is checked with.
-/

namespace SourceTidy.Config

/-- A value, or all complaints about it. -/
abbrev Checked (α : Type) := Except (List Complaint) α

/-- The complaints of a checked value. -/
def complaints : Checked α → List Complaint
  | .ok _ => []
  | .error cs => cs

/-- The complaints of a checked value as they read from one step further out. -/
def Checked.under (step : Step) (r : Checked α) : Checked α := r.mapError fun cs => cs.map (·.under step)

/-- A single complaint about a value. -/
def refuse (fault : Fault) (v : Value) : Checked α := .error [⟨[], fault, v⟩]

/-! ## Truth values and lists of texts -/

/-- The words that mean no. -/
def falseWords : List Text := ["0", "off", "f", "false", "n", "no"]

/-- The words that mean yes. -/
def trueWords : List Text := ["1", "on", "t", "true", "y", "yes"]

/-- A truth value: one, a word for one in any case, or the numbers zero and one. -/
def boolOf (v : Value) : Checked Bool :=
  match v with
  | .bool b => .ok b
  | .int n =>
    if n = 0 then .ok false
    else if n = 1 then .ok true
    else if -0x8000000000000000 ≤ n ∧ n < 0x8000000000000000 then refuse .uninterpretable v
    else refuse .notBool v
  | .float x =>
    if x.equalsNat 0 then .ok false else if x.equalsNat 1 then .ok true else refuse .notBool v
  | .text t =>
    if falseWords.contains t.asciiLower then .ok false
    else if trueWords.contains t.asciiLower then .ok true
    else refuse .uninterpretable v
  | _ => refuse .notBool v

/-- Texts from the items of an array, counted from an index; every item that is no text is complained about. -/
def textsFrom (index : Nat) : List Value → Checked (List Text)
  | [] => .ok []
  | v :: vs =>
    let rest := textsFrom (index + 1) vs
    match v with
    | .text t => rest.map (t :: ·)
    | _ => .error (⟨[.index index], .notText, v⟩ :: complaints rest)

/-- A list of texts. -/
def textsOf (v : Value) : Checked (List Text) :=
  match v with
  | .array vs => textsFrom 0 vs
  | _ => refuse .notList v

/-! ## Groups -/

/-- The setting of a name, and its default when the table does not have it. -/
def setting (t : Fields) (name : Text) (read : Value → Checked α) (default : α) : Checked α :=
  match t.get? name with
  | none => .ok default
  | some v => (read v).under (.name name)

/-- A complaint about every key that no setting has. -/
def unknownKeys (t : Fields) (known : List Text) : List Complaint :=
  (t.filter fun (k, _) => !known.contains k).map fun (k, v) => ⟨[.name k], .unknownKey, v⟩

/-- The settings of a group, if neither they nor the keys are complained about. -/
def settled (found : List Complaint) (result : Option α) : Checked α :=
  match found, result with
  | [], some a => .ok a
  | cs, _ => .error cs

/-- The settings of a group from a table, of which some keys are known. -/
def group (t : Fields) (known : List Text) (found : List Complaint) (result : Option α) : Checked α :=
  settled (found ++ unknownKeys t known) result

/-- How values are checked. -/
structure Checks where
  /-- What is taken as a truth value. -/
  boolOf : Value → Checked Bool
  /-- What is taken as a list of texts. -/
  textsOf : Value → Checked (List Text)
  /-- The settings of a group from a table, by the keys that are known, what is complained about in the settings and what they
  make. -/
  group : {α : Type} → Fields → List Text → List Complaint → Option α → Checked α

/-- The checks that there are in a run. -/
def Checks.usual : Checks := ⟨Config.boolOf, Config.textsOf, Config.group⟩

/-- The optional tasks of a table. -/
def TaskOptions.ofValue (c : Checks) (v : Value) : Checked TaskOptions :=
  match v with
  | .table t =>
    let eol := setting t "eol" c.boolOf false
    let strictTypes := setting t "strict_types" c.boolOf false
    let shortArrays := setting t "short_arrays" c.boolOf false
    let skip := setting t "skip" c.textsOf []
    c.group t ["eol", "strict_types", "short_arrays", "skip"]
      (complaints eol ++ complaints strictTypes ++ complaints shortArrays ++ complaints skip)
      (do return ⟨← eol.toOption, ← strictTypes.toOption, ← shortArrays.toOption, ← skip.toOption⟩)
  | _ => refuse (.notTable .tasks) v

/-- The output settings of a table. -/
def Output.ofValue (c : Checks) (v : Value) : Checked Output :=
  match v with
  | .table t =>
    let progress := setting t "progress" c.boolOf true
    let color := setting t "color" c.boolOf true
    let emoji := setting t "emoji" c.boolOf false
    c.group t ["progress", "color", "emoji"] (complaints progress ++ complaints color ++ complaints emoji)
      (do return ⟨← progress.toOption, ← color.toOption, ← emoji.toOption⟩)
  | _ => refuse (.notTable .output) v

/-- The discovery settings of a table without keys that extend a list. -/
def Discovery.ofPlain (c : Checks) (v : Value) : Checked Discovery :=
  match v with
  | .table t =>
    let accept := setting t "accept" c.textsOf defaultAccept
    let ignore := setting t "ignore" c.textsOf defaultIgnore
    c.group t ["accept", "ignore"] (complaints accept ++ complaints ignore)
      (do return ⟨← accept.toOption, ← ignore.toOption⟩)
  | _ => refuse (.notTable .discovery) v

/-! ## Extending lists -/

/-- A list was to be extended by, or is, a value that holds no items. -/
structure NotIterable where
  typeName : String
  deriving DecidableEq, Repr

/-- The wording of the failure. -/
def NotIterable.message (e : NotIterable) : Text := "Value after * must be an iterable, not " ++ Text.ofString e.typeName

/-- The items of a value: those of an array, the code points of a text, the keys of a table. -/
def itemsOf (v : Value) : Except NotIterable (List Value) :=
  match v with
  | .array vs => .ok vs
  | .text t => .ok (t.map fun c => .text [c])
  | .table fields => .ok (fields.map fun (k, _) => .text k)
  | _ => .error ⟨v.qualifiedTypeName⟩

/-- What an extending key adds: nothing when its value counts as nothing, and a single text as one item. -/
def extension (v : Value) : Except NotIterable (List Value) :=
  if !v.isTruthy then .ok []
  else
    match v with
    | .text _ => .ok [v]
    | _ => itemsOf v

/-- The list that an extending key extends: the one of the table, and the default when the table has none or nothing. -/
def extended (t : Fields) (name : Text) (default : List Text) : Except NotIterable (List Value) :=
  match t.get? name with
  | none | some .null => .ok (default.map .text)
  | some v => itemsOf v

/-- A table with an extending key folded into the list that it extends. -/
def foldExtension (name : Text) (default : List Text) (t : Fields) : Except NotIterable Fields :=
  let extending := Text.ofString "extend_" ++ name
  match t.get? extending with
  | none => .ok t
  | some v => do
    let base ← extended t name default
    let extras ← extension v
    return (t.erase extending).put name (.array (base ++ extras))

/-- A value with both extending keys folded in. -/
def foldExtensions (v : Value) : Except NotIterable Value :=
  match v with
  | .table t => do
    let t ← foldExtension "accept" defaultAccept t
    let t ← foldExtension "ignore" defaultIgnore t
    return .table t
  | _ => .ok v

/-! ## All settings -/

/-- Why a value is not taken as settings. -/
inductive Refusal where
  | notIterable (e : NotIterable)
  | complaints (model : Model) (cs : List Complaint)

/-- The discovery settings of a value. -/
def Discovery.ofValue (c : Checks) (v : Value) : Except NotIterable (Checked Discovery) :=
  (foldExtensions v).map (Discovery.ofPlain c)

/-- The discovery settings inside a table of settings. -/
def discoveryIn (c : Checks) (t : Fields) : Except NotIterable (Checked Discovery) :=
  match t.get? "discovery" with
  | none => .ok (.ok {})
  | some v => (Discovery.ofValue c v).map (Checked.under (.name "discovery"))

/-- The settings of a value. -/
def Settings.ofValue (c : Checks) (v : Value) : Except Refusal Settings :=
  match v with
  | .table t => do
    let discovery ← (discoveryIn c t).mapError .notIterable
    let tasks := setting t "tasks" (TaskOptions.ofValue c) {}
    let output := setting t "output" (Output.ofValue c) {}
    let fix := setting t "fix" c.boolOf false
    let settings : Checked Settings := c.group t ["discovery", "tasks", "output", "fix"]
      (complaints discovery ++ complaints tasks ++ complaints output ++ complaints fix)
      (do return ⟨← discovery.toOption, ← tasks.toOption, ← output.toOption, ← fix.toOption⟩)
    settings.mapError (.complaints .settings)
  | _ => .error (.complaints .settings [⟨[], .notTable .settings, v⟩])

end SourceTidy.Config
