import SourceTidy.Config.Reading
import SourceTidy.Toml.Document
import SourceTidy.Tree.Basic

/-!
# Sources of settings

A source is a TOML document that may hold settings: a document of its own, or a section of a project's document. A
source that does not exist holds nothing.
-/

namespace SourceTidy.Config

/-- Which part of a document holds the settings. -/
inductive SourceKind where
  /-- The whole document. -/
  | document
  /-- The section of this program in the document of a project. -/
  | section
  deriving DecidableEq, Repr

/-- A source of settings. -/
structure Source where
  kind : SourceKind
  path : Path
  /-- The name that it is shown by instead of its path. -/
  givenName : Option Text := none
  deriving DecidableEq, Repr

namespace Source

/-- The name that a source is shown by. -/
def name (s : Source) : Text := (s.givenName.filter fun n => !n.isEmpty).getD s.path.text

/-- The wording for a source. -/
def description (s : Source) : Text :=
  match s.kind with
  | .document => "TOML configuration at " ++ s.name
  | .section => "pyproject.toml (" ++ s.name ++ ")"

end Source

/-- The name of the document of settings that is looked for. -/
def documentName : Text := ".codechecker.toml"

/-- The name of a project's document. -/
def projectName : Text := "pyproject.toml"

/-- The table of a project's document that holds the sections. -/
def toolKey : Text := "tool"

/-- The section of this program. -/
def sectionKey : Text := "codechecker"

/-- Why settings could not be loaded. -/
inductive LoadError where
  /-- The document that was asked for does not exist. -/
  | missing (path : Path)
  /-- The system does not take a path. -/
  | refused (failure : SystemFailure)
  | unreadable (failure : SystemFailure)
  | notUtf8 (e : Utf8.DecodeError)
  /-- The document breaks the grammar; the part that was not read is given. -/
  | malformed (path : Path) (problem : Toml.Problem) (document rest : Text)
  | tooManyDigits (count : Nat)
  /-- The arrays and tables of a document are nested too deeply. -/
  | tooDeep
  /-- The tables of two sources are nested too deeply to be laid over each other. -/
  | mergedTooDeep
  /-- The section is no table. -/
  | notTable (name : Text)
  | notIterable (e : NotIterable)
  /-- The settings of some sources are complained about. -/
  | invalid (sources : List Text) (complaints : List Complaint)

namespace LoadError

/-- Whether a failure is one that loading settings answers for; the others come through from what it uses. -/
def isOwn : LoadError → Bool
  | missing _ | unreadable _ | malformed _ _ _ _ | notTable _ | invalid _ _ => true
  | refused _ | notUtf8 _ | tooManyDigits _ | tooDeep | mergedTooDeep | notIterable _ => false

/-- What invalid settings are said to come from. -/
def origin (sources : List Text) : Text := if sources.isEmpty then "defaults" else Text.join ", " sources

/-- The first part of the wording of a failure; for invalid settings the complaints follow it. -/
def headline : LoadError → Text
  | missing p => "Configuration file '" ++ p.text ++ "' does not exist"
  | refused f => f.message
  | unreadable f => "Unable to read " ++ f.path.text ++ ": " ++ f.message
  | notUtf8 e => e.message
  | malformed p problem document rest => "Invalid TOML in " ++ p.text ++ ": " ++ problem.messageAt document rest
  | tooManyDigits count =>
    "Exceeds the limit (4300 digits) for integer string conversion: value has " ++ Text.ofNat count
      ++ " digits; use sys.set_int_max_str_digits() to increase the limit"
  | tooDeep => "maximum recursion depth exceeded"
  | mergedTooDeep => "maximum recursion depth exceeded in comparison"
  | notTable n => "[tool." ++ sectionKey ++ "] in " ++ n ++ " must be a table"
  | notIterable e => e.message
  | invalid sources _ => "Invalid configuration (" ++ origin sources ++ ")"

/-- The wording of a failure. -/
def message : LoadError → Text
  | invalid sources cs => headline (invalid sources cs) ++ ": " ++ complaintsMessage .settings cs
  | e => e.headline

end LoadError

namespace Source

/-- The table of a TOML document at a path, and an empty one when there is nothing. -/
def readTable (stack : Toml.Stack) (t : Tree) (work : Location) (p : Path) : Except LoadError Fields := do
  if !(← (t.pathExists work p).mapError .refused) then return []
  let bytes ← (t.read work p).mapError fun e => .unreadable ⟨p, e⟩
  let document ← (Utf8.decodeStrict bytes).mapError .notUtf8
  (Toml.parse stack document).mapError fun
    | .broken problem rest => .malformed p problem document rest
    | .tooManyDigits count => .tooManyDigits count
    | .tooDeep => .tooDeep

/-- The section of this program in the table of a project's document. -/
def sectionOf (s : Source) (document : Fields) : Except LoadError Fields :=
  match document.get? toolKey with
  | some (.table tools) =>
    match Fields.get? tools sectionKey with
    | some (.table fields) => .ok fields
    | some _ => .error (.notTable s.name)
    | none => .ok []
  | _ => .ok []

/-- The table that a source holds. -/
def load (s : Source) (stack : Toml.Stack) (t : Tree) (work : Location) : Except LoadError Fields :=
  match s.kind with
  | .document => readTable stack t work s.path
  | .section => readTable stack t work s.path >>= s.sectionOf

end Source
end SourceTidy.Config
