import SourceTidy.Text.Lines
import SourceTidy.Text.Quoted

/-!
# Tasks

A task looks at the content of one file. It reports what it finds and answers with the content as it should be, which
for a task that only checks is the content it was given. A task may come from outside of this library, so it may also
answer with something that is no text, or fail.
-/

namespace SourceTidy

/-- How grave a finding is. -/
inductive Level where
  /-- Something that can be corrected. -/
  | fix
  | warning
  | error
  deriving DecidableEq, Repr

namespace Task

/-- What a task reports: how grave it is, its wording, and the line, if it has one. -/
structure Notice where
  level : Level
  message : Text
  line : Option Int := none
  deriving DecidableEq, Repr

/-- What a task does apart from answering. -/
inductive Act where
  /-- Reports a finding. -/
  | report (notice : Notice)
  /-- Removes a file or a directory of the tree; if that is refused, the task fails there. -/
  | remove (path : Text)
  /-- Takes down where it stands and what it is given. -/
  | record (content : Text)
  deriving DecidableEq, Repr

/-- How a task fails. -/
inductive Fault where
  | value (message : Option Text)
  | system (message : Option Text)
  | missingKey (key : Option Text)
  /-- An integer of a JSON document has too many digits. -/
  | tooManyDigits (count : Nat)
  /-- The containers of a JSON document are nested too deeply. -/
  | tooDeep (container : String)
  /-- Any other failure, known by its wording only. -/
  | other (message : Text)
  deriving DecidableEq, Repr

/-- The wording of a failure; a missing key is shown between quotes. -/
def Fault.message : Fault → Text
  | value m => m.getD []
  | system m => m.getD []
  | missingKey k => (k.map Text.quoted).getD []
  | tooManyDigits n =>
    "Exceeds the limit (4300 digits) for integer string conversion: value has " ++ Text.ofNat n
      ++ " digits; use sys.set_int_max_str_digits() to increase the limit"
  | tooDeep container =>
    "maximum recursion depth exceeded while decoding a JSON " ++ Text.ofString container ++ " from a unicode string"
  | other m => m

/-- What a task may answer with that is no text. -/
inductive NonText where
  | none
  | int
  | bytes
  | list
  | bool
  /-- Anything else, known by the name of its kind only. -/
  | other (typeName : String)
  deriving DecidableEq, Repr

/-- The name of a kind of answer. -/
def NonText.typeName : NonText → String
  | none => "NoneType"
  | int => "int"
  | bytes => "bytes"
  | list => "list"
  | bool => "bool"
  | other typeName => typeName

/-- How a task ends. -/
inductive Outcome where
  | text (content : Text)
  | nonText (kind : NonText)
  | failed (fault : Fault)
  deriving DecidableEq, Repr

/-- What a task does and how it ends. -/
structure Response where
  acts : List Act
  outcome : Outcome
  deriving DecidableEq, Repr

/-- Which file a task is looking at, and whether fixes will stay unwritten. -/
structure Context where
  path : Text
  readOnly : Bool
  deriving DecidableEq, Repr

/-- What a task does with the content of a file. -/
abbrev Handler := Context → Text → Response

/-- What a response reports. -/
def Response.notices (r : Response) : List Notice :=
  r.acts.filterMap fun
    | .report n => some n
    | _ => none

/-- The task that reports what a check finds and leaves the content as it is. -/
def Handler.ofCheck (check : Text → List Notice) : Handler := fun _ t => ⟨(check t).map .report, .text t⟩

/-- The task that reports what a correction finds and answers with the corrected content. -/
def Handler.ofFix (fix : Text → List Notice × Text) : Handler := fun _ t =>
  let (notices, t') := fix t
  ⟨notices.map .report, .text t'⟩

/-- A finding on the line of an offset. -/
def Notice.at (level : Level) (message : Text) (t : Text) (offset : Nat) : Notice :=
  ⟨level, message, some ((t.lineAt offset : Nat) : Int)⟩

/-- The finding at the first place where a code point of a class stands, if there is one. -/
def Notice.atFirst (level : Level) (message : Text) (p : CodePoint → Bool) (t : Text) : List Notice :=
  ((t.findIdx? p).map fun n => Notice.at level message t n).toList

end Task

/-- A task with its name and the mask of the names of the files that it looks at; without a mask it looks at every
file. -/
structure Task where
  name : Text
  mask : Option Text
  handler : Task.Handler

end SourceTidy
