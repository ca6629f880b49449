import SourceTidy.Report.Styled

/-!
# Findings

A finding is shown on one line: its tag, the path of the file with the line, and the message. `Reporter` keeps what has
been reported, from which the counts follow.
-/

namespace SourceTidy

/-- Something that was found in a file. -/
structure Finding where
  level : Level
  path : Text
  message : Text
  line : Option Int := none
  /-- Whether a fix is written. -/
  applied : Bool := true
  deriving DecidableEq, Repr

namespace Level

/-- All levels, in the order of summaries. -/
def all : List Level := [fix, warning, error]

/-- The name of a level. -/
def name : Level → String
  | fix => "fix"
  | warning => "warning"
  | error => "error"

/-- The level of a name, if there is one. -/
def ofName? (name : Text) : Option Level := all.find? fun l => Text.ofString l.name = name

/-- The wording of the refusal of a name that no level has. -/
def unknownMessage (name : Text) : Text := name.quoted ++ " is not a valid FindingLevel"

/-- The word for findings of a level in summaries. -/
def noun : Level → String
  | fix => "fix(es)"
  | warning => "warning(s)"
  | error => "error(s)"

end Level

namespace Finding

/-- The tag of a finding; a fix that is not written is only found. -/
def tag (f : Finding) : Text :=
  match f.level with
  | .fix => if f.applied then "[FIX]" else "[FOUND]"
  | .warning => "[WARNING]"
  | .error => "[ERROR]"

/-- The width that tags are filled up to. -/
def tagWidth : Nat := 10

/-- The sign between the names of a path. -/
def slash : CodePoint := '/'

/-- The last name of a path. -/
def baseName (path : Text) : Text := (path.reverse.takeWhile (· != slash)).reverse

/-- What stands before the last name of a path, without slashes at its end unless it has nothing else. -/
def directoryName (path : Text) : Text :=
  let before := path.take (path.length - (baseName path).length)
  if before.all (· == slash) then before else Text.dropRightWhile (· == slash) before

/-- The decimal text of a line. -/
def lineText (n : Int) : Text := (if n < 0 then "-" else "" : String) ++ Text.ofNat n.natAbs

/-- The last name of the path of a finding, with the line if there is one. -/
def place (f : Finding) : Text :=
  match f.line with
  | none => baseName f.path
  | some n => baseName f.path ++ ":" ++ lineText n

/-- The pieces of the line for a finding on a console, in colour or without. -/
def styled (f : Finding) (console : Report.Console) (color : Bool) : Report.Styled :=
  let style (s : Report.Style) : Option Report.Style := if color then some s else none
  let directory := directoryName f.path
  let start := Report.Styled.add [] console (Text.padRight tagWidth f.tag) (style (.level f.level))
  let located := if directory.isEmpty then start else start.add console (directory ++ [slash]) (style .directory)
  ((located.add console f.place (style .file)).add console "    " none).add console f.message (style (.level f.level))

end Finding

/-- What has been reported, in order. -/
structure Reporter where
  findings : List Finding := []
  deriving DecidableEq, Repr

namespace Reporter

/-- Reports one more finding. -/
def report (r : Reporter) (f : Finding) : Reporter := ⟨r.findings ++ [f]⟩

/-- How many findings of a level have been reported. -/
def count (r : Reporter) (l : Level) : Nat := r.findings.countP fun f => f.level = l

/-- How many findings have been reported. -/
def total (r : Reporter) : Nat := r.findings.length

/-- The counts of the levels that have any findings. -/
def summary (r : Reporter) : Text :=
  Text.join ", " ((Level.all.filter fun l => r.count l != 0).map fun l =>
    Text.ofNat (r.count l) ++ " " ++ Text.ofString l.noun)

end Reporter
end SourceTidy
