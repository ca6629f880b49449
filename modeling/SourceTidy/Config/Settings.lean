import SourceTidy.Glob.MaskSet

/-!
# Settings

What a run can be told: which files to look at, which optional tasks to run, how to print, and whether to write. Every
setting has a default.
-/

namespace SourceTidy.Config

/-- The masks of the files that are looked at by default. -/
def defaultAccept : List Text :=
  (["*.php", "*.phpt", "*.inc", "*.txt", "*.texy", "*.md", "*.css", "*.less", "*.sass", "*.scss", "*.js", "*.json",
    "*.latte", "*.htm", "*.html", "*.phtml", "*.xml", "*.ini", "*.neon", "*.yml", "*.sh", "*.bat", "*.sql",
    ".htaccess", ".gitignore"] : List String).map Text.ofString

/-- The masks of the files and directories that are left out by default. -/
def defaultIgnore : List Text :=
  ([".git", ".svn", ".idea", "*.tmp", "tmp", "temp", "log", "vendor", "node_modules", "bower_components", "*.min.js",
    "package.json", "package-lock.json"] : List String).map Text.ofString

/-- Which files are looked at. -/
structure Discovery where
  accept : List Text := defaultAccept
  ignore : List Text := defaultIgnore
  deriving DecidableEq, Repr

/-- The masks of the files to look at, as a set. -/
def Discovery.acceptSet (d : Discovery) : MaskSet := .ofList d.accept

/-- The masks of what is left out, as a set. -/
def Discovery.ignoreSet (d : Discovery) : MaskSet := .ofList d.ignore

/-- Which optional tasks run, and which tasks are left out by name. -/
structure TaskOptions where
  eol : Bool := false
  strictTypes : Bool := false
  shortArrays : Bool := false
  skip : List Text := []
  deriving DecidableEq, Repr

/-- How a run prints. -/
structure Output where
  progress : Bool := true
  color : Bool := true
  emoji : Bool := false
  deriving DecidableEq, Repr

/-- All settings of a run. -/
structure Settings where
  discovery : Discovery := {}
  tasks : TaskOptions := {}
  output : Output := {}
  /-- Whether fixes are written. -/
  fix : Bool := false
  deriving DecidableEq, Repr

/-- Whether fixes stay unwritten. -/
def Settings.readOnly (s : Settings) : Bool := !s.fix

end SourceTidy.Config
