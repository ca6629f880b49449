import SourceTidy.Config.Settings
import SourceTidy.Task.JsonDocument
import SourceTidy.Task.PhpSource

/-!
# The tasks of this library

Fifteen tasks, in the order in which they run. Most of them always run; three run only when an option asks for them, and
each can be left out by its name.
-/

namespace SourceTidy.Task

open SourceTidy.Config (TaskOptions)

/-- The tasks of this library. -/
inductive Builtin where
  | controlCharacters
  | byteOrderMark
  | encoding
  | docComments
  | shortArrays
  | strictTypes
  | lineEnds
  | escapes
  | closingTag
  | json
  | yamlIndentation
  | trailingBlanks
  | tabIndentation
  | phpIndentation
  | innerTabs
  deriving DecidableEq, Repr

namespace Builtin

/-- All tasks in the order in which they run. -/
def all : List Builtin :=
  [controlCharacters, byteOrderMark, encoding, docComments, shortArrays, strictTypes, lineEnds, escapes, closingTag,
    json, yamlIndentation, trailingBlanks, tabIndentation, phpIndentation, innerTabs]

/-- The name that a task is shown and left out by. -/
def name : Builtin → Text
  | controlCharacters => "control_characters_checker"
  | byteOrderMark => "bom_fixer"
  | encoding => "utf8_checker"
  | docComments => "invalid_php_doc_checker"
  | shortArrays => "short_array_syntax_fixer"
  | strictTypes => "strict_types_declaration_checker"
  | lineEnds => "newline_normalizer"
  | escapes => "invalid_double_quoted_string_checker"
  | closingTag => "trailing_php_tag_remover"
  | json => "json_syntax_checker"
  | yamlIndentation => "yaml_indentation_checker"
  | trailingBlanks => "trailing_whitespace_fixer"
  | tabIndentation => "tab_indentation_checker"
  | phpIndentation => "tab_indentation_php_checker"
  | innerTabs => "unexpected_tabs_checker"

/-- The mask of the names of PHP sources. -/
def phpMask : Text := "*.php,*.phpt"

/-- The mask of the names of the files that a task looks at; without one it looks at every file. -/
def mask : Builtin → Option Text
  | controlCharacters | byteOrderMark | encoding | trailingBlanks => none
  | docComments | shortArrays | strictTypes | escapes | closingTag | phpIndentation => some phpMask
  | lineEnds => some "!*.sh"
  | json => some "*.json"
  | yamlIndentation | innerTabs => some "*.yml"
  | tabIndentation => some "*.css,*.less,*.js,*.json,*.neon"

/-- What a task does, given how PHP sources are cut into tokens. -/
def handlerWith (tokens : Text → List Php.Token) : Builtin → Handler
  | controlCharacters => .ofCheck checkControlCharacters
  | byteOrderMark => .ofFix fixByteOrderMark
  | encoding => .ofCheck checkEncoding
  | docComments => .ofCheck fun t => checkDocComments (tokens t) t
  | shortArrays => .ofFix fun t => fixArrays (tokens t) t
  | strictTypes => .ofCheck checkStrictTypes
  | lineEnds => .ofFix fixLineEnds
  | escapes => .ofCheck fun t => checkEscapes (tokens t) t
  | closingTag => .ofFix fixClosingTag
  | json => checkJson
  | yamlIndentation => .ofCheck checkYamlIndentation
  | trailingBlanks => .ofFix fixTrailingBlanks
  | tabIndentation => .ofCheck checkTabIndentation
  | phpIndentation => .ofCheck fun t => checkPhpIndentation (tokens t) t
  | innerTabs => .ofCheck checkInnerTabs

/-- What a task does. -/
def handler : Builtin → Handler := handlerWith Php.tokens

/-- A task with its own name and mask, given how PHP sources are cut into tokens. -/
def taskWith (tokens : Text → List Php.Token) (b : Builtin) : Task := ⟨b.name, b.mask, b.handlerWith tokens⟩

/-- A task with its own name and mask. -/
def task : Builtin → Task := taskWith Php.tokens

/-- The task of a name, if there is one. -/
def ofName? (name : Text) : Option Builtin := all.find? (·.name = name)

/-- Whether the options ask for a task; those that no option turns on are always asked for. -/
def isWanted (o : TaskOptions) : Builtin → Bool
  | shortArrays => o.shortArrays
  | strictTypes => o.strictTypes
  | lineEnds => o.eol
  | _ => true

/-- The tasks that run under some options, in order: those asked for and not left out. -/
def selectedWith (tokens : Text → List Php.Token) (o : TaskOptions) : List Task :=
  (all.filter fun b => !o.skip.contains b.name && isWanted o b).map (taskWith tokens)

/-- The tasks of this library that run under some options. -/
def selected : TaskOptions → List Task := selectedWith Php.tokens

end Builtin
end SourceTidy.Task
