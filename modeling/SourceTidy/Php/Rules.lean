import SourceTidy.Php.Token
import SourceTidy.Php.Scan
import SourceTidy.Text.CaseFold

/-!
# Lexical rules of PHP

The reader keeps a stack of modes. In each mode the rules are tried in order on the text that is left, and the first
one that fits says how the head of the text is cut into tokens and what becomes of the stack. A rule can do no more
than give lengths: the tokens are always cut from the text itself, one after the other.
-/

namespace SourceTidy.Php

/-- Where the reader stands. -/
inductive Mode where
  /-- Outside of PHP code. -/
  | html
  /-- In PHP code. -/
  | code
  /-- After `class`, before its name. -/
  | className
  /-- After `function`, before its name. -/
  | functionName
  /-- Between the braces of a variable variable. -/
  | variableName
  /-- In a double quoted string. -/
  | doubleQuoted
  /-- In an attribute. -/
  | attribute
  /-- In the arguments of an attribute. -/
  | attributeArguments
  deriving DecidableEq, Repr

/-- What a rule does to the stack of modes. -/
inductive Move where
  | stay
  | push (m : Mode)
  | pop
  deriving DecidableEq, Repr

/-- How the head of a text is cut. -/
inductive Cut where
  /-- Tokens of these kinds and lengths; a token of no length is left out. -/
  | tokens (parts : List (TokenKind × Nat))
  /-- Code between delimiters inside a string: the lengths of the opening delimiter, of the code and of the closing
  delimiter. -/
  | embedded (opening code closing : Nat) (opening_pos : 0 < opening)

/-- A lexical rule. -/
structure Rule where
  cut : Text → Option Cut
  move : Move := .stay

namespace Rule

/-- One token. -/
def token (kind : TokenKind) (scan : Scan) : Rule := ⟨fun t => (scan t).map fun n => .tokens [(kind, n)], .stay⟩

/-- The lengths of scans that are run one after the other. -/
def parts : List (TokenKind × Scan) → Text → Option (List (TokenKind × Nat))
  | [], _ => some []
  | (kind, scan) :: rest, t => do
    let n ← scan t
    let ps ← parts rest (t.drop n)
    return (kind, n) :: ps

/-- One token after the other. -/
def sequence (scans : List (TokenKind × Scan)) : Rule := ⟨fun t => (parts scans t).map .tokens, .stay⟩

/-- The same rule with a move. -/
def andMove (r : Rule) (m : Move) : Rule := { r with move := m }

/-- The last indentation, in a run of blanks, after which a heredoc ends: the delimiter in any case, perhaps a semicolon,
and a line end. The blanks are tried from the most to none. Gives the number of blanks and whether there is a
semicolon. -/
def heredocEnd (delimiter : Text) (t : Text) : Nat → Option (Nat × Bool)
  | 0 => ending 0
  | n + 1 => ending (n + 1) <|> heredocEnd delimiter t n
where
  /-- The end of a heredoc after a number of blanks. -/
  ending (n : Nat) : Option (Nat × Bool) :=
    let rest := t.drop n
    let after := rest.drop delimiter.length
    if (rest.take delimiter.length).map CodePoint.lower = delimiter then
      if Text.startsWith after ";\n" then some (n, true)
      else if after.head? == some ('\n' : CodePoint) then some (n, false)
      else none
    else none

/-- The first line of a heredoc's text after which it ends: the length of the text before the delimiter, and whether a
semicolon follows the delimiter. -/
def heredocBody (delimiter : Text) : Text → Option (Nat × Bool)
  | [] => none
  | c :: rest =>
    let here :=
      if c = '\n' then heredocEnd delimiter rest (rest.takeWhile CodePoint.isBlank).length else none
    match here with
    | some (blanks, semicolon) => some (blanks + 1, semicolon)
    | none => (heredocBody delimiter rest).map fun (n, semicolon) => (n + 1, semicolon)

/-- A heredoc, its delimiter quoted or not. -/
def heredoc : Rule := ⟨fun t => do
  let opening ← Scan.exact "<<<" t
  let afterOpening := t.drop opening
  let quote := afterOpening.take ((Scan.one (fun c => c == '\'' || c == '"') afterOpening).getD 0)
  let afterQuote := afterOpening.drop quote.length
  let name ← Scan.simpleName afterQuote
  let start ← Scan.exact (quote ++ "\n") (afterQuote.drop name)
  let delimiter := (afterQuote.take name).map CodePoint.lower
  let (body, semicolon) ← heredocBody delimiter (afterQuote.drop (name + start))
  return .tokens [(.heredoc, opening), (.heredoc, quote.length), (.delimiter, name), (.heredoc, start + body),
    (.delimiter, name), (.punctuation, if semicolon then 1 else 0), (.space, 1)], .stay⟩

/-- Code inside a string between an opening that leaves nothing to choose and the first closing after it. -/
def embedded (opening start closing : Text) (h : 0 < opening.length) : Rule := ⟨fun t => do
  let n ← Scan.exact (opening ++ start) t
  let code ← Scan.before closing (t.drop n)
  return .embedded opening.length (start.length + code) closing.length h, .stay⟩

/-- A variable's name between braces inside a string. -/
def bracedName : Rule := ⟨fun t => do
  let opening ← Scan.exact "$\x7b" t
  let name ← Scan.beforeLast (fun c => !c.isBlank) '}' (t.drop opening)
  return .tokens [(.interpolation, opening), (.variableName, name), (.interpolation, 1)], .stay⟩

end Rule

/-- Any one of some code points. -/
def isAmong (s : Text) (c : CodePoint) : Bool := s.contains c

/-- The words of PHP that are keywords, and the constants and class names read like keywords. -/
def keywords : List Text :=
  (["and", "e_parse", "old_function", "e_error", "or", "as", "e_warning", "parent", "eval", "php_os", "break", "exit",
    "case", "extends", "php_version", "cfunction", "false", "print", "for", "require", "continue", "foreach",
    "require_once", "declare", "return", "default", "static", "do", "switch", "die", "stdclass", "echo", "else", "true",
    "elseif", "var", "empty", "if", "xor", "enddeclare", "include", "virtual", "endfor", "include_once", "while",
    "endforeach", "global", "endif", "list", "endswitch", "new", "endwhile", "not", "array", "e_all", "null", "final",
    "php_user_filter", "interface", "implements", "public", "private", "protected", "abstract", "clone", "try", "catch",
    "throw", "this", "use", "namespace", "trait", "yield", "finally", "match", "readonly"] : List String).map
    Text.ofString

/-- The constants that tell about the place in the source. -/
def placeConstants : List Text :=
  (["__line__", "__file__", "__dir__", "__function__", "__class__", "__trait__", "__method__", "__namespace__",
    "__property__"] : List String).map Text.ofString

/-- The methods that PHP calls by itself. -/
def magicMethods : List Text :=
  (["__construct", "__destruct", "__call", "__callstatic", "__get", "__set", "__isset", "__unset", "__sleep",
    "__wakeup", "__tostring", "__invoke", "__set_state", "__clone", "__debuginfo"] : List String).map Text.ofString

/-- One of some words, in any case, that makes up the whole word at the head of the text. -/
def wordAmong (words : List Text) : Scan := fun t =>
  let run := t.takeWhile CodePoint.isWord
  if words.contains (run.map bareCase) then some run.length else none

/-- The number of an exponent with its letter. -/
def exponent : Scan :=
  .andThen (.one fun c => c == 'e' || c == 'E')
    (.andThen (.optional (.one (isAmong "+-"))) (.some1 CodePoint.isAsciiDigit))

/-- A decimal fraction. -/
def fraction : Scan :=
  .orElse (.andThen (.some1 CodePoint.isDigit) (.andThen (.exact ".") (.many CodePoint.isDigit)))
    (.andThen (.many CodePoint.isDigit) (.andThen (.exact ".") (.some1 CodePoint.isDigit)))

/-- Blanks, which may be missing. -/
def blanks : Scan := .many CodePoint.isBlank

/-- One blank or more. -/
def blanks1 : Scan := .some1 CodePoint.isBlank

/-- The blanks between a sign and the name that it announces. A blank beyond ASCII may start the name itself, but does so
only where no name comes after the blanks: they end at the last place that leaves a name to read. -/
def blanksBefore (startsIt : CodePoint → Bool) : Scan := fun t =>
  let run := (t.takeWhile CodePoint.isBlank).length
  match (t.take (run + 1)).reverse.dropWhile (!startsIt ·) with
  | [] => none
  | _ :: front => some front.length

/-- The rules outside of PHP code. -/
def htmlRules : List Rule := [
  .andMove (.token .tag (.andThen (.exact "<?") (.optional (.word "php")))) (.push .code),
  .token .html (.some1 (· != '<')),
  .token .html (.exact "<")]

/-- The rules in PHP code. -/
def codeRules : List Rule := [
  .andMove (.token .tag (.exact "?>")) .pop,
  .heredoc,
  .token .space blanks1,
  .andMove (.token .punctuation (.exact "#[")) (.push .attribute),
  .token .lineComment (.andThen (.exact "#") (.through "\n")),
  .token .lineComment (.andThen (.exact "//") (.through "\n")),
  .token .blockComment (.exact "/**/"),
  .token .docComment (.andThen (.exact "/**") (.through "*/")),
  .token .blockComment (.andThen (.exact "/*") (.through "*/")),
  .sequence [(.operator, .orElse (.exact "->") (.exact "::")), (.space, blanksBefore startsSimpleName),
    (.member, .simpleName)],
  .token .operator (.some1 (isAmong "~!%^&*+=|:.<>/@-")),
  .token .operator (.exact "?"),
  .token .punctuation (.some1 (isAmong "[]\x7b\x7d();,")),
  .sequence [(.keyword, .word "new"), (.space, blanks1), (.keyword, .andThen (.word "class") .wordEnd)],
  .andMove (.sequence [(.keyword, .word "class"), (.space, blanks1)]) (.push .className),
  .sequence [(.keyword, .word "function"), (.space, .andThen blanks (.ahead '('))],
  .andMove (.sequence [(.keyword, .word "function"), (.space, blanks1), (.operator, .optional (.exact "&")),
    (.space, blanks)]) (.push .functionName),
  .sequence [(.keyword, .word "const"), (.space, .andThen (.one CodePoint.isBlank) (blanksBefore startsName)),
    (.constant, .name)],
  .token .keyword (.andThen (.word "yield from") .wordEnd),
  .token .keyword (wordAmong keywords),
  .token .constant (wordAmong placeConstants),
  .andMove (.token .variableName (.exact "$\x7b")) (.push .variableName),
  .token .variableName (.andThen (.some1 (· == '$')) .name),
  .token .name .name,
  .token .float (.andThen fraction (.optional exponent)),
  .token .float (.andThen (.some1 CodePoint.isDigit) exponent),
  .token .octal (.andThen (.exact "0") (.some1 (·.within 0x30 0x37))),
  .token .hexadecimal (.andThen (.word "0x") (.some1 CodePoint.isHexDigit)),
  .token .integer (.some1 CodePoint.isDigit),
  .token .singleQuoted (.andThen (.exact "'") (.closing '\'')),
  .token .backquoted (.andThen (.one (·.toNat == 0x60)) (.closing (.ofNat 0x60))),
  .andMove (.token .doubleQuoted (.exact "\"")) (.push .doubleQuoted)]

/-- The rules in a double quoted string. -/
def doubleQuotedRules : List Rule := [
  .andMove (.token .doubleQuoted (.exact "\"")) .pop,
  .token .doubleQuoted (.some1 fun c => !isAmong "\x7b$\"\\" c),
  .token .escape (.andThen (.exact "\\") (.orElse (.one fun c => isAmong "nrt\"$\\" (bareCase c))
    (.orElse (.upTo 3 (·.within 0x30 0x37)) (.andThen (.word "x") (.upTo 2 CodePoint.isHexDigit))))),
  .token .interpolation (.andThen (.exact "$") (.andThen .simpleName (.optional (.orElse
    (.andThen (.exact "[") (.andThen (.beforeFirst (fun c => !c.isBlank) ']') (.exact "]")))
    (.andThen (.exact "->") .simpleName))))),
  .embedded "\x7b$\x7b" "" "\x7d\x7d" (by decide),
  .embedded "\x7b" "$" "\x7d" (by decide),
  .bracedName,
  .token .doubleQuoted (.one (isAmong "$\x7b\\"))]

/-- The rules of a mode. -/
def rules : Mode → List Rule
  | .html => htmlRules
  | .code => codeRules
  | .className => [.andMove (.token .className .name) .pop]
  | .functionName => [
      .token .magicFunction (wordAmong magicMethods),
      .andMove (.token .functionName .name) .pop,
      ⟨fun _ => some (.tokens []), .pop⟩]
  | .variableName => .andMove (.token .variableName (.exact "\x7d")) .pop :: codeRules
  | .doubleQuoted => doubleQuotedRules
  | .attribute =>
      .andMove (.token .punctuation (.exact "]")) .pop ::
      .andMove (.token .punctuation (.exact "(")) (.push .attributeArguments) ::
      .token .decorator .name :: codeRules
  | .attributeArguments => .andMove (.token .punctuation (.exact ")")) .pop :: codeRules

end SourceTidy.Php
