import SourceTidy.Task.PlainText
import SourceTidy.Php.Lexer
import SourceTidy.Php.ShortArrays

/-!
# Tasks for PHP sources

Checks and corrections that read a PHP source through its tokens, and two that look at its text alone.
-/

namespace SourceTidy.Task

open SourceTidy.Php (Token Scan)

/-! ## Comments of documentation -/

/-- Whether a tag starts in a text: an at sign with no word before it and a letter after it. -/
def hasTag (previous : CodePoint) : Text → Bool
  | [] => false
  | c :: rest => (c == '@' && !previous.isWord && rest.head?.any Php.isBareLetter) || hasTag c rest

/-- Whether a block comment that is no comment of documentation holds a tag. -/
def isTaggedComment (t : Text) : Bool :=
  match Text.dropPrefix? t "/*" with
  | some rest => rest.head? != some ('*' : CodePoint) && hasTag '*' rest
  | none => false

/-- Whether a comment of documentation goes on without a blank after its opening. -/
def lacksSpace (t : Text) : Bool :=
  match Text.dropPrefix? t "/**" with
  | some rest => !rest.head?.any CodePoint.isBlank
  | none => false

/-- Reports tags in plain comments and comments of documentation that lack a blank, by the tokens of the source. -/
def checkDocComments (ks : List Token) (t : Text) : List Notice :=
  ks.filterMap fun k =>
    if k.kind = .blockComment ∧ isTaggedComment k.text then
      some (.at .warning "Missing /** in phpDoc comment" t k.offset)
    else if k.kind = .docComment ∧ lacksSpace k.text then some (.at .warning "Missing space after /**" t k.offset)
    else none

/-! ## Short arrays -/

/-- The finding for an edit that opens a short array. -/
def shortArrayNotice (t : Text) (e : Php.Edit) : Option Notice :=
  if e.replacement = '[' then some (.at .fix "uses old array() syntax" t e.start) else none

/-- Writes array literals with brackets, by the tokens of the source. -/
def fixArrays (ks : List Token) (t : Text) : List Notice × Text :=
  let edits := Php.ShortArrays.edits ks
  (edits.filterMap (shortArrayNotice t), Php.Edit.applyAll edits t)

/-! ## The declaration of strict types -/

/-- The declaration of strict types, but for what may stand before it. -/
def strictTypes : Scan :=
  .andThen (.exact "declare(") (.andThen Php.blanks (.andThen (.exact "strict_types") (.andThen Php.blanks
    (.andThen (.exact "=") (.andThen Php.blanks (.andThen (.exact "1") (.andThen Php.blanks (.exact ")"))))))))

/-- Whether strict types are declared in a text, given whether it goes on a word. -/
def declaresStrictTypes (inWord : Bool) : Text → Bool
  | [] => false
  | c :: rest => (!inWord && (strictTypes (c :: rest)).isSome) || declaresStrictTypes c.isWord rest

/-- Reports a missing declaration of strict types. -/
def checkStrictTypes (t : Text) : List Notice :=
  if declaresStrictTypes false t then [] else [⟨.error, "Missing declare(strict_types=1)", none⟩]

/-! ## Escapes in double quoted strings -/

/-- The double quoted literals of a source, each with its offset: the texts of adjacent tokens put together. The first
argument is the literal that is being put together. -/
def literals : Option (Nat × Text) → List Token → List (Nat × Text)
  | current, [] => current.toList
  | current, k :: ks =>
    if k.kind.isDoubleQuotedText then
      match current with
      | none => literals (some (k.offset, k.text)) ks
      | some (offset, text) => literals (some (offset, text ++ k.text)) ks
    else current.toList ++ literals none ks

/-- The escapes of a literal, from left to right: where the backslash stands, and the code point it takes along. -/
def escapes : Nat → Text → List (Nat × CodePoint)
  | _, [] => []
  | _, [_] => []
  | offset, c :: d :: rest => if c = '\\' then (offset, d) :: escapes (offset + 2) rest else escapes (offset + 1) (d :: rest)

/-- What may follow a backslash. -/
def isKnownEscape (c : CodePoint) : Bool := (Text.ofString "nrtvef\\$\"01234567xu\x7b").contains c

/-- Reports the escapes that PHP leaves as they are, by the tokens of the source. -/
def checkEscapes (ks : List Token) (t : Text) : List Notice :=
  (literals none ks).flatMap fun (start, literal) =>
    (escapes start literal).filterMap fun (offset, c) =>
      if isKnownEscape c then none
      else some (.at .warning ("Invalid escape sequence \\" ++ [c] ++ " in double quoted string") t offset)

/-! ## The closing tag -/

/-- The tag that ends PHP code. -/
def closingTag : Text := "?>"

/-- Takes away a closing tag that ends the file, and the blanks after it. -/
def fixClosingTag (t : Text) : List Notice × Text :=
  let trimmed := Text.dropRightWhile isEndBlank t
  if closingTag.isSuffixOf trimmed then
    ([⟨.fix, "contains closing PHP tag ?>", none⟩], trimmed.take (trimmed.length - closingTag.length))
  else ([], t)

/-! ## Indentation -/

/-- A source in which every code point of string data and of text outside of PHP code is covered, line ends aside. -/
def maskData (ks : List Token) : Text :=
  ks.flatMap fun k =>
    if k.kind.isData then
      k.text.map fun c => if c = Text.carriageReturn ∨ c = Text.lineFeed then c else ('x' : CodePoint)
    else k.text

/-- Reports the first line of PHP code that is indented with something other than tabs, by the tokens of the source. -/
def checkPhpIndentation (ks : List Token) (t : Text) : List Notice :=
  ((maskData ks).spaceIndentation?.map fun n =>
    Notice.at .error "Used space to indentate instead of tab" t n).toList

end SourceTidy.Task
