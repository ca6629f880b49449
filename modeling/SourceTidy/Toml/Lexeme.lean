import SourceTidy.Value.Basic

/-!
# Lexemes of TOML

Blanks, comments, keys, strings, numbers and moments of TOML 1.0, each read from the head of a text. A reader gives its
result and what is left, or a failure that holds the text from the place on where the reading stopped. Line ends are
single line feeds: a document is brought to that form before it is read.
-/

namespace SourceTidy.Toml

/-- What is wrong at the place where the reading stopped. -/
inductive Problem where
  | statement
  | lineEnd
  | equalsSign
  | keyStart
  | tableEnd
  | tableArrayEnd
  | value
  | overwrites
  | declaredTwice (key : List Text)
  | immutable (key : List Text)
  | redefines (key : List Text)
  | duplicateInlineKey (key : Text)
  | unclosedArray
  | unclosedInlineTable
  | unterminatedString
  | delimiter (delimiter : Text)
  | illegalInString (c : CodePoint)
  | illegal (c : CodePoint)
  | backslash
  | hexValue
  | notScalar
  | moment
  deriving DecidableEq, Repr

/-- Why a document is refused. -/
inductive Failure where
  | broken (problem : Problem) (rest : Text)
  /-- A decimal integer has too many digits to be taken in. -/
  | tooManyDigits (count : Nat)
  /-- Arrays and inline tables are nested too deeply. -/
  | tooDeep
  deriving DecidableEq, Repr

/-- A key as messages show it: its parts between parentheses, and a comma after a single part. -/
def shownKey : List Text → Text
  | [] => "()"
  | [k] => "(" ++ k.quoted ++ ",)"
  | ks => "(" ++ Text.join ", " (ks.map Text.quoted) ++ ")"

/-- The wording of a problem. -/
def Problem.message : Problem → Text
  | statement => "Invalid statement"
  | lineEnd => "Expected newline or end of document after a statement"
  | equalsSign => "Expected '=' after a key in a key/value pair"
  | keyStart => "Invalid initial character for a key part"
  | tableEnd => "Expected ']' at the end of a table declaration"
  | tableArrayEnd => "Expected ']]' at the end of an array declaration"
  | value => "Invalid value"
  | overwrites => "Cannot overwrite a value"
  | declaredTwice key => "Cannot declare " ++ shownKey key ++ " twice"
  | immutable key => "Cannot mutate immutable namespace " ++ shownKey key
  | redefines key => "Cannot redefine namespace " ++ shownKey key
  | duplicateInlineKey key => "Duplicate inline table key " ++ key.quoted
  | unclosedArray => "Unclosed array"
  | unclosedInlineTable => "Unclosed inline table"
  | unterminatedString => "Unterminated string"
  | delimiter d => "Expected " ++ d.quoted
  | illegalInString c => "Illegal character " ++ Text.quoted [c]
  | illegal c => "Found invalid character " ++ Text.quoted [c]
  | backslash => "Unescaped '\\' in a string"
  | hexValue => "Invalid hex value"
  | notScalar => "Escaped character is not a Unicode scalar value"
  | moment => "Invalid date or datetime"

/-! ## Blanks and comments -/

/-- A blank inside a line. -/
def isBlank (c : CodePoint) : Bool := c == ' ' || c == '\t'

/-- A control character other than the tab, which neither a comment nor a string on one line may hold. -/
def isControl (c : CodePoint) : Bool := (decide (c.toNat < 0x20) || c.toNat == 0x7F) && c != '\t'

/-- A text without the blanks at its head. -/
def skipBlanks (t : Text) : Text := t.dropWhile isBlank

/-- The end of the line that a comment is on. -/
def skipCommentBody : Text → Except Failure Text
  | [] => .ok []
  | c :: rest =>
    if c = '\n' then .ok (c :: rest)
    else if isControl c then .error (.broken (.illegal c) (c :: rest))
    else skipCommentBody rest

/-- A text without the comment at its head, if there is one. -/
def skipComment : Text → Except Failure Text
  | [] => .ok []
  | c :: rest => if c = '#' then skipCommentBody rest else .ok (c :: rest)

/-- A text without the blanks, line ends and comments at its head; reading starts inside of a comment or outside. -/
def skipTrivia : Bool → Text → Except Failure Text
  | _, [] => .ok []
  | true, c :: rest =>
    if c = '\n' then skipTrivia false rest
    else if isControl c then .error (.broken (.illegal c) (c :: rest))
    else skipTrivia true rest
  | false, c :: rest =>
    if c = '#' then skipTrivia true rest
    else if isBlank c || c == '\n' then skipTrivia false rest
    else .ok (c :: rest)

/-! ## Strings -/

/-- The code point that a number of hexadecimal digits at the head of a text stand for. -/
def hexCharacter (count : Nat) (t : Text) : Except Failure CodePoint :=
  let digits := t.take count
  if digits.length = count ∧ digits.all CodePoint.isHexDigit then
    let n := digits.foldl (fun n c => n * 16 + c.digitValue) 0
    if n < 0xD800 ∨ (0xE000 ≤ n ∧ n < 0x110000) then .ok (.ofNat n)
    else .error (.broken .notScalar (t.drop count))
  else .error (.broken .hexValue t)

/-- What a letter after a backslash stands for. -/
def simpleEscape (c : CodePoint) : Option CodePoint :=
  if c = 'b' then some (.ofNat 8)
  else if c = 't' then some '\t'
  else if c = 'n' then some '\n'
  else if c = 'f' then some (.ofNat 0xC)
  else if c = 'r' then some '\r'
  else if c = '"' || c = '\\' then some c
  else none

/-- Where the reading of a basic string stands. -/
inductive StringMode where
  | text
  /-- The next code points belong to an escape that was read already. -/
  | passing (count : Nat)
  /-- After a backslash that hides a line end, before that line end. -/
  | beforeLineEnd
  /-- After a line end hidden by a backslash, before anything visible. -/
  | afterLineEnd
  deriving DecidableEq, Repr

/-- The body of a basic string, read behind its opening quotes. -/
def basicBody (multiline : Bool) : StringMode → Text → Except Failure (Text × Text)
  | _, [] => .error (.broken .unterminatedString [])
  | .passing (n + 1), _ :: rest => basicBody multiline (.passing n) rest
  | .beforeLineEnd, c :: rest =>
    if isBlank c then basicBody multiline .beforeLineEnd rest
    else if c = '\n' then basicBody multiline .afterLineEnd rest
    else .error (.broken .backslash (c :: rest))
  | mode, c :: rest =>
    if mode = .afterLineEnd ∧ (isBlank c || c == '\n') then basicBody multiline .afterLineEnd rest
    else if c = '"' ∧ (!multiline || Text.startsWith rest "\"\"") then
      .ok ([], if multiline then rest.drop 2 else rest)
    else if c = '\\' then
      match rest with
      | [] => .error (.broken .backslash [])
      | d :: rest' =>
        if multiline && isBlank d then basicBody multiline .beforeLineEnd rest'
        else if multiline && d == '\n' then basicBody multiline .afterLineEnd rest'
        else if d = 'u' ∨ d = 'U' then do
          let count := if d = 'u' then 4 else 8
          let e ← hexCharacter count rest'
          let (s, left) ← basicBody multiline (.passing count) rest'
          return (e :: s, left)
        else
          match simpleEscape d with
          | some e => do
            let (s, left) ← basicBody multiline .text rest'
            return (e :: s, left)
          | none => .error (.broken .backslash rest')
    else if isControl c && !(multiline && c == '\n') then .error (.broken (.illegalInString c) (c :: rest))
    else do
      let (s, left) ← basicBody multiline .text rest
      return (c :: s, left)

/-- The text before the first place where some code points stand, and the text after them. -/
def cut? (stop : Text) : Text → Option (Text × Text)
  | [] => none
  | c :: rest =>
    match Text.dropPrefix? (c :: rest) stop with
    | some after => some ([], after)
    | none => (cut? stop rest).map fun (before, after) => (c :: before, after)

/-- The body of a literal string, read behind its opening quotes. -/
def literalBody (multiline : Bool) (t : Text) : Except Failure (Text × Text) :=
  let delimiter : Text := if multiline then "'''" else "'"
  match cut? delimiter t with
  | none => .error (.broken (.delimiter delimiter) [])
  | some (body, after) =>
    match body.findIdx? fun c => isControl c && !(multiline && c == '\n') with
    | some i => .error (.broken (.illegal (body.getD i default)) (t.drop i))
    | none => .ok (body, after)

/-- Up to two more quotes directly after the end of a string on several lines belong to the string. -/
def moreQuotes (quote : CodePoint) (s : Text) : Text → Text × Text
  | c :: d :: rest =>
    if c = quote ∧ d = quote then (s ++ [c, d], rest) else if c = quote then (s ++ [c], d :: rest) else (s, c :: d :: rest)
  | [c] => if c = quote then (s ++ [c], []) else (s, [c])
  | [] => (s, [])

/-- A string on several lines, read behind its opening quotes. -/
def multilineString (literal : Bool) (t : Text) : Except Failure (Text × Text) := do
  let t := if t.head? = some (CodePoint.ofChar '\n') then t.tail else t
  let (s, rest) ← if literal then literalBody true t else basicBody true .text t
  return moreQuotes (if literal then '\'' else '"') s rest

/-! ## Keys -/

/-- A code point of a key that is not quoted. -/
def isBareKey (c : CodePoint) : Bool := c.isAsciiLetter || c.isAsciiDigit || c == '-' || c == '_'

/-- One part of a key. -/
def keyPart : Text → Except Failure (Text × Text)
  | [] => .error (.broken .keyStart [])
  | c :: rest =>
    if isBareKey c then .ok ((c :: rest).takeWhile isBareKey, (c :: rest).dropWhile isBareKey)
    else if c = '\'' then literalBody false rest
    else if c = '"' then basicBody false .text rest
    else .error (.broken .keyStart (c :: rest))

/-- A key, its parts joined by points, and the blanks after it; at most a number of parts after the first. -/
def key : Nat → Text → Except Failure (List Text × Text)
  | 0, t => do
    let (k, rest) ← keyPart t
    return ([k], skipBlanks rest)
  | fuel + 1, t => do
    let (k, rest) ← keyPart t
    match skipBlanks rest with
    | [] => return ([k], [])
    | c :: rest' =>
      if c = '.' then do
        let (ks, left) ← key fuel (skipBlanks rest')
        return (k :: ks, left)
      else return ([k], c :: rest')

/-! ## Numbers -/

/-- Digits of a class at the head of a text, single underscores between them left out, and what is left. -/
def digits (p : CodePoint → Bool) : Text → Text × Text
  | [] => ([], [])
  | [c] => if p c then ([c], []) else ([], [c])
  | c :: d :: rest =>
    if p c then
      let (ds, left) := digits p (d :: rest)
      (c :: ds, left)
    else if c = '_' ∧ p d then
      let (ds, left) := digits p rest
      (d :: ds, left)
    else ([], c :: d :: rest)

/-- Digits of a class, if the text starts with one. -/
def digits? (p : CodePoint → Bool) (t : Text) : Option (Text × Text) :=
  if t.head?.any p then some (digits p t) else none

/-- The number that digits write in a base. -/
def numberOf (base : Nat) (ds : Text) : Nat := ds.foldl (fun n c => n * base + c.digitValue) 0

/-- An integer in another base than ten. -/
def prefixedInteger : Text → Option (Value × Text)
  | c :: d :: rest =>
    let read (base : Nat) (p : CodePoint → Bool) :=
      (digits? p rest).map fun (ds, left) => (Value.int (numberOf base ds), left)
    if c ≠ '0' then none
    else if d = 'x' then read 16 CodePoint.isHexDigit
    else if d = 'b' then read 2 (·.within 0x30 0x31)
    else if d = 'o' then read 8 (·.within 0x30 0x37)
    else none
  | _ => none

/-- The sign at the head of a text, if there is one: whether it is negative, and what is left. -/
def sign : Text → Bool × Text
  | c :: rest => if c = '-' then (true, rest) else if c = '+' then (false, rest) else (false, c :: rest)
  | [] => (false, [])

/-- The digits after a point, if there are some. -/
def fraction? : Text → Option (Text × Text)
  | c :: rest => if c = '.' then digits? CodePoint.isAsciiDigit rest else none
  | [] => none

/-- The power of ten after an E, if there is one. -/
def exponent? : Text → Option (Int × Text)
  | c :: rest =>
    if c = 'e' ∨ c = 'E' then
      let (negative, rest') := sign rest
      (digits? CodePoint.isAsciiDigit rest').map fun (ds, left) =>
        (if negative then -(numberOf 10 ds : Int) else numberOf 10 ds, left)
    else none
  | [] => none

/-- A decimal number, if the text starts with one. -/
def decimal (t : Text) : Option (Except Failure (Value × Text)) :=
  let (negative, body) := sign t
  let whole := if body.head? = some (CodePoint.ofChar '0') then some (body.take 1, body.drop 1) else digits? (·.isAsciiDigit) body
  whole.map fun (ds, afterWhole) =>
    let (fs, afterFraction) := (fraction? afterWhole).getD ([], afterWhole)
    let power := exponent? afterFraction
    if fs.isEmpty && power.isNone then
      if Value.maxDigits < ds.length then .error (.tooManyDigits ds.length)
      else .ok (.int (if negative then -(numberOf 10 ds : Int) else numberOf 10 ds), afterWhole)
    else
      let (e, left) := power.getD (0, afterFraction)
      .ok (.float (.ofDecimal negative (numberOf 10 (ds ++ fs)) (e - fs.length)), left)

/-- The numbers that have names. -/
def namedNumber (t : Text) : Option (Value × Text) :=
  let (negative, body) := sign t
  match Text.dropPrefix? body "inf", Text.dropPrefix? body "nan" with
  | some rest, _ => some (.float (.infinite negative), rest)
  | none, some rest => some (.float .nan, rest)
  | none, none => none

/-! ## Moments -/

/-- A fixed count of decimal digits whose number lies in a range. -/
def fixedDigits (count least most : Nat) (t : Text) : Option (Nat × Text) :=
  let ds := t.take count
  let n := numberOf 10 ds
  if ds.length = count ∧ ds.all CodePoint.isAsciiDigit ∧ least ≤ n ∧ n ≤ most then some (n, t.drop count) else none

/-- A text without a given code point at its head. -/
def after? (c : CodePoint) : Text → Option Text
  | d :: rest => if d = c then some rest else none
  | [] => none

/-- The microseconds of a fraction of a second; digits beyond the sixth are let go. -/
def microseconds (t : Text) : Nat × Text :=
  match after? '.' t with
  | none => (0, t)
  | some rest =>
    let ds := rest.takeWhile CodePoint.isAsciiDigit
    if ds.isEmpty then (0, t)
    else (numberOf 10 (ds.take 6) * Binary64.tenTo (6 - (ds.take 6).length), rest.dropWhile CodePoint.isAsciiDigit)

/-- A time of the day. -/
def time (t : Text) : Option (TimeOfDay × Text) := do
  let (hour, t) ← fixedDigits 2 0 23 t
  let (minute, t) ← fixedDigits 2 0 59 (← after? ':' t)
  let (second, t) ← fixedDigits 2 0 59 (← after? ':' t)
  let (microsecond, t) := microseconds t
  return (⟨hour, minute, second, microsecond⟩, t)

/-- A day, which need not be one of the calendar. -/
def date (t : Text) : Option (Date × Text) := do
  let (year, t) ← fixedDigits 4 0 9999 t
  let (month, t) ← fixedDigits 2 1 12 (← after? '-' t)
  let (day, t) ← fixedDigits 2 1 31 (← after? '-' t)
  return (⟨year, month, day⟩, t)

/-- An offset from universal time in minutes. -/
def offset (t : Text) : Option Int × Text :=
  match t with
  | [] => (none, [])
  | c :: rest =>
    if c = 'Z' ∨ c = 'z' then (some 0, rest)
    else if c = '+' ∨ c = '-' then
      let read : Option (Nat × Text) := do
        let (hours, u) ← fixedDigits 2 0 23 rest
        let (minutes, u) ← fixedDigits 2 0 59 (← after? ':' u)
        return (hours * 60 + minutes, u)
      match read with
      | some (minutes, u) => (some (if c = '-' then -(minutes : Int) else minutes), u)
      | none => (none, t)
    else (none, t)

/-- A day, with a time after it or not. -/
def dateOrDateTime (t : Text) : Option (Except Failure (Value × Text)) := do
  let (day, rest) ← date t
  let withTime : Option (TimeOfDay × Text) :=
    match rest with
    | [] => none
    | c :: rest' => if c = 'T' ∨ c = 't' ∨ c = ' ' then time rest' else none
  if !day.isValid then return .error (.broken .moment t)
  match withTime with
  | some (clock, rest') =>
    let (zone, left) := offset rest'
    return .ok (.dateTime ⟨day, clock, zone⟩, left)
  | none => return .ok (.date day, rest)

end SourceTidy.Toml
