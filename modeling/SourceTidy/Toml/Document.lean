import SourceTidy.Text.Lines
import SourceTidy.Toml.Namespace

/-!
# TOML documents

`parse` reads a document of TOML 1.0 into a table. There is only so much room for nesting (`Stack`), of which an inline table
may take more than an array; a document that needs more is refused when its reading comes to the place. The readers of values
also take a bound on the number of their steps, which is larger than the number of code points that are left.
-/

namespace SourceTidy.Toml

/-- Puts the place of a failure to a problem. -/
def atPlace (rest : Text) (r : Except Problem α) : Except Failure α := r.mapError (.broken · rest)

/-- A value that holds no other values. -/
def simpleValue (t : Text) : Except Failure (Value × Text) :=
  if let some rest := Text.dropPrefix? t "\"\"\"" then (fun (s, r) => (.text s, r)) <$> multilineString false rest
  else if let some rest := Text.dropPrefix? t "\"" then (fun (s, r) => (.text s, r)) <$> basicBody false .text rest
  else if let some rest := Text.dropPrefix? t "'''" then (fun (s, r) => (.text s, r)) <$> multilineString true rest
  else if let some rest := Text.dropPrefix? t "'" then (fun (s, r) => (.text s, r)) <$> literalBody false rest
  else if let some rest := Text.dropPrefix? t "true" then .ok (.bool true, rest)
  else if let some rest := Text.dropPrefix? t "false" then .ok (.bool false, rest)
  else if let some r := dateOrDateTime t then r
  else if let some (clock, rest) := time t then .ok (.time clock, rest)
  else if let some (n, rest) := prefixedInteger t then .ok (n, rest)
  else if let some r := decimal t then r
  else if let some (n, rest) := namedNumber t then .ok (n, rest)
  else .error (.broken .value t)

/-- An equals sign and the blanks after it. -/
def equalsSign : Text → Except Failure Text
  | c :: rest => if c = '=' then .ok (skipBlanks rest) else .error (.broken .equalsSign (c :: rest))
  | [] => .error (.broken .equalsSign [])

/-- The room that a reader has for nesting. -/
structure Stack where
  /-- The room in a value that stands in no other. -/
  room : Nat
  /-- The room that an array takes. -/
  array : Nat
  /-- The room that an inline table takes. -/
  inlineTable : Nat

/-- The room that there is in a run. -/
def Stack.usual : Stack := ⟨980, 2, 3⟩

mutual

/-- A value, for which there is some room. -/
def value (stack : Stack) : Nat → Nat → Text → Except Failure (Value × Text)
  | 0, _, t => .error (.broken .value t)
  | _ + 1, 0, _ => .error .tooDeep
  | fuel + 1, room, t =>
    match t with
    | [] => .error (.broken .value [])
    | c :: rest =>
      if c = '[' then do
        match ← skipTrivia false rest with
        | [] => items stack fuel (room - stack.array) [] []
        | d :: rest' =>
          if d = ']' then return (.array [], rest') else items stack fuel (room - stack.array) [] (d :: rest')
      else if c = '\x7b' then
        match skipBlanks rest with
        | [] => pairs stack fuel (room - stack.inlineTable) [] [] []
        | d :: rest' =>
          if d = '\x7d' then return (.table [], rest') else pairs stack fuel (room - stack.inlineTable) [] [] (d :: rest')
      else simpleValue (c :: rest)

/-- The items of an array from a value on; those before it are given from the last to the first. -/
def items (stack : Stack) : Nat → Nat → List Value → Text → Except Failure (Value × Text)
  | 0, _, _, t => .error (.broken .value t)
  | fuel + 1, room, before, t => do
    let (v, rest) ← value stack fuel room t
    match ← skipTrivia false rest with
    | [] => .error (.broken .unclosedArray [])
    | c :: rest' =>
      if c = ']' then return (.array (v :: before).reverse, rest')
      else if c = ',' then
        match ← skipTrivia false rest' with
        | [] => items stack fuel room (v :: before) []
        | d :: rest'' =>
          if d = ']' then return (.array (v :: before).reverse, rest'') else items stack fuel room (v :: before) (d :: rest'')
      else .error (.broken .unclosedArray (c :: rest'))

/-- The pairs of an inline table from a key on, with the table and the marks of the pairs before it. -/
def pairs (stack : Stack) : Nat → Nat → Marks → Fields → Text → Except Failure (Value × Text)
  | 0, _, _, _, t => .error (.broken .value t)
  | fuel + 1, room, marks, fields, t => do
    let (k, afterKey) ← key t.length t
    let (v, rest) ← value stack fuel room (← equalsSign afterKey)
    if marks.has k .frozen then .error (.broken (.immutable k) rest)
    else
      let stem := k.getLast?.getD []
      let fields ← atPlace rest (descend false (putNew stem v (.duplicateInlineKey stem)) k.dropLast fields)
      match skipBlanks rest with
      | [] => .error (.broken .unclosedInlineTable [])
      | c :: rest' =>
        if c = '\x7d' then return (.table fields, rest')
        else if c = ',' then
          let marks := if closesPlace v then ⟨k, .frozen, true⟩ :: marks else marks
          pairs stack fuel room marks fields (skipBlanks rest')
        else .error (.broken .unclosedInlineTable (c :: rest'))

end

/-- What is known of a document after some statements. -/
structure State where
  fields : Fields := []
  marks : Marks := []
  /-- Marks that take effect at the next header. -/
  pending : Marks := []
  /-- The key of the last header. -/
  header : List Text := []

namespace State

/-- Lets the pending marks take effect. -/
def settle (s : State) : State := { s with marks := s.pending ++ s.marks, pending := [] }

/-- A pair of a key and a value. -/
def pair (stack : Stack) (s : State) (t : Text) : Except Failure (State × Text) := do
  let (k, afterKey) ← key t.length t
  let (v, rest) ← value stack (2 * t.length + 2) stack.room (← equalsSign afterKey)
  let stem := k.getLast?.getD []
  let parent := s.header ++ k.dropLast
  let inner := (List.range (k.length - 1)).map fun i => s.header ++ k.take (i + 1)
  if let some taken := inner.find? (s.marks.has · .declared) then .error (.broken (.redefines taken) rest)
  if s.marks.has parent .frozen then .error (.broken (.immutable parent) rest)
  let fields ← atPlace rest (descend true (putNew stem v .overwrites) parent s.fields)
  let marks := if closesPlace v then ⟨s.header ++ k, .frozen, true⟩ :: s.marks else s.marks
  return ({ s with fields, marks, pending := inner.map (⟨·, .declared, false⟩) ++ s.pending }, rest)

/-- The header of a table, read behind its bracket. -/
def tableHeader (s : State) (t : Text) : Except Failure (State × Text) := do
  let (k, rest) ← key t.length (skipBlanks t)
  if s.marks.has k .declared || s.marks.has k .frozen then .error (.broken (.declaredTwice k) rest)
  let fields ← atPlace rest (descend true .ok k s.fields)
  match rest with
  | c :: rest' =>
    if c = ']' then return ({ s with fields, marks := ⟨k, .declared, false⟩ :: s.marks, header := k }, rest')
    else .error (.broken .tableEnd rest)
  | [] => .error (.broken .tableEnd [])

/-- The header of a table in an array of tables, read behind its brackets. -/
def tableArrayHeader (s : State) (t : Text) : Except Failure (State × Text) := do
  let (k, rest) ← key t.length (skipBlanks t)
  if s.marks.has k .frozen then .error (.broken (.immutable k) rest)
  let fields ← atPlace rest (descend true (appendTable (k.getLast?.getD [])) k.dropLast s.fields)
  match Text.dropPrefix? rest "]]" with
  | some rest' =>
    return ({ s with fields, marks := ⟨k, .declared, false⟩ :: s.marks.clear k, header := k }, rest')
  | none => .error (.broken .tableArrayEnd rest)

/-- A header of either form, read behind its first bracket. -/
def anyHeader (s : State) : Text → Except Failure (State × Text)
  | c :: rest => if c = '[' then s.settle.tableArrayHeader rest else s.settle.tableHeader (c :: rest)
  | [] => s.settle.tableHeader []

/-- Whether a code point starts a key. -/
def startsKey (c : CodePoint) : Bool := isBareKey c || c == '"' || c == '\''

/-- The statement at the head of a text; a comment alone is none. -/
def statement (stack : Stack) (s : State) : Text → Except Failure (State × Text)
  | [] => .ok (s, [])
  | c :: rest =>
    if startsKey c then s.pair stack (c :: rest)
    else if c = '[' then s.anyHeader rest
    else if c = '#' then .ok (s, c :: rest)
    else .error (.broken .statement (c :: rest))

/-- The rest of a document, at most a number of lines of it. -/
def lines (stack : Stack) : Nat → State → Text → Except Failure State
  | 0, s, _ => .ok s
  | fuel + 1, s, t =>
    match skipBlanks t with
    | [] => .ok s
    | c :: rest =>
      if c = '\n' then lines stack fuel s rest
      else do
        let (s, afterStatement) ← s.statement stack (c :: rest)
        match ← skipComment (skipBlanks afterStatement) with
        | [] => .ok s
        | d :: rest' => if d = '\n' then lines stack fuel s rest' else .error (.broken .lineEnd (d :: rest'))

end State

/-- Where the reading of a document stopped, in words: the line and the column, both from one, or the end. -/
def placeShown (document rest : Text) : Text :=
  if rest.isEmpty then "end of document"
  else
    let before := document.take (document.length - rest.length)
    let column := (before.reverse.takeWhile (· != Text.lineFeed)).length + 1
    "line " ++ Text.ofNat (before.count Text.lineFeed + 1) ++ ", column " ++ Text.ofNat column

/-- The table of a document. -/
def parse (stack : Stack) (document : Text) : Except Failure Fields :=
  let t := Text.joinPairs document
  (·.fields) <$> State.lines stack (t.length + 1) {} t

/-- The wording of a problem with its place in a document. -/
def Problem.messageAt (p : Problem) (document rest : Text) : Text :=
  p.message ++ " (at " ++ placeShown (Text.joinPairs document) rest ++ ")"

end SourceTidy.Toml
