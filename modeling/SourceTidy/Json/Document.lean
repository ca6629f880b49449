import SourceTidy.Json.Lexeme

/-!
# JSON documents

`check` decides whether a text is a JSON document: one value between blanks. It walks the text once and keeps the
containers that are still open; where it stops, the failure holds the rest of the text. How many may be open at once depends
on the reader: there is a number that `check` goes by, and `checkWithin` takes any.
-/

namespace SourceTidy.Json

/-- The byte order mark, which may not start a document. -/
def byteOrderMark : CodePoint := .ofNat 0xFEFF

mutual

/-- Reads on at a value, inside the containers that are open. There may be as many as the depth says. -/
def readValue (depth : Nat) (opened : List Container) (t : Text) : Except Failure Unit :=
  match t with
  | [] => .error (.broken .value [])
  | c :: rest =>
    if c = '[' then
      if depth ≤ opened.length then .error (.tooDeep .array)
      else
        match _h : skipBlanks rest with
        | [] => .error (.broken .value [])
        | d :: rest' => if d = ']' then readAfter depth opened rest' else readValue depth (.array :: opened) (d :: rest')
    else if c = '\x7b' then
      if depth ≤ opened.length then .error (.tooDeep .object)
      else
        match _h : skipBlanks rest with
        | [] => .error (.broken .memberName [])
        | d :: rest' => if d = '\x7d' then readAfter depth opened rest' else readMember depth (.object :: opened) (d :: rest')
    else
      match _h : scalar (c :: rest) with
      | .error e => .error e
      | .ok rest' => readAfter depth opened rest'
termination_by t.length
decreasing_by
  · exact Nat.lt_succ_of_lt (length_lt_of_skipBlanks _h)
  · exact Nat.succ_lt_succ (length_lt_of_skipBlanks _h)
  · exact Nat.lt_succ_of_lt (length_lt_of_skipBlanks _h)
  · exact Nat.succ_lt_succ (length_lt_of_skipBlanks _h)
  · exact length_scalar_lt _h

/-- Reads on at the name of a member. -/
def readMember (depth : Nat) (opened : List Container) (t : Text) : Except Failure Unit :=
  match t with
  | [] => .error (.broken .memberName [])
  | c :: rest =>
    if c = '"' then
      match _h : string (c :: rest) rest with
      | .error e => .error e
      | .ok afterName =>
        match _h₂ : skipBlanks afterName with
        | [] => .error (.broken .colon [])
        | d :: rest' =>
          if d = ':' then readValue depth opened (skipBlanks rest') else .error (.broken .colon (d :: rest'))
    else .error (.broken .memberName (c :: rest))
termination_by t.length
decreasing_by
  have h := Nat.lt_of_le_of_lt (length_skipBlanks_le rest') (length_lt_of_skipBlanks _h₂)
  exact Nat.lt_trans h (Nat.lt_succ_of_lt (length_string_lt _h))

/-- Reads on after a value. -/
def readAfter (depth : Nat) (opened : List Container) (t : Text) : Except Failure Unit :=
  match opened, _h : skipBlanks t with
  | [], [] => .ok ()
  | [], c :: rest => .error (.broken .extraData (c :: rest))
  | _ :: _, [] => .error (.broken .comma [])
  | .array :: below, c :: rest =>
    if c = ']' then readAfter depth below rest
    else if c = ',' then readValue depth (.array :: below) (skipBlanks rest)
    else .error (.broken .comma (c :: rest))
  | .object :: below, c :: rest =>
    if c = '\x7d' then readAfter depth below rest
    else if c = ',' then readMember depth (.object :: below) (skipBlanks rest)
    else .error (.broken .comma (c :: rest))
termination_by t.length
decreasing_by
  · exact length_lt_of_skipBlanks _h
  · exact Nat.lt_of_le_of_lt (length_skipBlanks_le rest) (length_lt_of_skipBlanks _h)
  · exact length_lt_of_skipBlanks _h
  · exact Nat.lt_of_le_of_lt (length_skipBlanks_le rest) (length_lt_of_skipBlanks _h)

end

/-- Whether a text is a JSON document, for a reader with room for a number of open containers. -/
def checkWithin (depth : Nat) (t : Text) : Except Failure Unit :=
  if t.head? = some byteOrderMark then .error (.broken .byteOrderMark t) else readValue depth [] (skipBlanks t)

/-- How many containers may be open at once. -/
def maxDepth : Nat := 990

/-- Whether a text is a JSON document. -/
def check (t : Text) : Except Failure Unit := checkWithin maxDepth t

/-- The offset of what is left of a text. -/
def offsetOf (t rest : Text) : Nat := t.length - rest.length

end SourceTidy.Json
