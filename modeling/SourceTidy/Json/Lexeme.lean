import SourceTidy.Text.CodePoint

/-!
# Lexemes of JSON

Blanks, strings, numbers and words of JSON texts, each read from the head of a text. A reader gives what is left after
its lexeme or the failure, which holds the text from the place on where the reading stopped.
-/

namespace SourceTidy.Json

/-- The two containers. -/
inductive Container where
  | array
  | object
  deriving DecidableEq, Repr

/-- What the grammar asked for, or did not allow, where the reading stopped. -/
inductive Problem where
  | value
  | memberName
  | colon
  | comma
  | extraData
  | unterminatedString
  | controlCharacter
  | escape
  | unicodeEscape
  | byteOrderMark
  deriving DecidableEq, Repr

/-- Why a text is refused. -/
inductive Failure where
  /-- The grammar is broken at the head of this text. -/
  | broken (problem : Problem) (rest : Text)
  /-- A number that JSON does not know is named where a value is expected. -/
  | constant (name : Text)
  /-- An integer has too many digits to be taken in. -/
  | tooManyDigits (count : Nat)
  /-- A container is nested too deeply to be taken in. -/
  | tooDeep (container : Container)
  deriving DecidableEq, Repr

/-- The wording of a problem. -/
def Problem.message : Problem → String
  | value => "Expecting value"
  | memberName => "Expecting property name enclosed in double quotes"
  | colon => "Expecting ':' delimiter"
  | comma => "Expecting ',' delimiter"
  | extraData => "Extra data"
  | unterminatedString => "Unterminated string starting at"
  | controlCharacter => "Invalid control character at"
  | escape => "Invalid \\escape"
  | unicodeEscape => "Invalid \\uXXXX escape"
  | byteOrderMark => "Unexpected UTF-8 BOM (decode using utf-8-sig)"

/-- The name of a container in messages. -/
def Container.noun : Container → String
  | array => "array"
  | object => "object"

/-- A blank between lexemes. -/
def isBlank (c : CodePoint) : Bool := c == ' ' || c == '\t' || c == '\n' || c == '\r'

/-- A text from its first lexeme on. -/
def skipBlanks (t : Text) : Text := t.dropWhile isBlank

/-- The letters that make an escape after a backslash, U and its digits aside. -/
def isSimpleEscape (c : CodePoint) : Bool := (Text.ofString "\"\\/bfnrt").contains c

/-- Whether four hexadecimal digits, and something after them, stand at the head of a text. -/
def startsWithUnicode : Text → Bool
  | a :: b :: c :: d :: _ :: _ => a.isHexDigit && b.isHexDigit && c.isHexDigit && d.isHexDigit
  | _ => false

/-- What is left after a string, read behind its opening quote; `opening` is the text from that quote on. -/
def string (opening : Text) : Text → Except Failure Text
  | [] => .error (.broken .unterminatedString opening)
  | c :: rest =>
    if c = '"' then .ok rest
    else if c = '\\' then
      match rest with
      | [] => .error (.broken .unterminatedString opening)
      | d :: rest' =>
        if d = 'u' then
          if startsWithUnicode rest' then string opening rest' else .error (.broken .unicodeEscape (d :: rest'))
        else if isSimpleEscape d then string opening rest'
        else .error (.broken .escape (c :: d :: rest'))
    else if c.toNat < 0x20 then .error (.broken .controlCharacter (c :: rest))
    else string opening rest

/-- The digits of an integer part and what is left after them: a single zero, or digits without a zero in front. -/
def integerPart : Text → Option (Nat × Text)
  | [] => none
  | c :: rest =>
    if c = '0' then some (1, rest)
    else if c.within 0x31 0x39 then
      some ((rest.takeWhile CodePoint.isAsciiDigit).length + 1, rest.dropWhile CodePoint.isAsciiDigit)
    else none

/-- A text without the fraction at its head, if there is one. -/
def skipFraction : Text → Text
  | c :: d :: rest => if c = '.' ∧ d.isAsciiDigit then rest.dropWhile CodePoint.isAsciiDigit else c :: d :: rest
  | t => t

/-- A text without the sign at its head, if there is one. -/
def skipSign : Text → Text
  | c :: rest => if c = '+' ∨ c = '-' then rest else c :: rest
  | [] => []

/-- A text without the exponent at its head, if there is one. -/
def skipExponent : Text → Text
  | c :: rest =>
    if (c = 'e' ∨ c = 'E') ∧ (skipSign rest).head?.any CodePoint.isAsciiDigit then
      (skipSign rest).dropWhile CodePoint.isAsciiDigit
    else c :: rest
  | [] => []

/-- The most digits that an integer may have. -/
def maxDigits : Nat := 4300

/-- What is left after a number. -/
def number (t : Text) : Except Failure Text :=
  match integerPart (if t.head? = some (CodePoint.ofChar '-') then t.tail else t) with
  | none => .error (.broken .value t)
  | some (digits, afterInteger) =>
    let rest := skipExponent (skipFraction afterInteger)
    if rest.length = afterInteger.length ∧ maxDigits < digits then .error (.tooManyDigits digits) else .ok rest

/-- The words that are values. -/
def words : List Text := ["null", "true", "false"]

/-- The words that name numbers which JSON does not know. -/
def constants : List Text := ["NaN", "Infinity", "-Infinity"]

/-- What is left after a value that is no container. -/
def scalar : Text → Except Failure Text
  | [] => .error (.broken .value [])
  | c :: rest =>
    if c = '"' then string (c :: rest) rest
    else
      match words.findSome? fun w => Text.dropPrefix? (c :: rest) w with
      | some rest' => .ok rest'
      | none =>
        match constants.find? fun w => Text.startsWith (c :: rest) w with
        | some w => .error (.constant w)
        | none => number (c :: rest)

/-! ## Every reader takes something -/

theorem length_string_lt {opening t r : Text} (h : string opening t = .ok r) : r.length < t.length := by
  fun_induction string opening t with
  | case1 => simp at h
  | case2 => simp at h; simp [h]
  | case3 => simp at h
  | case4 _ _ _ ih => have := ih h; simp; omega
  | case5 => simp at h
  | case6 _ _ _ _ _ ih => have := ih h; simp; omega
  | case7 => simp at h
  | case8 => simp at h
  | case9 _ _ _ _ _ ih => have := ih h; simp; omega

theorem length_dropWhile_le (p : CodePoint → Bool) (t : Text) : (t.dropWhile p).length ≤ t.length :=
  (List.dropWhile_sublist p).length_le

theorem length_skipBlanks_le (t : Text) : (skipBlanks t).length ≤ t.length := length_dropWhile_le isBlank t

theorem length_lt_of_skipBlanks {t r : Text} {c : CodePoint} (h : skipBlanks t = c :: r) : r.length < t.length := by
  have := length_skipBlanks_le t
  rw [h] at this
  exact this

theorem length_integerPart_lt {t r : Text} {n : Nat} (h : integerPart t = some (n, r)) : r.length < t.length := by
  cases t with
  | nil => simp [integerPart] at h
  | cons c rest =>
    have hd := length_dropWhile_le CodePoint.isAsciiDigit rest
    simp only [integerPart] at h
    split at h
    · simp at h; simp [h.2]
    · split at h
      · simp at h; simp [← h.2]; omega
      · simp at h

theorem length_skipFraction_le (t : Text) : (skipFraction t).length ≤ t.length := by
  fun_cases skipFraction t with
  | case1 c d rest => have := length_dropWhile_le CodePoint.isAsciiDigit rest; simp; omega
  | case2 => simp
  | case3 => simp

theorem length_skipSign_le (t : Text) : (skipSign t).length ≤ t.length := by
  fun_cases skipSign t <;> simp

theorem length_skipExponent_le (t : Text) : (skipExponent t).length ≤ t.length := by
  fun_cases skipExponent t with
  | case1 c rest =>
    have := length_dropWhile_le CodePoint.isAsciiDigit (skipSign rest)
    have := length_skipSign_le rest
    simp; omega
  | case2 => simp
  | case3 => simp

theorem length_number_lt {t r : Text} (h : number t = .ok r) : r.length < t.length := by
  simp only [number] at h
  split at h
  · simp at h
  · next digits afterInteger hi =>
    split at h
    · simp at h
    · have h1 := length_integerPart_lt hi
      have h2 := length_skipFraction_le afterInteger
      have h3 := length_skipExponent_le (skipFraction afterInteger)
      simp at h
      split at h1 <;> simp_all <;> omega

theorem length_dropPrefix? {t p r : Text} (h : Text.dropPrefix? t p = some r) : r.length + p.length = t.length := by
  fun_induction Text.dropPrefix? t p with
  | case1 => simp_all
  | case2 => simp at h
  | case3 _ _ _ ih => have := ih h; simp; omega
  | case4 => simp at h

theorem length_scalar_lt {t r : Text} (h : scalar t = .ok r) : r.length < t.length := by
  cases t with
  | nil => simp [scalar] at h
  | cons c rest =>
    simp only [scalar] at h
    split at h
    · have := length_string_lt h; simp; omega
    · split at h
      · next rest' hw =>
        obtain ⟨w, hw, hp⟩ := List.exists_of_findSome?_eq_some hw
        have := length_dropPrefix? hp
        simp only [Except.ok.injEq] at h
        have : 0 < w.length := by
          simp only [words, List.mem_cons, List.not_mem_nil, or_false] at hw
          rcases hw with rfl | rfl | rfl <;> decide
        subst h
        omega
      · split at h
        · simp at h
        · exact length_number_lt h

end SourceTidy.Json
