import SourceTidy.Text.Quoted

/-!
# UTF-8 that loses no byte

`decode` reads any byte sequence: the well-formed sequences of the standard become their scalar values, and every other
byte `b` becomes the surrogate `0xDC00 + b` on its own. `encode` writes a text back and refuses exactly the surrogates
that stand for no byte. `decodeStrict` is for documents that have to be valid: it names the first malformed part.
-/

namespace SourceTidy

/-- The bytes of a file. -/
abbrev Bytes := List UInt8

namespace Utf8

/-- Why a byte sequence is malformed. -/
inductive Malformed where
  /-- The byte cannot start a sequence. -/
  | start
  /-- A byte that had to continue a sequence does not. -/
  | continuation
  /-- The bytes end inside a sequence. -/
  | truncated
  deriving DecidableEq, Repr

/-- What stands at the head of some bytes: a scalar value and how many bytes it takes after its first, or a malformed
part, of which `extra` bytes follow the first. -/
inductive Head where
  | scalar (c : CodePoint) (extra : Nat)
  | malformed (reason : Malformed) (extra : Nat)
  deriving DecidableEq, Repr

/-- Whether a byte has the form of a continuation. -/
def isTail (b : UInt8) : Bool := decide (0x80 ≤ b.toNat ∧ b.toNat ≤ 0xBF)

/-- Whether a second byte may follow a first byte: the first bytes `E0`, `ED`, `F0` and `F4` narrow the range, which
keeps out overlong forms, surrogates and values that are too large. -/
def isSecond (a b : UInt8) : Bool :=
  isTail b && !(a == 0xE0 && b < 0xA0) && !(a == 0xED && 0xA0 ≤ b) && !(a == 0xF0 && b < 0x90) && !(a == 0xF4 && 0x90 ≤ b)

/-- The six bits that a continuation byte carries. -/
def tailBits (b : UInt8) : Nat := b.toNat % 0x40

/-- How many bytes follow a first byte, or none when the byte can start no sequence. -/
def extraOf (a : UInt8) : Option Nat :=
  if a < 0x80 then some 0
  else if a < 0xC2 then none
  else if a < 0xE0 then some 1
  else if a < 0xF0 then some 2
  else if a < 0xF5 then some 3
  else none

/-- The head of the bytes `a :: rest`. -/
def head (a : UInt8) (rest : Bytes) : Head :=
  match extraOf a with
  | none => .malformed .start 0
  | some 0 => .scalar (.ofNat a.toNat) 0
  | some 1 =>
    match rest with
    | [] => .malformed .truncated 0
    | b :: _ =>
      if isTail b then .scalar (.ofNat (a.toNat % 0x20 * 0x40 + tailBits b)) 1 else .malformed .continuation 0
  | some 2 =>
    match rest with
    | [] => .malformed .truncated 0
    | [b] => if isSecond a b then .malformed .truncated 1 else .malformed .continuation 0
    | b :: c :: _ =>
      if !isSecond a b then .malformed .continuation 0
      else if !isTail c then .malformed .continuation 1
      else .scalar (.ofNat (a.toNat % 0x10 * 0x1000 + tailBits b * 0x40 + tailBits c)) 2
  | some _ =>
    match rest with
    | [] => .malformed .truncated 0
    | [b] => if isSecond a b then .malformed .truncated 1 else .malformed .continuation 0
    | [b, c] =>
      if !isSecond a b then .malformed .continuation 0
      else if !isTail c then .malformed .continuation 1
      else .malformed .truncated 2
    | b :: c :: d :: _ =>
      if !isSecond a b then .malformed .continuation 0
      else if !isTail c then .malformed .continuation 1
      else if !isTail d then .malformed .continuation 2
      else .scalar (.ofNat (a.toNat % 8 * 0x40000 + tailBits b * 0x1000 + tailBits c * 0x40 + tailBits d)) 3

/-- The surrogate that stands for a byte of no sequence. -/
def escape (b : UInt8) : CodePoint := .ofNat (0xDC00 + b.toNat)

/-- The text of the bytes that are left after passing over a number of them. -/
def decodeAfter : Nat → Bytes → Text
  | _, [] => []
  | n + 1, _ :: rest => decodeAfter n rest
  | 0, a :: rest =>
    match head a rest with
    | .scalar c extra => c :: decodeAfter extra rest
    | .malformed _ _ => escape a :: decodeAfter 0 rest

/-- The text of any bytes. -/
def decode (bytes : Bytes) : Text := decodeAfter 0 bytes

/-- The part of some bytes that is not UTF-8. -/
structure DecodeError where
  /-- Where the part starts. -/
  start : Nat
  /-- The byte there. -/
  byte : UInt8
  /-- How many bytes follow it in the part. -/
  extra : Nat
  reason : Malformed
  deriving DecidableEq, Repr

/-- What is wrong with a malformed part. -/
def Malformed.message : Malformed → String
  | start => "invalid start byte"
  | continuation => "invalid continuation byte"
  | truncated => "unexpected end of data"

/-- The wording of a failed reading. -/
def DecodeError.message (e : DecodeError) : Text :=
  let part : Text :=
    if e.extra = 0 then
      "byte 0x" ++ Text.hexDigits 2 e.byte.toNat ++ " in position " ++ Text.ofNat e.start
    else "bytes in position " ++ Text.ofNat e.start ++ "-" ++ Text.ofNat (e.start + e.extra)
  "'utf-8' codec can't decode " ++ part ++ ": " ++ Text.ofString e.reason.message

/-- Strict reading: as `decodeAfter`, with the number of bytes already read, up to the first malformed part. -/
def decodeStrictAfter : Nat → Nat → Bytes → Except DecodeError Text
  | _, _, [] => .ok []
  | n + 1, at_, _ :: rest => decodeStrictAfter n (at_ + 1) rest
  | 0, at_, a :: rest =>
    match head a rest with
    | .scalar c extra => (c :: ·) <$> decodeStrictAfter extra (at_ + 1) rest
    | .malformed reason extra => .error ⟨at_, a, extra, reason⟩

/-- The text of bytes that have to be valid UTF-8. -/
def decodeStrict (bytes : Bytes) : Except DecodeError Text := decodeStrictAfter 0 0 bytes

/-- Whether a code point has bytes: every scalar value, and the surrogates that stand for a byte of no sequence. -/
def isEncodable (c : CodePoint) : Bool := !c.isSurrogate || c.within 0xDC80 0xDCFF

/-- The bytes of an encodable code point. -/
def bytesOf (c : CodePoint) : Bytes :=
  let n := c.toNat
  if n < 0x80 then [UInt8.ofNat n]
  else if n < 0x800 then [UInt8.ofNat (0xC0 + n / 0x40), UInt8.ofNat (0x80 + n % 0x40)]
  else if c.isSurrogate then [UInt8.ofNat (n - 0xDC00)]
  else if n < 0x10000 then
    [UInt8.ofNat (0xE0 + n / 0x1000), UInt8.ofNat (0x80 + n / 0x40 % 0x40), UInt8.ofNat (0x80 + n % 0x40)]
  else
    [UInt8.ofNat (0xF0 + n / 0x40000), UInt8.ofNat (0x80 + n / 0x1000 % 0x40), UInt8.ofNat (0x80 + n / 0x40 % 0x40),
      UInt8.ofNat (0x80 + n % 0x40)]

/-- The number of bytes of the form of a text. -/
def size (t : Text) : Nat := (t.flatMap bytesOf).length

/-- The part of a text that has no bytes: its first code point that is not encodable, and the surrogates after it. -/
structure EncodeError where
  /-- Where the part starts. -/
  start : Nat
  /-- The code point there. -/
  first : CodePoint
  /-- How many code points follow it in the part. -/
  extra : Nat
  deriving DecidableEq, Repr

/-- The wording of a failed writing. -/
def EncodeError.message (e : EncodeError) : Text :=
  let part : Text :=
    if e.extra = 0 then "character '" ++ Text.spelled e.first ++ "' in position " ++ Text.ofNat e.start
    else "characters in position " ++ Text.ofNat e.start ++ "-" ++ Text.ofNat (e.start + e.extra)
  "'utf-8' codec can't encode " ++ part ++ ": surrogates not allowed"

/-- The bytes of a text, or the part that has none. -/
def encode (t : Text) : Except EncodeError Bytes :=
  match t.dropWhile isEncodable with
  | [] => .ok (t.flatMap bytesOf)
  | c :: rest => .error ⟨t.length - (rest.length + 1), c, (rest.takeWhile CodePoint.isSurrogate).length⟩

/-- The first part of a text that strict UTF-8 has no bytes for: its first surrogates. -/
def surrogates? (t : Text) : Option EncodeError :=
  match t.dropWhile (!·.isSurrogate) with
  | [] => none
  | c :: rest => some ⟨t.length - (rest.length + 1), c, (rest.takeWhile CodePoint.isSurrogate).length⟩

end Utf8
end SourceTidy
