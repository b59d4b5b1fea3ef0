import SuperChip.Text.Hex

/-!
# Characters from bytes

A text is stored as UTF-8: a first byte tells how many bytes follow and what the next one may be.
The bytes of a text are taken one by one; where they can begin no character, the refusal tells
which bytes were in the way, counted from zero.
-/

set_option autoImplicit false

namespace SuperChip.Text

/-- Why bytes are no text. -/
inductive Utf8Cause where
  /-- No character begins with the byte. -/
  | firstByte
  /-- The byte after these continues no character that they begin. -/
  | nextByte
  /-- The bytes end within a character. -/
  | tooShort
  deriving DecidableEq, Repr

/-- The wording of each cause. -/
def Utf8Cause.message : Utf8Cause → String
  | .firstByte => "invalid start byte"
  | .nextByte => "invalid continuation byte"
  | .tooShort => "unexpected end of data"

/-- A stretch of bytes that is no character. -/
structure Utf8Error where
  cause : Utf8Cause
  /-- Its first byte. -/
  first : UInt8
  /-- Its place. -/
  start : Nat
  /-- The number of its bytes, at least one. -/
  length : Nat
  deriving DecidableEq, Repr

/-- The wording of a refusal: one byte is shown, of more the places are told. -/
def Utf8Error.message (e : Utf8Error) : String :=
  let what :=
    if e.length = 1 then s!"byte 0x{hexByte e.first} in position {e.start}"
    else s!"bytes in position {e.start}-{e.start + e.length - 1}"
  "'utf-8' codec can't decode " ++ what ++ ": " ++ e.cause.message

/-- The bytes that may stand at a place, from the least to the greatest. -/
structure ByteRange where
  least : Nat
  greatest : Nat
  deriving DecidableEq, Repr

/-- Whether a byte is in a range. -/
def ByteRange.holds (r : ByteRange) (b : UInt8) : Bool :=
  r.least ≤ b.toNat && b.toNat ≤ r.greatest

/-- What most bytes after the first one are. -/
def continuation : ByteRange := ⟨0x80, 0xBF⟩

/-- A character of which bytes are still to come. -/
structure PartialChar where
  first : UInt8
  /-- The number of bytes taken. -/
  length : Nat
  /-- The bits taken. -/
  code : Nat
  /-- What may come, in order. -/
  expected : List ByteRange
  deriving Repr

/-- The character that a byte begins. The second byte is bounded so that a character is neither
written longer than it must be, nor beyond the code points, nor half of a pair. -/
def PartialChar.ofFirst? (b : UInt8) : Option PartialChar :=
  let n := b.toNat
  let begun := fun (bits : Nat) expected => some ⟨b, 1, n % bits, expected⟩
  if n < 0x80 then begun 0x80 []
  else if n < 0xC2 then none
  else if n < 0xE0 then begun 0x20 [continuation]
  else if n = 0xE0 then begun 0x10 [⟨0xA0, 0xBF⟩, continuation]
  else if n = 0xED then begun 0x10 [⟨0x80, 0x9F⟩, continuation]
  else if n < 0xF0 then begun 0x10 [continuation, continuation]
  else if n = 0xF0 then begun 0x08 [⟨0x90, 0xBF⟩, continuation, continuation]
  else if n < 0xF4 then begun 0x08 [continuation, continuation, continuation]
  else if n = 0xF4 then begun 0x08 [⟨0x80, 0x8F⟩, continuation, continuation]
  else none

/-- The characters of the bytes from `position` on, after those `done`, given backwards; of `begun`
bytes are still to come. -/
def decodeFrom (position : Nat) (done : List Char) (begun : Option PartialChar) :
    List UInt8 → Except Utf8Error (List Char)
  | [] =>
    match begun with
    | none => .ok done.reverse
    | some p => .error ⟨.tooShort, p.first, position - p.length, p.length⟩
  | b :: rest =>
    match begun with
    | none =>
      match PartialChar.ofFirst? b with
      | none => .error ⟨.firstByte, b, position, 1⟩
      | some p =>
        if p.expected.isEmpty then decodeFrom (position + 1) (Char.ofNat p.code :: done) none rest
        else decodeFrom (position + 1) done (some p) rest
    | some p =>
      match p.expected with
      | [] => .error ⟨.nextByte, p.first, position - p.length, p.length⟩
      | range :: more =>
        let code := 0x40 * p.code + b.toNat % 0x40
        if !range.holds b then .error ⟨.nextByte, p.first, position - p.length, p.length⟩
        else if more.isEmpty then decodeFrom (position + 1) (Char.ofNat code :: done) none rest
        else decodeFrom (position + 1) done (some ⟨p.first, p.length + 1, code, more⟩) rest

/-- The text that bytes store. -/
def ofUtf8 (bytes : List UInt8) : Except Utf8Error String :=
  (decodeFrom 0 [] none bytes).map String.ofList

end SuperChip.Text
