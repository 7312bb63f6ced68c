import SourceStamp.Text.Escape
import SourceStamp.Text.Numeral

/-!
# Encodings

How the bytes of a file stand for a text.

- `Encoding.decode`: the text of some bytes, or why they stand for none.
- `Encoding.encode?`: the bytes of a text, if the encoding has all of its characters.
- `UndecodableBytes.message`: the wording of the error.

UTF-8 is read byte by byte. The first byte of a character tells how many bytes follow it and between
which bounds the second one lies; the bounds leave out overlong forms, surrogates, and everything
above the last code point.
-/

namespace SourceStamp

/-- The content of a file. -/
abbrev Bytes := List UInt8

/-- How bytes stand for a text. -/
inductive Encoding where
  /-- UTF-8. -/
  | utf8
  /-- UTF-8 behind a byte order mark. -/
  | utf8Marked
  /-- One byte for each of the first 256 characters. -/
  | latin1
  deriving DecidableEq, Repr

/-- What is wrong with bytes that stand for no text. -/
inductive DecodingFault where
  /-- No character starts with the byte. -/
  | startByte
  /-- The byte after these does not go on with the character. -/
  | continuationByte
  /-- The bytes end inside a character. -/
  | endOfData
  deriving DecidableEq, Repr

/-- Bytes of a file that stand for no character. -/
structure UndecodableBytes where
  /-- The offset of the first of them. -/
  position : Nat
  /-- The bytes; there is at least one. -/
  bytes : Bytes
  /-- What is wrong with them. -/
  fault : DecodingFault
  deriving DecidableEq, Repr

/-- How a fault reads. -/
def DecodingFault.reason : DecodingFault → Text
  | startByte => "invalid start byte".toList
  | continuationByte => "invalid continuation byte".toList
  | endOfData => "unexpected end of data".toList

namespace UndecodableBytes

/-- The bytes at fault and where they stand. -/
def place (e : UndecodableBytes) : Text :=
  match e.bytes with
  | [b] =>
    "byte 0x".toList ++ Text.hexDigits 2 b.toNat ++ " in position ".toList ++ Text.ofNat e.position
  | bytes =>
    "bytes in position ".toList ++ Text.ofNat e.position ++ "-".toList ++
      Text.ofNat (e.position + bytes.length - 1)

/-- The wording of the error. -/
def message (e : UndecodableBytes) : Text :=
  "'utf-8' codec can't decode ".toList ++ e.place ++ ": ".toList ++ e.fault.reason

end UndecodableBytes

namespace Encoding

/-- A character that has begun: what has been read of it and what must follow. -/
structure Begun where
  /-- Its bytes so far. -/
  taken : Bytes
  /-- The bits that they hold. -/
  bits : Nat
  /-- How many bytes are missing. -/
  missing : Nat
  /-- The least next byte. -/
  low : Nat
  /-- The greatest next byte. -/
  high : Nat
  deriving DecidableEq, Repr

/-- The least continuation byte. -/
def continuationLow : Nat := 0x80

/-- The greatest continuation byte. -/
def continuationHigh : Nat := 0xBF

/-- The character that a byte begins, if one does. A byte below 0x80 is a character of its own, with
no byte missing. -/
def begin? (b : UInt8) : Option Begun :=
  let n := b.toNat
  if n < 0x80 then some ⟨[b], n, 0, continuationLow, continuationHigh⟩
  -- continuation bytes, and lead bytes of overlong forms only
  else if n < 0xC2 then none
  else if n < 0xE0 then some ⟨[b], n - 0xC0, 1, continuationLow, continuationHigh⟩
  -- 0xE0 leaves out overlong forms, 0xED surrogates
  else if n < 0xF0 then
    some ⟨[b], n - 0xE0, 2, if n = 0xE0 then 0xA0 else continuationLow,
      if n = 0xED then 0x9F else continuationHigh⟩
  -- 0xF0 leaves out overlong forms, 0xF4 what lies above the last code point
  else if n < 0xF5 then
    some ⟨[b], n - 0xF0, 3, if n = 0xF0 then 0x90 else continuationLow,
      if n = 0xF4 then 0x8F else continuationHigh⟩
  else none

/-- The character with one more byte. -/
def Begun.extend (g : Begun) (b : UInt8) : Begun :=
  ⟨g.taken ++ [b], 64 * g.bits + (b.toNat - 0x80), g.missing - 1, continuationLow,
    continuationHigh⟩

/-- The text of UTF-8 bytes from an offset on, where perhaps a character has begun that starts at
the offset. -/
def decodeFrom (position : Nat) : Option Begun → Bytes → Except UndecodableBytes Text
  | none, [] => .ok []
  | some g, [] => .error ⟨position, g.taken, .endOfData⟩
  | none, b :: rest =>
    match begin? b with
    | none => .error ⟨position, [b], .startByte⟩
    | some g =>
      if g.missing = 0 then
        (decodeFrom (position + 1) none rest).map (Char.ofNat g.bits :: ·)
      else decodeFrom position (some g) rest
  | some g, b :: rest =>
    if g.low ≤ b.toNat ∧ b.toNat ≤ g.high then
      let g := g.extend b
      if g.missing = 0 then
        (decodeFrom (position + g.taken.length) none rest).map (Char.ofNat g.bits :: ·)
      else decodeFrom position (some g) rest
    -- the byte itself is not at fault: it may begin a character of its own
    else .error ⟨position, g.taken, .continuationByte⟩

/-- The byte order mark. -/
def mark : Bytes := [0xEF, 0xBB, 0xBF]

/-- The bytes after the mark, if they start with it. Bytes that are no more than the start of a mark
hold no text. -/
def withoutMark (bytes : Bytes) : Bytes :=
  if mark.isPrefixOf bytes then bytes.drop mark.length
  else if bytes.isPrefixOf mark then []
  else bytes

/-- The text of some bytes. Offsets in errors count from the byte after a mark. -/
def decode : Encoding → Bytes → Except UndecodableBytes Text
  | utf8, bytes => decodeFrom 0 none bytes
  | utf8Marked, bytes => decodeFrom 0 none (withoutMark bytes)
  | latin1, bytes => .ok (bytes.map fun b => Char.ofNat b.toNat)

/-- The bytes of a text in UTF-8. -/
def utf8Bytes (t : Text) : Bytes := t.flatMap String.utf8EncodeChar

/-- The bytes of a text, if the encoding has all of its characters. -/
def encode? : Encoding → Text → Option Bytes
  | utf8, t => some (utf8Bytes t)
  | utf8Marked, t => some (mark ++ utf8Bytes t)
  | latin1, t => t.mapM fun c => if c.toNat < 256 then some (UInt8.ofNat c.toNat) else none

end Encoding
end SourceStamp
