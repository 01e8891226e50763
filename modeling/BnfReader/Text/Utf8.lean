import BnfReader.Text.Hex

/-! Texts as bytes, in UTF-8.

Reading is strict. At the first byte that cannot continue any text it stops, and says which
bytes are wrong: the byte that began a character together with those that rightly followed
it. -/
namespace BnfReader.Text

/-- A row of bytes. -/
abbrev Bytes := List UInt8

/-- The bytes of a text. -/
def encode (s : String) : Bytes := s.toList.flatMap String.utf8EncodeChar

/-- Why bytes are no text. -/
inductive Misencoding where
  | startByte
  | continuationByte
  | endOfData
deriving DecidableEq

/-- The words for the reason. -/
def Misencoding.text : Misencoding → String
  | .startByte => "invalid start byte"
  | .continuationByte => "invalid continuation byte"
  | .endOfData => "unexpected end of data"

/-- Where the first wrong bytes are: `extra` more behind `first`, which is at `position`. -/
structure DecodeError where
  first : UInt8
  position : Nat
  extra : Nat
  reason : Misencoding
deriving DecidableEq

/-- The wording of an error. -/
def DecodeError.message (e : DecodeError) : String :=
  "'utf-8' codec can't decode " ++
    (if e.extra = 0 then
      "byte 0x" ++ String.ofList (Hex.padded 2 e.first.toNat) ++ " in position " ++
        toString e.position
    else
      "bytes in position " ++ toString e.position ++ "-" ++ toString (e.position + e.extra)) ++
    ": " ++ e.reason.text

/-- How a character of several bytes begins: its topmost bits, the number of bytes to
follow, and the range of the first of them. -/
structure Lead where
  bits : Nat
  following : Nat
  low : UInt8
  high : UInt8

/-- What a first byte above ASCII says; `none` for one that begins no character. The narrower
ranges keep out longer forms than needed, surrogates and numbers that are no code points. -/
def lead? (b : UInt8) : Option Lead :=
  if b < 0xC2 then none
  else if b < 0xE0 then some ⟨b.toNat - 0xC0, 1, 0x80, 0xBF⟩
  else if b < 0xF0 then
    some ⟨b.toNat - 0xE0, 2, if b = 0xE0 then 0xA0 else 0x80, if b = 0xED then 0x9F else 0xBF⟩
  else if b < 0xF5 then
    some ⟨b.toNat - 0xF0, 3, if b = 0xF0 then 0x90 else 0x80, if b = 0xF4 then 0x8F else 0xBF⟩
  else none

/-- Six more bits. -/
def shiftIn (bits : Nat) (b : UInt8) : Nat := bits * 64 + (b.toNat - 0x80)

/-- A character in the middle: how many bytes of it were read, the bits so far, how many are
to follow, and the range of the next. -/
structure Partial where
  first : UInt8
  read : Nat
  bits : Nat
  following : Nat
  low : UInt8
  high : UInt8

/-- The error at a character in the middle, at the position of its next byte. -/
def Partial.error (p : Partial) (position : Nat) (reason : Misencoding) : DecodeError :=
  ⟨p.first, position - p.read, p.read - 1, reason⟩

/-- The characters of the bytes from a position on, behind those `seen`, last first, and
perhaps in the middle of one. -/
def decodeFrom (position : Nat) (seen : List Char) (pending : Option Partial) :
    Bytes → Except DecodeError (List Char)
  | [] =>
    match pending with
    | none => .ok seen.reverse
    | some p => .error (p.error position .endOfData)
  | b :: rest =>
    match pending with
    | none =>
      if b < 0x80 then decodeFrom (position + 1) (Char.ofNat b.toNat :: seen) none rest
      else
        match lead? b with
        | none => .error ⟨b, position, 0, .startByte⟩
        | some l =>
          decodeFrom (position + 1) seen (some ⟨b, 1, l.bits, l.following, l.low, l.high⟩) rest
    | some p =>
      if b < p.low ∨ p.high < b then .error (p.error position .continuationByte)
      else if p.following = 1 then
        decodeFrom (position + 1) (Char.ofNat (shiftIn p.bits b) :: seen) none rest
      else
        decodeFrom (position + 1) seen
          (some ⟨p.first, p.read + 1, shiftIn p.bits b, p.following - 1, 0x80, 0xBF⟩) rest

/-- The text of bytes. -/
def decode (bytes : Bytes) : Except DecodeError String :=
  (decodeFrom 0 [] none bytes).map String.ofList

end BnfReader.Text
