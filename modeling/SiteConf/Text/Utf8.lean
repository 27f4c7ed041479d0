set_option autoImplicit false

/-! # Text as bytes

Characters are written as one to four bytes. Reading goes byte by byte: what has been read of a
character says which bytes may come next. Bytes that cannot start or continue a character are
invalid; a run of them up to the point where it goes wrong counts as one invalid piece. -/

namespace SiteConf.Text

def bytes (text : String) : List UInt8 :=
  text.toUTF8.toList

/-- A character that has been read in part: how many bytes are to come, in what range the next one
has to be, and the value so far. -/
structure Partial where
  more : Nat
  low : Nat
  high : Nat
  value : Nat
  deriving DecidableEq, Repr

/-- What the first byte of a character says. -/
inductive Lead where
  | char (c : Char)
  | part (p : Partial)
  | invalid
  deriving DecidableEq, Repr

/-- Reads a byte where a character starts. The second byte is limited so that no character has two
spellings, none is a half of another, and none lies beyond the last one. -/
def lead (b : Nat) : Lead :=
  if b < 0x80 then .char (Char.ofNat b)
  else if b < 0xc2 then .invalid
  else if b < 0xe0 then .part ⟨1, 0x80, 0xbf, b - 0xc0⟩
  else if b = 0xe0 then .part ⟨2, 0xa0, 0xbf, 0⟩
  else if b = 0xed then .part ⟨2, 0x80, 0x9f, 0xd⟩
  else if b < 0xf0 then .part ⟨2, 0x80, 0xbf, b - 0xe0⟩
  else if b = 0xf0 then .part ⟨3, 0x90, 0xbf, 0⟩
  else if b < 0xf4 then .part ⟨3, 0x80, 0xbf, b - 0xf0⟩
  else if b = 0xf4 then .part ⟨3, 0x80, 0x8f, 4⟩
  else .invalid

/-- Reads a byte that continues a character, if it can. -/
def Partial.next? (p : Partial) (b : Nat) : Option Lead :=
  if p.low ≤ b ∧ b ≤ p.high then
    let value := 64 * p.value + (b - 0x80)
    if p.more ≤ 1 then some (.char (Char.ofNat value))
    else some (.part ⟨p.more - 1, 0x80, 0xbf, value⟩)
  else none

/-- The characters of a list of bytes, none for every invalid piece; `before` is the character
that has been read in part. -/
def decodeFrom : (before : Option Partial) → List UInt8 → List (Option Char)
  | none, [] => []
  | some _, [] => [none]
  | none, b :: rest =>
      match lead b.toNat with
      | .char c => some c :: decodeFrom none rest
      | .part p => decodeFrom (some p) rest
      | .invalid => none :: decodeFrom none rest
  | some p, b :: rest =>
      match p.next? b.toNat with
      | some (.char c) => some c :: decodeFrom none rest
      | some (.part q) => decodeFrom (some q) rest
      | some .invalid => none :: decodeFrom none rest
      | none =>
          none ::
            match lead b.toNat with
            | .char c => some c :: decodeFrom none rest
            | .part q => decodeFrom (some q) rest
            | .invalid => none :: decodeFrom none rest

/-- The text of a list of bytes, if all of it is valid. -/
def ofBytes? (bs : List UInt8) : Option String :=
  ((decodeFrom none bs).mapM id).map String.ofList

/-- The text of a list of bytes, with a replacement character for every invalid piece. -/
def ofBytesLossy (bs : List UInt8) : String :=
  String.ofList ((decodeFrom none bs).map fun c => c.getD (Char.ofNat 0xfffd))

end SiteConf.Text
