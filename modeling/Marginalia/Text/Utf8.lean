import Marginalia.Text.Chars

/-! # Text from bytes

Program text is read leniently: each longest run of bytes that starts a character but does not
finish it becomes one replacement character. Option files are read strictly. Line ends of every
kind become the newline.
-/
namespace Marginalia.Text

/-- The sign that stands for bytes that are no character. -/
def replacementChar : Char := Char.ofNat 0xfffd

/-- Where the byte after a leading byte may lie, and how many more follow it. -/
def leadRange? (b : UInt8) : Option (UInt8 × UInt8 × Nat) :=
  if 0xc2 ≤ b && b ≤ 0xdf then some (0x80, 0xbf, 0)
  else if b == 0xe0 then some (0xa0, 0xbf, 1)
  else if b == 0xed then some (0x80, 0x9f, 1)
  else if 0xe1 ≤ b && b ≤ 0xef then some (0x80, 0xbf, 1)
  else if b == 0xf0 then some (0x90, 0xbf, 2)
  else if 0xf1 ≤ b && b ≤ 0xf3 then some (0x80, 0xbf, 2)
  else if b == 0xf4 then some (0x80, 0x8f, 2)
  else none

def leadBits (b : UInt8) : Nat :=
  if b < 0xe0 then b.toNat % 0x20 else if b < 0xf0 then b.toNat % 0x10 else b.toNat % 0x08

/-- A character in the making: the bits so far, the range of the next byte, the bytes after it. -/
structure Partial where
  bits : Nat
  low : UInt8
  high : UInt8
  more : Nat

/-- Reads bytes leniently, with a character in the making. -/
def decodeFrom : Option Partial → List UInt8 → List Char
  | none, [] => []
  | some _, [] => [replacementChar]
  | none, b :: bs => decodeStart b bs
  | some p, b :: bs =>
    if p.low ≤ b && b ≤ p.high then
      let bits := p.bits * 64 + b.toNat % 64
      match p.more with
      | 0 => Char.ofNat bits :: decodeFrom none bs
      | more + 1 => decodeFrom (some ⟨bits, 0x80, 0xbf, more⟩) bs
    else replacementChar :: decodeStart b bs
where
  /-- Reads a byte that starts a character. -/
  decodeStart (b : UInt8) (bs : List UInt8) : List Char :=
    if b < 0x80 then Char.ofNat b.toNat :: decodeFrom none bs
    else match leadRange? b with
      | some (low, high, more) => decodeFrom (some ⟨leadBits b, low, high, more⟩) bs
      | none => replacementChar :: decodeFrom none bs

def foldNewlines : List Char → List Char
  | [] => []
  | '\r' :: '\n' :: s => '\n' :: foldNewlines s
  | c :: s => (if c = '\r' then '\n' else c) :: foldNewlines s

/-- The text of a source file. -/
def decodeLenient (b : ByteArray) : List Char :=
  foldNewlines (decodeFrom none b.toList)

/-- The text of an option file or a template; `none` when the bytes are no text. -/
def decodeStrict? (b : ByteArray) : Option (List Char) :=
  (String.fromUTF8? b).map fun s => foldNewlines s.toList

def encode (s : List Char) : ByteArray :=
  (String.ofList s).toUTF8

end Marginalia.Text
