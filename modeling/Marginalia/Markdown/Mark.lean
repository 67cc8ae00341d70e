import Marginalia.Pattern

/-! # Marks

What is finished early is kept aside, and a mark stands for it in the text. Marks are written between
two control characters that are taken out of all prose first, so no prose can hold a mark.
-/
namespace Marginalia.Markdown

open Text

def markStart : Char := Char.ofNat 2

def markEnd : Char := Char.ofNat 3

def mark (body : List Char) : List Char :=
  markStart :: body ++ [markEnd]

def charMark (c : Char) : List Char :=
  mark (natText c.toNat)

/-- The mark of an ampersand that stays as it is. -/
def ampMark : List Char :=
  mark "amp".toList

def rawWord : List Char := "wzxhzdk:".toList

def spanWord : List Char := "klzzwxh:".toList

def rawMark (n : Nat) : List Char :=
  mark (rawWord ++ natText n)

def spanMark (n : Nat) : List Char :=
  let digits := natText n
  mark (spanWord ++ List.replicate (4 - digits.length) '0' ++ digits)

def natOfDigits (s : List Char) : Nat :=
  s.foldl (fun n c => n * 10 + (c.toNat - '0'.toNat)) 0

/-- Reads a mark with the given word at the start of a text: its number, and what follows. -/
def numbered? (word s : List Char) : Option (Nat × List Char) :=
  (after? (markStart :: word) s).bind fun r =>
    let digits := r.takeWhile Char.isDigit
    match r.drop digits.length with
    | c :: rest => if c = markEnd && !digits.isEmpty then some (natOfDigits digits, rest) else none
    | [] => none

def replaceMarks (word : List Char) (f : Nat → List Char) : Nat → List Char → List Char
  | 0, s => s
  | _, [] => []
  | fuel + 1, c :: s =>
    match numbered? word (c :: s) with
    | some (n, rest) => f n ++ replaceMarks word f fuel rest
    | none => c :: replaceMarks word f fuel s

def restoreChars (s : List Char) : List Char :=
  replaceMarks [] (fun n => [Char.ofNat n]) s.length s

/-- Pieces of finished markup, in the order they were kept. -/
abbrev Kept := List (List Char)

def keep (markup : List Char) : StateM Kept (List Char) := fun kept =>
  (rawMark kept.length, kept ++ [markup])

end Marginalia.Markdown
