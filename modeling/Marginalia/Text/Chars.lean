/-! # Texts as lists of characters

The operations every reader of this library is built from: cutting at a word, replacing a word,
splitting into lines and joining them again.
-/
namespace Marginalia.Text

/-- What follows `w` in `s`, when `s` starts with `w`. -/
def after? : List Char → List Char → Option (List Char)
  | [], s => some s
  | _ :: _, [] => none
  | a :: w, c :: s => if a = c then after? w s else none

theorem after?_eq_some_iff {w s r : List Char} : after? w s = some r ↔ s = w ++ r := by
  induction w generalizing s with
  | nil => simp [after?, eq_comm]
  | cons a w ih =>
    cases s with
    | nil => simp [after?]
    | cons c s =>
      by_cases h : a = c
      · simp [after?, h, ih]
      · simp [after?, h, Ne.symm h]

def startsWith (w s : List Char) : Bool :=
  (after? w s).isSome

/-- Cuts `s` at the first place where `w` stands: what is before it and what is after it. -/
def cut? (w : List Char) : List Char → Option (List Char × List Char)
  | [] => (after? w []).map fun r => ([], r)
  | c :: s =>
    match after? w (c :: s) with
    | some r => some ([], r)
    | none => (cut? w s).map fun p => (c :: p.1, p.2)

def contains (w s : List Char) : Bool :=
  (cut? w s).isSome

/-- Replaces `old` by `new` in `s` from the left, after `skip` characters that are dropped. -/
def replaceFrom (old new : List Char) : Nat → List Char → List Char
  | _, [] => []
  | skip + 1, _ :: s => replaceFrom old new skip s
  | 0, c :: s =>
    if startsWith old (c :: s) then new ++ replaceFrom old new (old.length - 1) s
    else c :: replaceFrom old new 0 s

/-- Replaces every occurrence of the non-empty word `old` by `new`, from the left. -/
def replaceAll (old new s : List Char) : List Char :=
  if old.isEmpty then s else replaceFrom old new 0 s

/-- The lines of a text; there is always at least one. -/
def lines (s : List Char) : List (List Char) :=
  s.splitOn '\n'

def join (sep : List Char) : List (List Char) → List Char
  | [] => []
  | [s] => s
  | s :: rest => s ++ sep ++ join sep rest

def unlines (ls : List (List Char)) : List Char :=
  join ['\n'] ls

/-- Drops the longest ending of characters in `p`. -/
def dropEndWhile (p : Char → Bool) (s : List Char) : List Char :=
  (s.reverse.dropWhile p).reverse

def trim (p : Char → Bool) (s : List Char) : List Char :=
  dropEndWhile p (s.dropWhile p)

/-- What precedes `w` in `s`, when `s` ends with `w`. -/
def beforeEnd? (w s : List Char) : Option (List Char) :=
  (after? w.reverse s.reverse).map List.reverse

def endsWith (w s : List Char) : Bool :=
  (beforeEnd? w s).isSome

def total : List Nat → Nat
  | [] => 0
  | n :: ns => n + total ns

def hexDigit? (c : Char) : Option Nat :=
  if c.isDigit then some (c.toNat - '0'.toNat)
  else if 'a' ≤ c && c ≤ 'f' then some (c.toNat - 'a'.toNat + 10)
  else if 'A' ≤ c && c ≤ 'F' then some (c.toNat - 'A'.toNat + 10)
  else none

/-- A number in base sixteen, in small letters, at least `width` digits long. -/
def hexText (width n : Nat) : List Char :=
  let digits := Nat.toDigits 16 n
  List.replicate (width - digits.length) '0' ++ digits

def natText (n : Nat) : List Char :=
  Nat.toDigits 10 n

end Marginalia.Text
