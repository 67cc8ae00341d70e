import Marginalia.Script.Scanner

/-! # Block comments

A block comment with the lines it opens and closes on, whether code follows it on its closing line,
and its description: the prose without the comment signs, the star gutter and the tags.
-/
namespace Marginalia.Script

open Text

/-- A block comment of a script. Lines count from one. -/
structure Comment where
  line : Nat
  endLine : Nat
  /-- Whether code follows on the closing line. -/
  trailingCode : Bool
  description : List Char
deriving DecidableEq

def Comment.codeStart (c : Comment) : Nat :=
  if c.trailingCode then c.endLine else c.endLine + 1

/-- A line without its gutter: blanks, a star and one space. -/
def dropGutter (l : List Char) : List Char :=
  match l.dropWhile fun c => c = ' ' || c = '\t' with
  | '*' :: ' ' :: r => r
  | '*' :: r => r
  | _ => l

/-- What stands between the signs of a comment; the closing sign may be missing. -/
def body (raw : List Char) : List Char :=
  let inner := if endsWith ['*', '/'] raw then (raw.take (raw.length - 2)).drop 2 else raw.drop 2
  match inner with
  | '*' :: r | '!' :: r => r
  | _ => inner

/-- The prose before the first tag. -/
def beforeTags (s : List Char) : List Char :=
  match s with
  | '@' :: _ => []
  | _ => trimEnd ((cut? ['\n', '@'] s).elim s (·.1))

/-- The prose of a comment. -/
def description (raw : List Char) : List Char :=
  beforeTags (strip (unlines ((lines (body raw)).map dropGutter)))

def lineCount (s : List Char) : Nat :=
  s.count '\n'

/-- Whether a line has code before its end. -/
def codeFollows (s : List Char) : Bool :=
  (s.takeWhile (· ≠ '\n')).any fun c => !isAsciiBlank c

/-- The comments of pieces, the first of which starts on the given line. -/
def commentsFrom : Nat → List Piece → List Comment
  | _, [] => []
  | line, p :: ps =>
    let endLine := line + lineCount p.text
    let rest := commentsFrom endLine ps
    if p.comment then ⟨line, endLine, codeFollows (spell ps), description p.text⟩ :: rest else rest

/-- The block comments of a script, in order. -/
def comments (s : List Char) : List Comment :=
  commentsFrom 1 (pieces s)

end Marginalia.Script
