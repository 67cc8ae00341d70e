import Marginalia.Template.Tree
import Marginalia.Pattern

/-! # Tokens of templates

A template is cut into text, expressions and tags. A tag that is alone on its line, blanks apart, takes
the line with it: the blanks before it and the line end after it are dropped.
-/
namespace Marginalia.Template

open Text

/-- A word of an expression. -/
inductive Token where
  | name (s : List Char)
  | text (s : List Char)
  | int (n : Nat)
  | float (x : Float)
  | sign (s : String)

/-- A piece of a template. -/
inductive Piece where
  | text (s : List Char)
  | print (ts : List Token)
  | tag (ts : List Token)

def signTexts : List String :=
  ["**", "//", "==", "!=", ">=", "<=", "+", "-", "/", "*", "%", "~", "[", "]", "(", ")", "\x7b",
   "\x7d", ">", "<", "=", ".", ":", "|", ",", ";"]

/-- Reads the text in quotes, with escapes, up to the closing quote. -/
def readQuoted (quote : Char) : List Char → Option (List Char × List Char)
  | [] => none
  | '\\' :: c :: s => (readQuoted quote s).map fun (t, r) =>
      (match c with
        | 'n' => '\n' :: t
        | 't' => '\t' :: t
        | 'r' => '\r' :: t
        | '\n' => t
        | '\\' | '\'' | '"' => c :: t
        | _ => '\\' :: c :: t, r)
  | c :: s => if c = quote then some ([], s) else (readQuoted quote s).map fun (t, r) => (c :: t, r)

def digitsValue (s : List Char) : Nat :=
  s.foldl (fun n c => if c.isDigit then n * 10 + (c.toNat - '0'.toNat) else n) 0

def readNumber (s : List Char) : Token × List Char :=
  let whole := s.takeWhile fun c => c.isDigit || c = '_'
  match s.drop whole.length with
  | '.' :: d :: r =>
    if d.isDigit then
      let frac := (d :: r).takeWhile Char.isDigit
      (.float (Float.ofScientific (digitsValue (whole ++ frac)) true frac.length),
        (d :: r).drop frac.length)
    else (.int (digitsValue whole), '.' :: d :: r)
  | r => (.int (digitsValue whole), r)

/-- Reads one word; blanks are skipped before. -/
def readToken (s : List Char) : Option (Token × List Char) :=
  match s with
  | [] => none
  | c :: r =>
    if c = '\'' || c = '"' then (readQuoted c r).map fun (t, r) => (.text t, r)
    else if c.isDigit then some (readNumber s)
    else if isLetter c || c = '_' then
      let w := s.takeWhile isWordChar
      some (.name w, s.drop w.length)
    else signTexts.findSome? fun t => (after? t.toList s).map fun r => (.sign t, r)

/-- Whether a text starts with the end of a tag; how much of the text it takes. A minus before it takes
the blanks after it too. -/
def tagEnd? (close : String) (s : List Char) : Option (List Char) :=
  match after? ('-' :: close.toList) s with
  | some r => some (r.dropWhile isBlank)
  | none =>
    match after? ('+' :: close.toList) s with
    | some r => if close = "\x7d\x7d" then none else some r
    | none => (after? close.toList s).map fun r =>
        if close = "\x7d\x7d" then r else match r with
          | '\n' :: r => r
          | r => r

/-- Reads words up to the end of a tag; brackets that are open keep it from ending. -/
def readTokens (close : String) : Nat → Nat → List Char → Option (List Token × List Char)
  | 0, _, _ => none
  | fuel + 1, depth, s =>
    let s := s.dropWhile isBlank
    match if depth = 0 then tagEnd? close s else none with
    | some r => some ([], r)
    | none => do
      let (t, r) ← readToken s
      let depth ← match t with
        | .sign "(" | .sign "[" | .sign "\x7b" => some (depth + 1)
        | .sign ")" | .sign "]" | .sign "\x7d" => if depth = 0 then none else some (depth - 1)
        | _ => some depth
      let (ts, r) ← readTokens close fuel depth r
      some (t :: ts, r)

/-- Text before a tag, as the sign of the tag asks: a minus drops the blanks at its end, a plus keeps
all, and else blanks that start the line are dropped. `fresh` says that the text starts a line. -/
def trimBefore (sign : Option Char) (fresh : Bool) (text : List Char) : List Char :=
  match sign with
  | some '-' => trimEnd text
  | some '+' => text
  | _ =>
    let tail := (text.reverse.takeWhile (· ≠ '\n')).reverse
    if (fresh || tail.length < text.length) && allBlank tail then
      text.take (text.length - tail.length)
    else text

/-- What starts a tag. -/
inductive Opening where
  | print
  | tag
  | comment

/-- The opening at the start of a text, the sign after it, and what follows. -/
def opening? (s : List Char) : Option (Opening × Option Char × List Char) :=
  let signed (o : Opening) (r : List Char) := match r with
    | '-' :: r => (o, some '-', r)
    | '+' :: r => (o, some '+', r)
    | r => (o, none, r)
  match s with
  | '{' :: '{' :: r => some (signed .print r)
  | '{' :: '%' :: r => some (signed .tag r)
  | '{' :: '#' :: r => some (signed .comment r)
  | _ => none

def cutOpening : List Char → List Char × Option (Opening × Option Char × List Char)
  | [] => ([], none)
  | c :: s =>
    match opening? (c :: s) with
    | some o => ([], some o)
    | none => let (t, o) := cutOpening s; (c :: t, o)

def afterComment? : List Char → Option (List Char)
  | [] => none
  | c :: s =>
    match tagEnd? "#\x7d" (c :: s) with
    | some r => some r
    | none => afterComment? s

def rawEnd? (s : List Char) : Option (Option Char × List Char) :=
  match opening? s with
  | some (.tag, sign, r) =>
    (after? "endraw".toList (r.dropWhile isBlank)).bind fun r =>
      (tagEnd? "%\x7d" (r.dropWhile isBlank)).map fun r => (sign, r)
  | _ => none

def cutRaw? : List Char → Option (List Char × Option Char × List Char)
  | [] => none
  | c :: s =>
    match rawEnd? (c :: s) with
    | some (sign, r) => some ([], sign, r)
    | none => (cutRaw? s).map fun (t, sign, r) => (c :: t, sign, r)

def rawStart? (r : List Char) : Option (List Char) :=
  (after? "raw".toList (r.dropWhile isBlank)).bind fun r =>
    let r := r.dropWhile isBlank
    match after? "-%\x7d".toList r with
    | some r => some (r.dropWhile isBlank)
    | none => after? "%\x7d".toList r

def endedLine (whole rest : List Char) : Bool :=
  (whole.take (whole.length - rest.length)).getLast? = some '\n'

/-- Cuts a template into pieces; the fuel covers every character. -/
def piecesFrom : Nat → Bool → List Char → Option (List Piece)
  | 0, _, _ => none
  | fuel + 1, fresh, s =>
    match cutOpening s with
    | (t, none) => some [.text t]
    | (t, some (.print, sign, r)) => do
      let t := if sign = some '-' then trimEnd t else t
      let (ts, rest) ← readTokens "\x7d\x7d" (r.length + 1) 0 r
      let ps ← piecesFrom fuel (endedLine r rest) rest
      some (.text t :: .print ts :: ps)
    | (t, some (.comment, sign, r)) => do
      let rest ← afterComment? r
      let ps ← piecesFrom fuel (endedLine r rest) rest
      some (.text (trimBefore sign fresh t) :: ps)
    | (t, some (.tag, sign, r)) =>
      match rawStart? r with
      | some raw => do
        let (inner, endSign, rest) ← cutRaw? raw
        let ps ← piecesFrom fuel (endedLine raw rest) rest
        some (.text (trimBefore sign fresh t) :: .text (trimBefore endSign (endedLine r raw) inner) :: ps)
      | none => do
        let (ts, rest) ← readTokens "%\x7d" (r.length + 1) 0 r
        let ps ← piecesFrom fuel (endedLine r rest) rest
        some (.text (trimBefore sign fresh t) :: .tag ts :: ps)

/-- The pieces of a template; one line end at its end is dropped. Nothing when a tag is not closed. -/
def pieces? (s : List Char) : Option (List Piece) :=
  let s := (beforeEnd? ['\n'] s).getD s
  piecesFrom (s.length + 1) true s

end Marginalia.Template
