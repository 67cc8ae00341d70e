import Marginalia.Pattern

/-! # Links

The text of a link stands between square brackets, which may hold others; where it leads stands between
round ones, with a title in quotes before the last. Quotes that turn out not to hold a title are part
of the target.
-/
namespace Marginalia.Markdown

open Text

/-- The text up to the bracket that closes it, with so many open, and what follows. -/
def bracketed? : Nat → List Char → Option (List Char × List Char)
  | _, [] => none
  | depth, c :: s =>
    let depth := if c = ']' then depth - 1 else if c = '[' then depth + 1 else depth
    if depth = 0 then some ([], s) else (bracketed? depth s).map fun (a, b) => (c :: a, b)

/-- A link's target and title, and what follows the link. -/
structure LinkEnd where
  target : List Char
  title : Option (List Char)
  rest : List Char

/-- A target in angle brackets, with a title or without. -/
def anglePattern : Pattern :=
  .lit "(" ++ .many isBlank 0 none ++
    .opt (.group 1 (.lit "<" ++ .many (fun c => c ≠ '<' && c ≠ '>') 0 none ++ .lit ">") ++
      .many isBlank 0 none ++
      .opt (.group 2 (.alt (.lit "'" ++ .many (· ≠ '\'') 0 none ++ .lit "'")
        (.lit "\"" ++ .many (· ≠ '"') 0 none ++ .lit "\"")) ++ .many isBlank 0 none) ++
      .lit ")")

/-- A quote that may start a title: its sign, where the title starts, and where the quote was last
closed. -/
structure QuoteTrack where
  sign : Char
  start : Nat
  closed : Option Nat := none

/-- What is known while the end of a link is looked for. -/
structure LinkScan where
  /-- Open brackets. -/
  depth : Nat := 1
  /-- Open brackets if there is no title after all. -/
  backup : Nat := 1
  /-- Where the link ends if there is no title after all. -/
  backupEnd : Option Nat := none
  /-- The first kind of quote met, and the second. -/
  first : Option QuoteTrack := none
  second : Option QuoteTrack := none
  /-- The last character other than a space. -/
  last : Option Char := none

def QuoteTrack.endsAt (q : Option QuoteTrack) (last : Option Char) : Bool :=
  q.any fun q => q.closed.isSome && some q.sign = last

/-- The scan after the character at a place, the last character apart. -/
def LinkScan.step (k : LinkScan) (i : Nat) (c : Char) : LinkScan :=
  let inTitle := k.first.isSome
  if c = '(' then
    if inTitle then { k with backup := k.backup - 1 } else { k with depth := k.depth + 1 }
  else if c = ')' then
    if QuoteTrack.endsAt k.first k.last || QuoteTrack.endsAt k.second k.last then { k with depth := 0 }
    else if !inTitle then { k with depth := k.depth - 1 }
    else if k.backup = 0 then k
    else if k.backup = 1 then { k with backup := 0, backupEnd := some (i + 1) }
    else { k with backup := k.backup - 1 }
  else if c = '\'' || c = '"' then
    match k.first with
    | none => { k with backup := k.depth, depth := 1, first := some ⟨c, i + 1, none⟩ }
    | some q =>
      if c = q.sign then { k with first := some { q with closed := some (i + 1) } }
      else match k.second with
        | none => { k with second := some ⟨c, i + 1, none⟩ }
        | some q => { k with second := some { q with closed := some (i + 1) } }
  else k

def between (s : List Char) (a b : Nat) : List Char :=
  (s.take b).drop a

/-- The title a scan has found when it ends. -/
def LinkScan.quote? (k : LinkScan) : Option QuoteTrack :=
  if QuoteTrack.endsAt k.first k.last then k.first
  else if QuoteTrack.endsAt k.second k.last then k.second
  else none

/-- Looks for the end of a link in `s`, of which `rest` is left from the place `i` on. -/
def scanLink (s : List Char) : LinkScan → Nat → List Char → Option LinkEnd
  | k, _, [] =>
    if k.backup = 0 then
      match k.backupEnd with
      | some n => some ⟨s.take (n - 1), none, s.drop n⟩
      | none => some ⟨s.take (s.length - 2), none, s.drop (s.length - 1)⟩
    else none
  | k, i, c :: rest =>
    let next := k.step i c
    if next.depth = 0 then
      match next.quote? with
      | some q => some ⟨s.take (q.start - 1), some (between s q.start (q.closed.getD 0 - 1)), rest⟩
      | none => some ⟨s.take i, none, rest⟩
    else scanLink s { next with last := if c = ' ' then k.last else some c } (i + 1) rest

def linkEnd? (s : List Char) : Option LinkEnd :=
  (anglePattern.match? s).bind fun m =>
    match m.group? 1 with
    | some g =>
      some ⟨strip (between g 1 (g.length - 1)),
        (m.group? 2).map fun t => between t 1 (t.length - 1), m.rest⟩
    | none => scanLink m.rest {} 0 m.rest

/-- A text without quotes around it. -/
def dequote (s : List Char) : List Char :=
  let around (q : Char) := s.head? = some q && s.getLast? = some q
  if around '"' || around '\'' then between s 1 (s.length - 1) else s

def cleanTitle (s : List Char) : List Char :=
  s.map fun c => if isBlank c then ' ' else c

/-- The name of a link in brackets of its own. -/
def namePattern : Pattern :=
  .many isBlank 0 (some 1) ++ .lit "[" ++ .group 1 (.many (· ≠ ']') 0 none) ++ .lit "]"

def squeeze : List Char → List Char
  | [] => []
  | c :: s =>
    if isBlank c then
      match squeeze s with
      | ' ' :: r => ' ' :: r
      | r => ' ' :: r
    else c :: squeeze s

end Marginalia.Markdown
