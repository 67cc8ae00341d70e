import Marginalia.Markdown.Element

/-! # Emphasis

Stars and underscores around words. The patterns are tried in order, and inside a match only those
after the one that matched; an underscore counts only at the edge of a word.
-/
namespace Marginalia.Markdown

open Text

/-- How a match is built into elements. -/
inductive Build where
  /-- One element around group 2. -/
  | single (tag : String)
  /-- The second tag around group 2, and with group 3 inside the first. -/
  | nested (outer inner : String)
  /-- The first tag around group 2, and around the second with group 3. -/
  | trailing (outer inner : String)

/-- A pattern and how its match is built. -/
structure EmphasisItem where
  pattern : Pattern
  build : Build

/-- The sign `c` again, so many times. -/
def signs (c : Char) (n : Nat) : Pattern :=
  .chars (List.replicate n c)

def anything (least : Nat) : Pattern :=
  .few (fun _ => true) least

def notSign (c : Char) : Pattern :=
  .next (· ≠ some c)

def afterNoWord : Pattern :=
  .before fun c => !c.any isWordChar

def beforeNoWord : Pattern :=
  .next fun c => !c.any isWordChar

def afterNoSign (c : Char) : Pattern :=
  .before (· ≠ some c)

def starItems : List EmphasisItem :=
  [⟨signs '*' 3 ++ .group 2 (anything 1) ++ signs '*' 1 ++ .group 3 (anything 0) ++ signs '*' 2,
     .nested "strong" "em"⟩,
   ⟨signs '*' 3 ++ .group 2 (anything 1) ++ signs '*' 2 ++ .group 3 (anything 0) ++ signs '*' 1,
     .nested "em" "strong"⟩,
   ⟨signs '*' 2 ++ notSign '*' ++ .group 2 (.few (· ≠ '*') 1) ++ signs '*' 1 ++ notSign '*' ++
     .group 3 (anything 1) ++ signs '*' 3, .trailing "strong" "em"⟩,
   ⟨signs '*' 2 ++ .group 2 (anything 1) ++ signs '*' 2, .single "strong"⟩,
   ⟨afterNoSign '*' ++ signs '*' 1 ++ .group 2 (.many (· ≠ '*') 1 none) ++ signs '*' 1 ++ notSign '*',
     .single "em"⟩]

def underscoreItems : List EmphasisItem :=
  [⟨signs '_' 3 ++ .group 2 (anything 1) ++ signs '_' 1 ++ .group 3 (anything 0) ++ signs '_' 2,
     .nested "strong" "em"⟩,
   ⟨signs '_' 3 ++ .group 2 (anything 1) ++ signs '_' 2 ++ .group 3 (anything 0) ++ signs '_' 1,
     .nested "em" "strong"⟩,
   ⟨afterNoWord ++ signs '_' 2 ++ notSign '_' ++ .group 2 (anything 1) ++ afterNoWord ++ signs '_' 1 ++
     notSign '_' ++ .group 3 (anything 1) ++ signs '_' 3 ++ beforeNoWord, .trailing "strong" "em"⟩,
   ⟨afterNoWord ++ signs '_' 2 ++ notSign '_' ++ .group 2 (anything 1) ++ afterNoSign '_' ++
     signs '_' 2 ++ beforeNoWord, .single "strong"⟩,
   ⟨afterNoWord ++ signs '_' 1 ++ notSign '_' ++ .group 2 (anything 1) ++ afterNoSign '_' ++
     signs '_' 1 ++ beforeNoWord, .single "em"⟩]

def itemsFor (sign : Char) : List EmphasisItem :=
  if sign = '*' then starItems else underscoreItems

def Element.addText (e : Element) (s : List Char) : Element :=
  if s.isEmpty then e
  else match e.last? with
    | some child => e.setLast { child with tail := s }
    | none => { e with text := s }

/-- Builds the elements of a match; `inside` puts what a group holds into an element. -/
def Build.make (inside : Element → List Char → Element) (m : Pattern.Match) : Build → Element
  | single tag => inside { tag } (m.group 2)
  | nested outer inner =>
    let child := inside { tag := inner } (m.group 2)
    inside { tag := outer, children := [child] } (m.group 3)
  | trailing outer inner =>
    let e := inside { tag := outer } (m.group 2)
    e.push (inside { tag := inner } (m.group 3))

/-- An element that is being filled, with text that is not yet in it, last character first, and the
place that is reached. -/
structure Filling where
  element : Element
  pending : List Char
  done : List Char
  rest : List Char

/-- Takes a match of an item, if there is one. -/
def Filling.take (inside : Nat → Element → List Char → Element) (f : Filling)
    (item : EmphasisItem × Nat) : Filling :=
  match item.1.pattern.matchAt? f.done f.rest with
  | none => f
  | some m =>
    let e := item.1.build.make (inside (item.2 + 1)) m
    ⟨(f.element.addText f.pending.reverse).push e, [], m.done, m.rest⟩

/-- Puts a text and the emphasis in it into an element; only items after the first `skip` count. -/
def fill (sign : Char) : Nat → Nat → Filling → Element
  | 0, _, f => f.element.addText (f.pending.reverse ++ f.rest)
  | fuel + 1, skip, f =>
    match f.rest with
    | [] => f.element.addText f.pending.reverse
    | c :: rest =>
      let inside (skip : Nat) (e : Element) (s : List Char) := fill sign fuel skip ⟨e, [], [], s⟩
      let tried :=
        if c = sign then ((itemsFor sign).zipIdx.drop skip).foldl (Filling.take inside) f else f
      if tried.rest.length < f.rest.length then fill sign fuel skip tried
      else fill sign fuel skip { f with pending := c :: f.pending, done := c :: f.done, rest }

/-- The emphasis that starts at a place, and what follows it. -/
def emphasisAt? (sign : Char) (done rest : List Char) : Option (Element × List Char) :=
  (itemsFor sign).zipIdx.findSome? fun (item, index) =>
    (item.pattern.matchAt? done rest).map fun m =>
      let inside (e : Element) (s : List Char) :=
        fill sign (2 * s.length + 8) (index + 1) ⟨e, [], [], s⟩
      (item.build.make inside m, m.rest)

end Marginalia.Markdown
