import Marginalia.Text.Chars

/-! # Paths

A path is its root and its segments. A path text has many spellings; `Path.parse` forgets doubled
slashes and segments that stay in place, and `Path.collapse` takes each step up together with the step
down before it, without looking at any file system.
-/
namespace Marginalia

open Text

abbrev Name := List Char

/-- Where a path starts. Exactly two leading slashes are a root of their own. -/
inductive Root where
  | none
  | single
  | double
deriving DecidableEq

def Root.text : Root → List Char
  | none => []
  | single => ['/']
  | double => ['/', '/']

def Root.of : List Char → Root
  | '/' :: '/' :: '/' :: _ => .single
  | '/' :: '/' :: _ => .double
  | '/' :: _ => .single
  | _ => .none

structure Path where
  root : Root
  segments : List Name
deriving DecidableEq

/-- The segment that stays in place. -/
def here : Name := ['.']

def up : Name := ['.', '.']

def slashParts (s : List Char) : List Name :=
  s.splitOn '/'

namespace Path

/-- Reads a path text. -/
def parse (s : List Char) : Path :=
  ⟨Root.of s, (slashParts s).filter fun n => n ≠ [] && n ≠ here⟩

/-- The text of a path. -/
def text (p : Path) : List Char :=
  if p.root = .none && p.segments.isEmpty then here else p.root.text ++ join ['/'] p.segments

/-- Takes back steps up, with the segments kept so far, last one first. -/
def collapseOnto (rooted : Bool) : List Name → List Name → List Name
  | kept, [] => kept.reverse
  | kept, n :: ns =>
    if n ≠ up then collapseOnto rooted (n :: kept) ns
    else match kept with
      | [] => collapseOnto rooted (if rooted then [] else [up]) ns
      | k :: ks => collapseOnto rooted (if k = up then up :: k :: ks else ks) ns

/-- The path without steps up, save those a relative path starts with. -/
def collapse (p : Path) : Path :=
  { p with segments := collapseOnto (p.root ≠ .none) [] p.segments }

def parts (p : Path) : List Name :=
  if p.root = .none then p.segments else p.root.text :: p.segments

def name (p : Path) : Name :=
  p.segments.getLast?.getD []

def parent (p : Path) : Path :=
  { p with segments := p.segments.dropLast }

def append (p q : Path) : Path :=
  if q.root = .none then { p with segments := p.segments ++ q.segments } else q

/-- A text in the shortest spelling of its path. -/
def normal (s : List Char) : List Char :=
  (parse s).collapse.text

/-- Puts one path text behind another; an absolute one replaces it. -/
def joined (a b : List Char) : List Char :=
  if b.head? = some '/' then b
  else if a.isEmpty || a.getLast? = some '/' then a ++ b
  else a ++ '/' :: b

/-- The absolute spelling of a path text seen from a directory. -/
def absolute (cwd s : List Char) : List Char :=
  normal (joined cwd s)

def dropCommon : List Name → List Name → List Name × List Name
  | a :: as, b :: bs => if a = b then dropCommon as bs else (a :: as, b :: bs)
  | as, bs => (as, bs)

def steps (start target : List Name) : List Name :=
  let (s, t) := dropCommon start target
  List.replicate s.length up ++ t

/-- How `target` is spelled from `start`, both seen from a directory. -/
def relative (cwd target start : List Char) : List Char :=
  let place (s : List Char) := (parse (absolute cwd s)).segments
  (Path.mk .none (steps (place start) (place target))).text

/-- What stands before the last slash, without slashes at its end unless it has nothing else. -/
def directory (s : List Char) : List Char :=
  let front := (s.reverse.dropWhile (· ≠ '/')).reverse
  let kept := dropEndWhile (· = '/') front
  if kept.isEmpty then front else kept

def baseName (s : List Char) : Name :=
  (s.reverse.takeWhile (· ≠ '/')).reverse

/-- Cuts a file name before its extension; dots at the start of the name are no part of one. -/
def cutName (n : Name) : Name × Name :=
  let dots := n.takeWhile (· = '.')
  let rest := n.drop dots.length
  let tail := (rest.reverse.takeWhile (· ≠ '.')).reverse
  if tail.length < rest.length then
    (dots ++ rest.take (rest.length - tail.length - 1), '.' :: tail)
  else (n, [])

/-- Cuts a path text before the extension of its file name. -/
def cutExtension (s : List Char) : List Char × List Char :=
  let base := baseName s
  let (stem, extension) := cutName base
  (s.take (s.length - base.length) ++ stem, extension)

/-- Spells a home directory out. `none` when the text names the home of another user. -/
def expandHome? (home s : List Char) : Option (List Char) :=
  match s with
  | ['~'] => some home
  | '~' :: '/' :: r => some (dropEndWhile (· = '/') home ++ '/' :: r)
  | '~' :: _ => none
  | _ => some s

/-- The path with a home directory at its start spelled out. `none` when it is the home of another
user. -/
def atHome? (home : List Char) (p : Path) : Option Path :=
  match p.root, p.segments with
  | .none, n :: ns =>
    if n = ['~'] then some ((parse home).append ⟨.none, ns⟩)
    else if n.head? = some '~' then none
    else some p
  | _, _ => some p

/-- The path seen from another one, when it lies at or below it. -/
def below? (p base : Path) : Option Path :=
  if p.root = base.root && base.segments.isPrefixOf p.segments then
    some ⟨.none, p.segments.drop base.segments.length⟩
  else none

/-- A path text as a reader in a directory would write it: relative where the path lies in it. -/
def shortFor (cwd s : List Char) : List Char :=
  ((parse s).below? (parse cwd)).elim s text

end Path
end Marginalia
