import Marginalia.Text.Blank
import Marginalia.Text.CharTable

/-! # Patterns over text

Patterns with ordered choice and backtracking, as lexers and the inline markup of prose need them.
A pattern is data; `Pattern.run` is one structural recursion on it, and what follows a pattern is a
continuation, so that a later failure takes back an earlier choice. A repetition goes on only while
it consumes, so every run ends.
-/
namespace Marginalia

inductive Pattern where
  /-- Matches without reading. -/
  | empty
  /-- One character of a class. -/
  | one (p : Char → Bool)
  /-- One pattern after the other. -/
  | seq (a b : Pattern)
  /-- The first pattern, or else the second. -/
  | alt (a b : Pattern)
  /-- As many characters of a class as possible, at least `least` and at most `most`. -/
  | many (p : Char → Bool) (least : Nat) (most : Option Nat)
  /-- As few characters of a class as possible, at least `least`. -/
  | few (p : Char → Bool) (least : Nat)
  /-- A pattern as often as possible. -/
  | star (a : Pattern)
  /-- A pattern as seldom as possible. -/
  | lazyStar (a : Pattern)
  /-- Remembers what a pattern read under a number. -/
  | group (n : Nat) (a : Pattern)
  /-- Reads again what a group read. -/
  | again (n : Nat)
  /-- Looks whether a pattern would match here. -/
  | ahead (a : Pattern)
  /-- Looks whether a pattern would not match here. -/
  | notAhead (a : Pattern)
  /-- A test of the character before, `none` at the start of the text. -/
  | before (p : Option Char → Bool)
  /-- A test of the character that comes, `none` at the end of the text. -/
  | next (p : Option Char → Bool)
  /-- The edge between a word and what is none. -/
  | wordEdge
  /-- Everywhere but at a word's edge. -/
  | noWordEdge

namespace Pattern

/-- A place in a text: what was read, last character first, what comes, and what groups read. -/
structure Cursor where
  pos : Nat
  done : List Char
  rest : List Char
  groups : List (Nat × List Char)

def Cursor.step (c : Cursor) (x : Char) (r : List Char) : Cursor :=
  { c with pos := c.pos + 1, done := x :: c.done, rest := r }

def Cursor.since (c start : Cursor) : List Char :=
  (c.done.take (c.pos - start.pos)).reverse

abbrev Cont := Cursor → Option Cursor

/-- The places after characters of a class, furthest first, on top of `acc`. -/
def runLength (p : Char → Bool) : Option Nat → Cursor → List Char → List Cursor → List Cursor
  | _, c, [], acc => c :: acc
  | some 0, c, _ :: _, acc => c :: acc
  | most, c, x :: r, acc =>
    if p x then runLength p (most.map (· - 1)) (c.step x r) r (c :: acc) else c :: acc

/-- Reads characters of a class until the continuation takes over. -/
def runFew (p : Char → Bool) (k : Cont) : Nat → Cursor → List Char → Option Cursor
  | 0, c, [] => k c
  | _ + 1, _, [] => none
  | least, c, x :: r =>
    match if least = 0 then k c else none with
    | some d => some d
    | none => if p x then runFew p k (least - 1) (c.step x r) r else none

def runStar (step : Cont → Cursor → Option Cursor) (k : Cont) : Nat → Cursor → Option Cursor
  | 0, c => k c
  | fuel + 1, c =>
    match step (fun d => if c.pos < d.pos then runStar step k fuel d else none) c with
    | some d => some d
    | none => k c

/-- Repeats a step only when the continuation fails. -/
def runLazyStar (step : Cont → Cursor → Option Cursor) (k : Cont) : Nat → Cursor → Option Cursor
  | 0, c => k c
  | fuel + 1, c =>
    match k c with
    | some d => some d
    | none => step (fun d => if c.pos < d.pos then runLazyStar step k fuel d else none) c

def runWord (k : Cont) : List Char → Cursor → List Char → Option Cursor
  | [], c, _ => k c
  | _ :: _, _, [] => none
  | a :: w, c, x :: r => if a = x then runWord k w (c.step x r) r else none

def Cursor.atWordEdge (c : Cursor) : Bool :=
  (match c.done with | x :: _ => Text.isWordChar x | [] => false) !=
  (match c.rest with | x :: _ => Text.isWordChar x | [] => false)

/-- Matches a pattern and then the continuation. -/
def run : Pattern → Cont → Cursor → Option Cursor
  | empty, k, c => k c
  | one p, k, c =>
    match c.rest with
    | x :: r => if p x then k (c.step x r) else none
    | [] => none
  | seq a b, k, c => run a (run b k) c
  | alt a b, k, c =>
    match run a k c with
    | some d => some d
    | none => run b k c
  | many p least most, k, c =>
    ((runLength p most c c.rest []).takeWhile fun d => c.pos + least ≤ d.pos).findSome? k
  | few p least, k, c => runFew p k least c c.rest
  | star a, k, c => runStar (run a) k (c.rest.length + 1) c
  | lazyStar a, k, c => runLazyStar (run a) k (c.rest.length + 1) c
  | group n a, k, c => run a (fun d => k { d with groups := (n, d.since c) :: d.groups }) c
  | again n, k, c =>
    match c.groups.lookup n with
    | some w => runWord k w c c.rest
    | none => none
  | ahead a, k, c =>
    match run a some c with
    | some d => k { c with groups := d.groups }
    | none => none
  | notAhead a, k, c =>
    match run a some c with
    | some _ => none
    | none => k c
  | before p, k, c => if p c.done.head? then k c else none
  | next p, k, c => if p c.rest.head? then k c else none
  | wordEdge, k, c => if c.atWordEdge then k c else none
  | noWordEdge, k, c => if c.atWordEdge then none else k c

/-- A match: what was read, what groups read, and the place after it. -/
structure Match where
  text : List Char
  groups : List (Nat × List Char)
  done : List Char
  rest : List Char

/-- What a group read, nothing if it took no part. -/
def Match.group (m : Match) (n : Nat) : List Char :=
  (m.groups.lookup n).getD []

/-- What a group read, if it took part. -/
def Match.group? (m : Match) (n : Nat) : Option (List Char) :=
  m.groups.lookup n

/-- Matches at the place between `done` (last character first) and `rest`. -/
def matchAt? (p : Pattern) (done rest : List Char) : Option Match :=
  (p.run some ⟨0, done, rest, []⟩).map fun d =>
    ⟨(d.done.take d.pos).reverse, d.groups, d.done, d.rest⟩

/-- Matches at the start of a text. -/
def match? (p : Pattern) (s : List Char) : Option Match :=
  p.matchAt? [] s

/-- Whether the whole text matches. -/
def fits (p : Pattern) (s : List Char) : Bool :=
  ((p.seq (.next Option.isNone)).match? s).isSome

/-- The first match in `rest`, with the characters skipped before it, last one first on top of
`done`. -/
def search? (p : Pattern) (done : List Char) : List Char → Option (List Char × Match)
  | [] => (p.matchAt? done []).map fun m => (done, m)
  | x :: r =>
    match p.matchAt? done (x :: r) with
    | some m => some (done, m)
    | none => search? p (x :: done) r

instance : Append Pattern := ⟨seq⟩

def chars : List Char → Pattern
  | [] => empty
  | [a] => one (· == a)
  | a :: w => seq (one (· == a)) (chars w)

def lit (w : String) : Pattern :=
  chars w.toList

def firstOf : List Pattern → Pattern
  | [] => one fun _ => false
  | [a] => a
  | a :: rest => alt a (firstOf rest)

def words (ws : List String) : Pattern :=
  firstOf (ws.map lit)

def oneOf (s : String) : Pattern :=
  let cs := s.toList
  one cs.contains

def noneOf (s : String) : Pattern :=
  let cs := s.toList
  one fun c => !cs.contains c

/-- Characters other than those listed, as many as possible. -/
def manyNoneOf (s : String) (least : Nat) : Pattern :=
  let cs := s.toList
  many (fun c => !cs.contains c) least none

def anyChar : Pattern :=
  one fun _ => true

/-- A pattern or nothing. -/
def opt (a : Pattern) : Pattern :=
  alt a empty

/-- A pattern once or more. -/
def plus (a : Pattern) : Pattern :=
  seq a (star a)

def lineStart : Pattern :=
  before fun c => c.all (· == '\n')

def lineEnd : Pattern :=
  next fun c => c.all (· == '\n')

def textStart : Pattern :=
  before Option.isNone

def textEnd : Pattern :=
  next Option.isNone

/-- The end of the text, or the place before a newline that ends it. -/
def lastLineEnd : Pattern :=
  alt textEnd (ahead (seq (one (· == '\n')) textEnd))

end Pattern
end Marginalia
