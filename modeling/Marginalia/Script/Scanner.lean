import Marginalia.Text.Blank
import Marginalia.Text.CharTable

/-! # Where block comments stand in a script

A script is cut into pieces that spell it: block comments, and everything else. A comment sign counts
only outside strings, template text, regular expressions, markup text and line comments, and whether
a slash starts a regular expression depends on what stands before it; so the scanner carries the open
brackets and the last thing it read.
-/
namespace Marginalia.Script

open Text

/-- What is open at a place. -/
inductive Frame where
  /-- A round bracket; `head` when a condition stands in it and a statement follows it. -/
  | paren (head : Bool)
  | bracket
  /-- A brace around statements or members. -/
  | block
  /-- A brace around the fields of a value. -/
  | object
  /-- A brace around an expression inside a template or markup. -/
  | hole
  | template
  /-- An opening tag before its closing sign. -/
  | tag
  /-- A closing tag before its closing sign. -/
  | endTag
  /-- Between an opening tag and its closing tag. -/
  | children
  /-- Before the body of a function or class that is a value. -/
  | definition
  /-- A brace around that body. -/
  | body
  /-- Between a question mark and its colon. -/
  | choice
deriving DecidableEq

/-- What stands before a place, blanks and comments apart. -/
inductive Before where
  /-- Nothing, or a finished statement. -/
  | start
  /-- A finished value. -/
  | value
  /-- An operator, or a word such as `return`: a value follows. -/
  | operator
  /-- A word such as `else`: a statement follows. -/
  | clause
  /-- A word such as `if`: a condition follows. -/
  | condition
  /-- The dot before a field name. -/
  | dot
  /-- The word `default`: a value follows, or a function or class that ends a statement. -/
  | exported
deriving DecidableEq

def Before.wantsValue : Before → Bool
  | start | operator | clause | exported => true
  | value | condition | dot => false

/-- What the scanner carries along. -/
structure State where
  frames : List Frame
  before : Before
  /-- Whether a line ended after what stands before. -/
  lineEnded : Bool := false

structure Piece where
  comment : Bool
  text : List Char
deriving DecidableEq

/-- One step: how many characters it reads, whether they are a block comment, and what is then
carried along. -/
structure Step where
  size : Nat
  comment : Bool := false
  state : State

def isLineEnd (c : Char) : Bool :=
  c = '\n' || c = '\r' || c.toNat = 0x2028 || c.toNat = 0x2029

def isScriptBlank (c : Char) : Bool :=
  isBlank c || c.toNat = 0xfeff || c.toNat = 0x200b || c.toNat = 0x2060

def isNameChar (c : Char) : Bool :=
  isLetter c || isNameMark c || c = '$' || c = '\\' || 0x80 ≤ c.toNat && !isScriptBlank c

def lineLength (s : List Char) : Nat :=
  (s.takeWhile fun c => !isLineEnd c).length

/-- How many characters precede the end of a comment that starts as one of markup does. -/
def markupCommentLength (s : List Char) : Nat :=
  (s.takeWhile fun c => c = '\r' || !isLineEnd c).length

/-- The length of a block comment whose opening sign is already read, if it is closed. -/
def commentLength? (s : List Char) : Option Nat :=
  (cut? ['*', '/'] s).map fun p => p.1.length + 4

/-- The length of a string up to its closing quote, which may be missing at the end of a line. -/
def stringLength (quote : Char) : List Char → Nat
  | [] => 0
  | ['\\'] => 1
  | '\\' :: '\r' :: '\n' :: s => stringLength quote s + 3
  | '\\' :: _ :: s => stringLength quote s + 2
  | c :: s => if c = quote then 1 else if c = '\n' then 0 else stringLength quote s + 1

def attributeLength (quote : Char) : List Char → Nat
  | [] => 0
  | c :: s => if c = quote then 1 else attributeLength quote s + 1

/-- The length of a regular expression up to its closing slash, if it is closed on its line; a slash
inside a class does not close it. -/
def regexLength? (inClass : Bool) : List Char → Option Nat
  | [] | ['\\'] => none
  | '\\' :: c :: s => if c = '\n' then none else (regexLength? inClass s).map (· + 2)
  | c :: s =>
    if c = '\n' then none
    else if c = '/' && !inClass then some 1
    else (regexLength? (if c = '[' then true else if c = ']' then false else inClass) s).map (· + 1)

def operatorWords : List String :=
  ["return", "typeof", "instanceof", "in", "of", "new", "delete", "void", "throw", "case", "yield",
   "await", "extends"]

def clauseWords : List String :=
  ["else", "do", "try", "finally"]

def conditionWords : List String :=
  ["if", "while", "for", "with"]

def afterWord (before : Before) (w : List Char) : Before :=
  let w := String.ofList w
  if before = .dot then .value
  else if w = "default" then .exported
  else if operatorWords.contains w then .operator
  else if clauseWords.contains w then .clause
  else if conditionWords.contains w then .condition
  else .value

def State.read (st : State) (size : Nat) (before : Before) : Step :=
  ⟨size, false, { st with before, lineEnded := false }⟩

/-- A step that skips a line comment or a part of a text. -/
def State.skip (st : State) (size : Nat) : Step :=
  ⟨size, false, st⟩

def State.skipBlank (st : State) (c : Char) : Step :=
  ⟨1, false, { st with lineEnded := st.lineEnded || isLineEnd c && c ≠ '\r' }⟩

def State.enter (st : State) (size : Nat) (f : Frame) (before : Before) : Step :=
  ⟨size, false, { frames := f :: st.frames, before }⟩

/-- A step that leaves frames for those around them. -/
def State.leaveTo (size : Nat) (frames : List Frame) (before : Before) : Step :=
  ⟨size, false, { frames, before }⟩

/-- A step that leaves the innermost frame. -/
def State.leave (st : State) (size : Nat) (before : Before) : Step :=
  leaveTo size st.frames.tail before

/-- A step over a block comment whose opening sign starts the text; without a closing sign the rest
of the script is no comment. -/
def State.blockComment (st : State) (s : List Char) : Step :=
  match commentLength? s with
  | some n => ⟨n, true, st⟩
  | none => st.skip (s.length + 2)

def State.opensBlock (st : State) : Bool :=
  match st.before with
  | .operator | .exported => false
  | _ => true

/-- A frame without a closing sign of its own. -/
def Frame.isLoose (f : Frame) : Bool :=
  f = .definition || f = .choice

/-- The frames around a place that have a closing sign. -/
def State.brackets (st : State) : List Frame :=
  st.frames.dropWhile Frame.isLoose

def State.openBrace (st : State) : Step :=
  if st.opensBlock then
    match st.frames with
    | .definition :: outer => leaveTo 1 (.body :: outer) .start
    | _ => st.enter 1 .block .start
  else st.enter 1 .object .operator

def State.close (st : State) : Step :=
  match st.brackets with
  | .paren true :: outer | .block :: outer | .hole :: outer => leaveTo 1 outer .start
  | .paren false :: outer | .bracket :: outer | .object :: outer | .body :: outer => leaveTo 1 outer .value
  | _ => st.read 1 .value

/-- A step over a colon, which ends a choice, a label or a field name. -/
def State.colon (st : State) : Step :=
  match st.frames with
  | .choice :: outer => leaveTo 1 outer .operator
  | [] | .block :: _ | .body :: _ => st.read 1 .clause
  | _ => st.read 1 .operator

/-- Whether a word that is followed by these characters defines a value with a body. -/
def State.defines (st : State) (w s : List Char) : Bool :=
  st.before = .operator && ["function", "class"].contains (String.ofList w) &&
    (s.dropWhile isScriptBlank).head? ≠ some ':'

/-- Whether a word belongs to the word `function` behind it. -/
def startsFunction (w s : List Char) : Bool :=
  String.ofList w = "async" &&
    ((s.dropWhile fun c => isScriptBlank c && !isLineEnd c).takeWhile isNameChar) = "function".toList

def State.word (st : State) (w s : List Char) : Step :=
  if st.defines w s then st.enter w.length .definition .value
  else if startsFunction w s then st.skip w.length
  else st.read w.length (afterWord st.before w)

/-- Whether markup starts with these characters, which follow the sign `<`. -/
def startsMarkup : List Char → Bool
  | c :: _ => isLetter c || c = '_' || c = '$' || c = '>'
  | [] => false

def codeStep (st : State) (c : Char) (s : List Char) : Step :=
  if isScriptBlank c then st.skipBlank c
  else match c, s with
  | '/', '*' :: s => st.blockComment s
  | '/', '/' :: s => st.skip (lineLength s + 2)
  | '/', s =>
    if st.before.wantsValue then
      match regexLength? false s with
      | some n => st.read (n + 1 + ((s.drop n).takeWhile isNameChar).length) .value
      | none => st.read 1 .operator
    else st.read 1 .operator
  | '<', s =>
    if st.before.wantsValue then
      match after? ['!', '-', '-'] s with
      | some r => st.skip (markupCommentLength r + 4)
      | none => if startsMarkup s then st.enter 1 .tag .start else st.read 1 .operator
    else st.read 1 .operator
  | '-', '-' :: '>' :: s =>
    if st.before.wantsValue || st.lineEnded then st.skip (markupCommentLength s + 3) else st.read 2 .value
  | '-', '-' :: _ | '+', '+' :: _ => st.read 2 st.before
  | '=', '>' :: s => st.read 2 (if (s.dropWhile isScriptBlank).head? = some '{' then .clause else .operator)
  | '"', s | '\'', s => st.read (stringLength c s + 1) .value
  | '`', _ => st.enter 1 .template .start
  | '(', _ => st.enter 1 (.paren (st.before = .condition)) .operator
  | '[', _ => st.enter 1 .bracket .operator
  | '{', _ => st.openBrace
  | ')', _ | ']', _ | '}', _ => st.close
  | ';', _ => State.leaveTo 1 st.brackets .start
  | ':', _ => st.colon
  | '?', '.' :: d :: _ => if d.isDigit then st.enter 1 .choice .operator else st.read 2 .dot
  | '?', '?' :: _ => st.read 2 .operator
  | '?', _ => st.enter 1 .choice .operator
  | '.', '.' :: '.' :: _ => st.read 3 .operator
  | '.', d :: _ => if d.isDigit then st.read 1 .value else st.read 1 .dot
  | c, s =>
    if isNameChar c then
      st.word (c :: s.takeWhile isNameChar) (s.dropWhile isNameChar)
    else if c = '.' then st.read 1 .dot
    else if c = '#' || c = '@' then st.skip 1
    else st.read 1 .operator

def templateStep (st : State) (c : Char) (s : List Char) : Step :=
  match c, s with
  | '\\', _ :: _ => st.skip 2
  | '$', '{' :: _ => st.enter 2 .hole .operator
  | '`', _ => st.leave 1 .value
  | _, _ => st.skip 1

def tagStep (st : State) (c : Char) (s : List Char) : Step :=
  match c, s with
  | '/', '*' :: s => st.blockComment s
  | '/', '/' :: s => st.skip (lineLength s + 2)
  | '/', '>' :: _ => st.leave 2 .value
  | '>', _ => ⟨1, false, { frames := .children :: st.frames.tail, before := .start }⟩
  | '{', _ => st.enter 1 .hole .operator
  | '"', s | '\'', s => st.skip (attributeLength c s + 1)
  | _, _ => st.skip 1

def endTagStep (st : State) (c : Char) (s : List Char) : Step :=
  match c, s with
  | '/', '*' :: s => st.blockComment s
  | '>', _ => ⟨1, false, { frames := st.frames.drop 2, before := .value }⟩
  | _, _ => st.skip 1

def childrenStep (st : State) (c : Char) (s : List Char) : Step :=
  match c, s with
  | '<', '/' :: _ => st.enter 2 .endTag .start
  | '<', _ => st.enter 1 .tag .start
  | '{', _ => st.enter 1 .hole .operator
  | _, _ => st.skip 1

def step (st : State) (c : Char) (s : List Char) : Step :=
  match st.frames.head? with
  | some .template => templateStep st c s
  | some .tag => tagStep st c s
  | some .endTag => endTagStep st c s
  | some .children => childrenStep st c s
  | _ => codeStep st c s

/-- Cuts a script into pieces; the fuel covers every character. -/
def piecesFrom : Nat → State → List Char → List Piece
  | _, _, [] => []
  | 0, _, s => [⟨false, s⟩]
  | fuel + 1, st, c :: s =>
    let next := step st c s
    let n := next.size - 1
    ⟨next.comment, c :: s.take n⟩ :: piecesFrom fuel next.state (s.drop n)

/-- The pieces of a script. A first line that names an interpreter is no code. -/
def pieces (s : List Char) : List Piece :=
  match s with
  | '#' :: '!' :: _ =>
    let n := lineLength s
    ⟨false, s.take n⟩ :: piecesFrom s.length { frames := [], before := .start } (s.drop n)
  | _ => piecesFrom s.length { frames := [], before := .start } s

/-- The text that pieces spell. -/
def spell (ps : List Piece) : List Char :=
  ps.flatMap (·.text)

theorem spell_cons (p : Piece) (ps : List Piece) : spell (p :: ps) = p.text ++ spell ps := by
  simp [spell]

theorem spell_piecesFrom (fuel : Nat) (st : State) (s : List Char) :
    spell (piecesFrom fuel st s) = s := by
  induction fuel generalizing st s with
  | zero => cases s <;> simp [piecesFrom, spell]
  | succ fuel ih =>
    cases s with
    | nil => simp [piecesFrom, spell]
    | cons c s =>
      simp only [piecesFrom, spell_cons, ih, List.cons_append, List.take_append_drop]

/-- The pieces of a script spell it. -/
theorem spell_pieces (s : List Char) : spell (pieces s) = s := by
  unfold pieces
  split
  · simp only [spell_cons, spell_piecesFrom, List.take_append_drop]
  · exact spell_piecesFrom _ _ _

end Marginalia.Script
