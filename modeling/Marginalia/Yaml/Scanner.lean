import Marginalia.Yaml.Token

/-! # Reading tokens

Blocks are told by indentation, and a key is told by the colon after it: a token that may start a key is
remembered, and when the colon comes the tokens of the key are put before it. A key stands on one line
and is at most 1024 characters long.
-/
namespace Marginalia.Yaml

open Text

/-- A token that may start a key: how many tokens come before it, whether it has to be a key, and where
it stands. -/
structure PossibleKey where
  before : Nat
  required : Bool
  index : Nat
  line : Nat
  column : Nat

/-- The state of the reading. -/
structure Scanner where
  place : Place
  /-- The tokens read so far, last one first. -/
  tokens : List Token := []
  /-- The column of the open block, -1 outside of any. -/
  indent : Int := -1
  /-- The columns of the blocks around it. -/
  outer : List Int := []
  /-- How many brackets are open. -/
  flow : Nat := 0
  /-- Whether a key may start here. -/
  mayKey : Bool := true
  /-- What may start a key, by the number of open brackets. -/
  keys : List (Nat × PossibleKey) := []

namespace Scanner

def push (s : Scanner) (t : Token) : Scanner :=
  { s with tokens := t :: s.tokens }

/-- One more token of so many characters. -/
def pushSign (s : Scanner) (t : Token) (length : Nat) : Scanner :=
  { s.push t with place := s.place.skip length }

def inBlock (s : Scanner) : Bool :=
  s.flow = 0

/-- Closes blocks that are indented further than a column. -/
def closeBlocks (s : Scanner) (column : Int) : List Int → Scanner
  | [] => s
  | o :: os =>
    if column < s.indent then closeBlocks { s.push .blockEnd with indent := o, outer := os } column os
    else s

/-- Closes blocks that are indented further than a column, outside of brackets. -/
def unwind (s : Scanner) (column : Int) : Scanner :=
  if s.inBlock then s.closeBlocks column s.outer else s

/-- Opens a block at a column, unless it is open; tells whether it was opened. -/
def openBlock (s : Scanner) (column : Int) : Scanner × Bool :=
  if s.indent < column then ({ s with outer := s.indent :: s.outer, indent := column }, true)
  else (s, false)

/-- Forgets what might start a key here. It is a fault if it had to be one. -/
def forgetKey (s : Scanner) : Except Fault Scanner :=
  match s.keys.lookup s.flow with
  | some k =>
    if k.required then .error .form else .ok { s with keys := s.keys.filter (·.1 ≠ s.flow) }
  | none => .ok s

/-- Forgets keys that are too long or began on an earlier line. -/
def forgetStale (s : Scanner) : Except Fault Scanner :=
  let stale (k : PossibleKey) := k.line ≠ s.place.line || 1024 < s.place.index - k.index
  if s.keys.any fun (_, k) => stale k && k.required then .error .form
  else .ok { s with keys := s.keys.filter fun (_, k) => !stale k }

def rememberKey (s : Scanner) : Except Fault Scanner := do
  if s.mayKey then
    let s ← s.forgetKey
    let required := s.inBlock && s.indent = s.place.column
    let key := ⟨s.tokens.length, required, s.place.index, s.place.line, s.place.column⟩
    return { s with keys := (s.flow, key) :: s.keys }
  else return s

/-- Skips blanks and comments. After a line end outside of brackets a key may start. -/
def skipBlanks : Nat → Scanner → Scanner
  | 0, s => s
  | fuel + 1, s =>
    let p := s.place.spaces
    let p := if p.peek = some '#' then (p.run fun c => !isBreak c).2 else p
    match p.lineBreak with
    | ([], p) => { s with place := p }
    | (_, p) => skipBlanks fuel { s with place := p, mayKey := s.mayKey || s.inBlock }

def endBlocks (s : Scanner) : Except Fault Scanner := do
  let s ← (s.unwind (-1)).forgetKey
  return { s with mayKey := false }

def openBracket (s : Scanner) (t : Token) : Except Fault Scanner := do
  let s ← s.rememberKey
  return { s.pushSign t 1 with flow := s.flow + 1, mayKey := true }

def closeBracket (s : Scanner) (t : Token) : Except Fault Scanner := do
  let s ← s.forgetKey
  return { s.pushSign t 1 with flow := s.flow - 1, mayKey := false }

/-- Opens a block for an entry or a key here, outside of brackets, where one may start. -/
def openHere (s : Scanner) (t : Token) : Except Fault Scanner :=
  if !s.inBlock then .ok s
  else if !s.mayKey then .error .form
  else
    let (s, opened) := s.openBlock s.place.column
    .ok (if opened then s.push t else s)

def readEntry (s : Scanner) : Except Fault Scanner := do
  let s ← (← s.openHere .blockSequence).forgetKey
  return { s.pushSign .blockEntry 1 with mayKey := true }

def readKey (s : Scanner) : Except Fault Scanner := do
  let s ← (← s.openHere .blockMapping).forgetKey
  return { s.pushSign .key 1 with mayKey := s.inBlock }

/-- Reads the sign of a value. What was remembered is a key now. -/
def readValue (s : Scanner) : Except Fault Scanner := do
  match s.keys.lookup s.flow with
  | some k =>
    let s := { s with keys := s.keys.filter (·.1 ≠ s.flow) }
    let (s, opened) := if s.inBlock then s.openBlock k.column else (s, false)
    let inside := s.tokens.take (s.tokens.length - k.before)
    let around := s.tokens.drop (s.tokens.length - k.before)
    let start := if opened then [.key, .blockMapping] else [.key]
    let s := { s with tokens := inside ++ start ++ around, mayKey := false }
    return s.pushSign .value 1
  | none =>
    let s ← (← s.openHere .blockMapping).forgetKey
    return { s.pushSign .value 1 with mayKey := s.inBlock }

/-- Reads a token that may start a key and after which none may start. -/
def readSimple (s : Scanner) (read : Place → Except Fault (Token × Place)) : Except Fault Scanner := do
  let s ← s.rememberKey
  let (t, place) ← read s.place
  return { s.push t with place, mayKey := false }

/-- Reads a plain scalar. After a line end a key may start. -/
def readPlainScalar (s : Scanner) : Except Fault Scanner := do
  let s ← s.rememberKey
  let (text, place, fresh) :=
    readPlain (!s.inBlock) (s.indent + 1) (s.place.rest.length + 1) s.place [] false
  return { s.push (.scalar text true) with place, mayKey := fresh }

def readBlockScalar (s : Scanner) (fold : Bool) : Except Fault Scanner := do
  let s ← s.forgetKey
  let (text, place) ← readBlock fold s.indent s.place.step
  return { s.push (.scalar text false) with place, mayKey := true }

def indicators : List Char :=
  ['-', '?', ':', ',', '[', ']', '{', '}', '#', '&', '*', '!', '|', '>', '\'', '"', '%', '@',
   Char.ofNat 96, '\t']

def atPlain (s : Scanner) (c : Char) : Bool :=
  !indicators.contains c ||
    !isTabGap (s.place.ahead 1) && (c = '-' || s.inBlock && (c = '?' || c = ':'))

def readToken (s : Scanner) (c : Char) : Except Fault Scanner :=
  let p := s.place
  let gapNext := isTabGap (p.ahead 1)
  let quotedScalar (p : Place) : Except Fault (Token × Place) := do
    let (text, q) ← readQuoted c (p.rest.length + 1) p.step []
    return (.scalar text false, q)
  if c = '%' && p.column = 0 then do
    let s ← s.endBlocks
    let (d, place) ← readDirective p.step
    return { s.push (.directive d) with place }
  else if p.column = 0 && p.atDocumentMark then do
    return (← s.endBlocks).pushSign (if c = '-' then .documentStart else .documentEnd) 3
  else if c = '[' then s.openBracket .flowSequence
  else if c = '{' then s.openBracket .flowMapping
  else if c = ']' then s.closeBracket .flowSequenceEnd
  else if c = '}' then s.closeBracket .flowMappingEnd
  else if c = ',' then do return { (← s.forgetKey).pushSign .flowEntry 1 with mayKey := true }
  else if c = '-' && gapNext then s.readEntry
  else if c = '?' && (!s.inBlock || gapNext) then s.readKey
  else if c = ':' && (!s.inBlock || gapNext) then s.readValue
  else if c = '*' then s.readSimple fun p => do
    let (name, q) ← readAnchor p.step
    return (.alias name, q)
  else if c = '&' then s.readSimple fun p => do
    let (name, q) ← readAnchor p.step
    return (.anchor name, q)
  else if c = '!' then s.readSimple readTag
  else if c = '|' && s.inBlock then s.readBlockScalar false
  else if c = '>' && s.inBlock then s.readBlockScalar true
  else if c = '\'' || c = '"' then s.readSimple quotedScalar
  else if s.atPlain c then s.readPlainScalar
  else .error .form

/-- Reads all tokens; each step reads at least one character. -/
def readAll : Nat → Scanner → Except Fault (List Token)
  | 0, _ => .error .form
  | fuel + 1, s => do
    let s ← (s.skipBlanks (s.place.rest.length + 1)).forgetStale
    let s := s.unwind s.place.column
    match s.place.peek with
    | none => return (← s.endBlocks).tokens.reverse
    | some c => readAll fuel (← s.readToken c)

end Scanner

def isPrintable (c : Char) : Bool :=
  let n := c.toNat
  n = 9 || n = 10 || n = 13 || 0x20 ≤ n && n ≤ 0x7e || n = 0x85 || 0xa0 ≤ n && n ≤ 0xd7ff ||
    0xe000 ≤ n && n ≤ 0xfffd || 0x10000 ≤ n

/-- The tokens of a text. -/
def tokens (text : List Char) : Except Fault (List Token) :=
  if text.all isPrintable then
    let place : Place := { rest := text }
    let place := if place.peek = some orderMark then place.step else place
    Scanner.readAll (text.length + 1) { place }
  else .error .form

end Marginalia.Yaml
