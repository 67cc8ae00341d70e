import Marginalia.Text.Utf8
import Marginalia.Value

/-! # Tokens of option files

The characters of a YAML text, seen from a place with a line and a column, and the tokens that are read
from such a place: scalars of every style, names, tags and directives. Line ends are already of one
kind when a text gets here.
-/
namespace Marginalia.Yaml

open Text

/-- Why a text is no option file. -/
inductive Fault where
  /-- The text breaks a rule of the format. -/
  | form
  | scalar (why : Value.ScalarFault)
deriving DecidableEq

/-- A directive before a document. -/
inductive Directive where
  | version (major : Nat)
  | tag (handle start : List Char)
  | other

inductive Token where
  | directive (d : Directive)
  | documentStart
  | documentEnd
  | blockSequence
  | blockMapping
  | blockEnd
  | flowSequence
  | flowSequenceEnd
  | flowMapping
  | flowMappingEnd
  | blockEntry
  | flowEntry
  | key
  | value
  | alias (name : List Char)
  | anchor (name : List Char)
  | tag (handle : Option (List Char)) (suffix : List Char)
  | scalar (text : List Char) (plain : Bool)

def orderMark : Char := Char.ofNat 0xfeff

def isBreak (c : Char) : Bool :=
  c = '\n' || c.toNat = 0x85 || c.toNat = 0x2028 || c.toNat = 0x2029

def isEnd (c : Option Char) : Bool :=
  c.all isBreak

/-- Whether a blank, a line end or the end of the text is here. -/
def isGap (c : Option Char) : Bool :=
  c.all fun c => c = ' ' || isBreak c

/-- The same with tabs. -/
def isTabGap (c : Option Char) : Bool :=
  c.all fun c => c = ' ' || c = '\t' || isBreak c

structure Place where
  rest : List Char
  index : Nat := 0
  line : Nat := 0
  column : Nat := 0

namespace Place

def peek (p : Place) : Option Char :=
  p.rest.head?

/-- The character so many characters further on. -/
def ahead (p : Place) (n : Nat) : Option Char :=
  p.rest[n]?

def step (p : Place) : Place :=
  match p.rest with
  | [] => p
  | c :: r =>
    if isBreak c then ⟨r, p.index + 1, p.line + 1, 0⟩
    else ⟨r, p.index + 1, p.line, if c = orderMark then p.column else p.column + 1⟩

/-- The place after so many characters. -/
def skip (p : Place) : Nat → Place
  | 0 => p
  | n + 1 => p.step.skip n

/-- Reads the longest run of characters of a class. -/
def run (p : Place) (cls : Char → Bool) : List Char × Place :=
  let word := p.rest.takeWhile cls
  (word, p.skip word.length)

def spaces (p : Place) : Place :=
  (p.run (· = ' ')).2

/-- Reads a line end, if there is one. Most become the newline. -/
def lineBreak (p : Place) : List Char × Place :=
  match p.rest with
  | c :: _ =>
    if c = '\n' || c.toNat = 0x85 then (['\n'], p.step)
    else if isBreak c then ([c], p.step)
    else ([], p)
  | [] => ([], p)

/-- The place after the rest of a line that may hold a comment and nothing else. -/
def endLine (p : Place) : Except Fault Place :=
  let p := p.spaces
  let p := if p.peek = some '#' then (p.run fun c => !isBreak c).2 else p
  if isEnd p.peek then .ok p.lineBreak.2 else .error .form

def atDocumentMark (p : Place) : Bool :=
  (startsWith "---".toList p.rest || startsWith "...".toList p.rest) && isTabGap (p.ahead 3)

end Place

/-- Whether a character may stand in the name of an anchor or a directive. -/
def isNameChar (c : Char) : Bool :=
  c.isAlphanum || c = '-' || c = '_'

def hexValue (s : List Char) : Option Nat :=
  s.foldl (fun n c => match n, hexDigit? c with
    | some n, some d => some (n * 16 + d)
    | _, _ => none) (some 0)

/-! ## Scalars in quotes -/

/-- The characters that an escape of one letter stands for. -/
def escapes : List (Char × Nat) :=
  [('0', 0), ('a', 7), ('b', 8), ('t', 9), ('\t', 9), ('n', 10), ('v', 11), ('f', 12), ('r', 13),
   ('e', 27), (' ', 32), ('"', 34), ('\\', 92), ('/', 47), ('N', 0x85), ('_', 0xa0), ('L', 0x2028),
   ('P', 0x2029)]

def escapeDigits : List (Char × Nat) :=
  [('x', 2), ('u', 4), ('U', 8)]

/-- Reads the line ends and blanks between lines of a quoted scalar. -/
def quotedBreaks : Nat → Place → Except Fault (List Char × Place)
  | 0, _ => .error .form
  | fuel + 1, p =>
    if p.atDocumentMark then .error .form
    else
      let p := (p.run fun c => c = ' ' || c = '\t').2
      match p.lineBreak with
      | ([], p) => .ok ([], p)
      | (b, p) => do
        let (bs, p) ← quotedBreaks fuel p
        return (b ++ bs, p)

/-- What stands for a line end and the breaks after it: one line end is a space. -/
def folded (b breaks : List Char) : List Char :=
  if b ≠ ['\n'] then b ++ breaks
  else if breaks.isEmpty then [' ']
  else breaks

def readEscape (fuel : Nat) (p : Place) : Except Fault (List Char × Place) :=
  match p.peek with
  | none => .error .form
  | some c =>
    match escapes.lookup c, escapeDigits.lookup c with
    | some n, _ => .ok ([Char.ofNat n], p.step)
    | none, some width =>
      let digits := p.step.rest.take width
      match hexValue digits with
      | some n =>
        if digits.length < width then .error .form
        else if 0x110000 ≤ n then .error (.scalar .number)
        else .ok ([Char.ofNat n], p.skip (width + 1))
      | none => .error .form
    | none, none => if isBreak c then quotedBreaks fuel p.lineBreak.2 else .error .form

def readQuoted (quote : Char) : Nat → Place → List Char → Except Fault (List Char × Place)
  | 0, _, _ => .error .form
  | fuel + 1, p, acc =>
    let (word, p) := p.run fun c =>
      c ≠ '\'' && c ≠ '"' && c ≠ '\\' && c ≠ ' ' && c ≠ '\t' && !isBreak c
    let acc := acc ++ word
    match p.peek with
    | none => .error .form
    | some c =>
      if c = quote then
        if quote = '\'' && p.ahead 1 = some '\'' then readQuoted quote fuel (p.skip 2) (acc ++ ['\''])
        else .ok (acc, p.step)
      else if c = '\\' && quote = '"' then do
        let (s, p) ← readEscape fuel p.step
        readQuoted quote fuel p (acc ++ s)
      else if c = ' ' || c = '\t' || isBreak c then
        let (blanks, p) := p.run fun c => c = ' ' || c = '\t'
        match p.lineBreak with
        | ([], p) => if p.peek.isNone then .error .form else readQuoted quote fuel p (acc ++ blanks)
        | (b, p) => do
          let (bs, p) ← quotedBreaks fuel p
          readQuoted quote fuel p (acc ++ folded b bs)
      else readQuoted quote fuel p.step (acc ++ [c])

/-! ## Plain scalars -/

def flowSigns : List Char := [',', '[', ']', '{', '}']

def plainLength (flow : Bool) : List Char → Nat
  | [] => 0
  | c :: r =>
    let colon := c = ':' && (isTabGap r.head? || flow && r.head?.any flowSigns.contains)
    if isTabGap (some c) || colon || flow && (c = '?' || flowSigns.contains c) then 0
    else plainLength flow r + 1

/-- Reads the lines without text after a line end in a plain scalar; `none` before a mark between
documents. -/
def plainBreaks : Nat → Place → Option (List Char) × Place
  | 0, p => (some [], p)
  | fuel + 1, p =>
    if p.atDocumentMark then (none, p)
    else
      let p := p.spaces
      match p.lineBreak with
      | ([], p) => (some [], p)
      | (b, p) =>
        let (bs, p) := plainBreaks fuel p
        (bs.map (b ++ ·), p)

/-- Reads what may stand between the words of a plain scalar, and tells whether a line ended. -/
def plainGap (fuel : Nat) (p : Place) : List Char × Place × Bool :=
  let (blanks, p) := p.run (· = ' ')
  match p.lineBreak with
  | ([], p) => (blanks, p, false)
  | (b, p) =>
    match plainBreaks fuel p with
    | (some bs, p) => (folded b bs, p, true)
    | (none, p) => ([], p, true)

/-- Reads a plain scalar. Tells whether it ended after a line end. -/
def readPlain (flow : Bool) (indent : Int) :
    Nat → Place → List Char → Bool → List Char × Place × Bool
  | 0, p, acc, fresh => (acc, p, fresh)
  | fuel + 1, p, acc, fresh =>
    let n := plainLength flow p.rest
    if n = 0 then (acc, p, fresh)
    else
      let acc := acc ++ p.rest.take n
      let (gap, p, fresh) := plainGap fuel (p.skip n)
      let ends := gap.isEmpty || p.peek = some '#' || !flow && (p.column : Int) < indent
      if ends || plainLength flow p.rest = 0 then (acc, p, fresh)
      else readPlain flow indent fuel p (acc ++ gap) fresh

/-! ## Block scalars -/

/-- What happens to the line ends at the end of a block scalar. -/
inductive Chomping where
  | clip
  | strip
  | keep
deriving DecidableEq

def readChomping (p : Place) : Chomping × Place :=
  match p.peek with
  | some '+' => (.keep, p.step)
  | some '-' => (.strip, p.step)
  | _ => (.clip, p)

def readIndentation (p : Place) : Except Fault (Option Nat × Place) :=
  match p.peek with
  | some c =>
    if c = '0' then .error .form
    else if c.isDigit then .ok (some (c.toNat - '0'.toNat), p.step)
    else .ok (none, p)
  | none => .ok (none, p)

/-- Reads the header of a block scalar, its signs in either order. -/
def blockHeader (p : Place) : Except Fault ((Chomping × Option Nat) × Place) := do
  let (first, p) := readChomping p
  let (width, p) ← readIndentation p
  let (second, p) := if first = .clip && width.isSome then readChomping p else (first, p)
  if isGap p.peek then return ((second, width), ← p.endLine) else throw .form

/-- Reads the empty lines at the start of a block scalar and the widest indentation among them and of
the first line. -/
def blockStart : Nat → Place → Nat → List Char × Nat × Place
  | 0, p, widest => ([], widest, p)
  | fuel + 1, p, widest =>
    let p := p.spaces
    let widest := max widest p.column
    match p.lineBreak with
    | ([], p) => ([], widest, p)
    | (b, p) =>
      let (bs, widest, p) := blockStart fuel p widest
      (b ++ bs, widest, p)

def spacesTo (indent : Nat) (p : Place) : Place :=
  p.skip (min (indent - p.column) (p.rest.takeWhile (· = ' ')).length)

/-- Reads the empty lines between lines of a block scalar. -/
def blockBreaks (indent : Nat) : Nat → Place → List Char × Place
  | 0, p => ([], p)
  | fuel + 1, p =>
    let p := spacesTo indent p
    match p.lineBreak with
    | ([], p) => ([], p)
    | (b, p) =>
      let (bs, p) := blockBreaks indent fuel p
      (b ++ bs, p)

/-- Reads the lines of a block scalar: the text, the last line end and the breaks after it. -/
def blockLines (fold : Bool) (indent : Nat) : Nat → Place → List Char → List Char →
    List Char × List Char × List Char × Place
  | 0, p, acc, breaks => (acc, [], breaks, p)
  | fuel + 1, p, acc, breaks =>
    let blank (c : Option Char) := c = some ' ' || c = some '\t'
    let leads := !blank p.peek
    let (line, p) := p.run fun c => !isBreak c
    let acc := acc ++ breaks ++ line
    let (b, p) := p.lineBreak
    let (breaks, p) := blockBreaks indent fuel p
    if p.column = indent && p.peek.isSome then
      let between :=
        if fold && b = ['\n'] && leads && !blank p.peek then (if breaks.isEmpty then [' '] else [])
        else b
      blockLines fold indent fuel p (acc ++ between) breaks
    else (acc, b, breaks, p)

/-- Reads a block scalar after its sign, inside a block indented so far. -/
def readBlock (fold : Bool) (outer : Int) (p : Place) : Except Fault (List Char × Place) := do
  let ((chomping, width), p) ← blockHeader p
  let fuel := p.rest.length + 1
  let least := (max (outer + 1) 1).toNat
  let (breaks, indent, p) := match width with
    | none =>
      let (breaks, widest, p) := blockStart fuel p 0
      (breaks, max least widest, p)
    | some w =>
      let indent := least + w - 1
      let (breaks, p) := blockBreaks indent fuel p
      (breaks, indent, p)
  let (text, b, breaks, p) :=
    if p.column = indent && p.peek.isSome then blockLines fold indent fuel p [] breaks
    else ([], [], breaks, p)
  return (match chomping with
    | .strip => text
    | .clip => text ++ b
    | .keep => text ++ b ++ breaks, p)

/-! ## Names, tags and directives -/

def readAnchor (p : Place) : Except Fault (List Char × Place) :=
  let (name, p) := p.run isNameChar
  let ends := isTabGap p.peek ||
    p.peek.any fun c => ['?', ':', ',', ']', '}', '%', '@', Char.ofNat 96].contains c
  if name.isEmpty || !ends then .error .form else .ok (name, p)

/-- Whether a character may stand in the address of a tag. -/
def isAddressChar (c : Char) : Bool :=
  c.isAlphanum || "-;/?:@&=+$,_.!~*'()[]%".toList.contains c

def unescapeAddress : List Char → List UInt8 → Except Fault (List Char)
  | '%' :: a :: b :: r, bytes =>
    match hexValue [a, b] with
    | some n => unescapeAddress r (bytes ++ [n.toUInt8])
    | none => .error .form
  | s, bytes =>
    match decodeStrict? ⟨bytes.toArray⟩ with
    | none => .error .form
    | some done =>
      match s with
      | [] => .ok done
      | c :: r => if c = '%' then .error .form else do return done ++ c :: (← unescapeAddress r [])

def readAddress (p : Place) : Except Fault (List Char × Place) := do
  let (address, p) := p.run isAddressChar
  if address.isEmpty then throw .form
  return (← unescapeAddress address [], p)

def readHandle (p : Place) : Except Fault (List Char × Place) :=
  if p.peek ≠ some '!' then .error .form
  else if p.ahead 1 = some ' ' then .ok (['!'], p.step)
  else
    let (name, q) := p.step.run isNameChar
    if q.peek = some '!' then .ok ('!' :: name ++ ['!'], q.step) else .error .form

def readTag (p : Place) : Except Fault (Token × Place) := do
  let (token, p) ← match p.ahead 1 with
    | some '<' => do
      let (suffix, p) ← readAddress (p.skip 2)
      if p.peek ≠ some '>' then throw .form
      pure (Token.tag none suffix, p.step)
    | c =>
      if isTabGap c then pure (Token.tag none ['!'], p.step)
      else if ((p.rest.drop 1).takeWhile fun c => !isGap (some c)).contains '!' then do
        let (handle, p) ← readHandle p
        let (suffix, p) ← readAddress p
        pure (Token.tag (some handle) suffix, p)
      else do
        let (suffix, p) ← readAddress p.step
        pure (Token.tag (some ['!']) suffix, p)
  if isGap p.peek then return (token, p) else throw .form

def readVersionNumber (p : Place) : Except Fault (Nat × Place) :=
  let (digits, p) := p.run Char.isDigit
  if digits.isEmpty then .error .form
  else .ok (digits.foldl (fun n c => n * 10 + (c.toNat - '0'.toNat)) 0, p)

def readDirective (p : Place) : Except Fault (Directive × Place) := do
  let (name, p) := p.run isNameChar
  if name.isEmpty || !isGap p.peek then throw .form
  let (d, p) ← match String.ofList name with
    | "YAML" => do
      let (major, p) ← readVersionNumber p.spaces
      if p.peek ≠ some '.' then throw .form
      let (_, p) ← readVersionNumber p.step
      if !isGap p.peek then throw .form
      pure (Directive.version major, p)
    | "TAG" => do
      let (handle, p) ← readHandle p.spaces
      if p.peek ≠ some ' ' then throw .form
      let (start, p) ← readAddress p.spaces
      if !isGap p.peek then throw .form
      pure (Directive.tag handle start, p)
    | _ => pure (Directive.other, (p.run fun c => !isBreak c).2)
  return (d, ← p.endLine)

end Marginalia.Yaml
