import Marginalia.Markdown.Element
import Marginalia.Markdown.Mark
import Marginalia.Text.Case

/-! # Markup in prose

A block of markup that starts a line is kept aside as it is written, up to the end of its outermost
element; its mark stands in a paragraph of its own. All other text goes through unchanged.
-/
namespace Marginalia.Markdown

open Text

/-- What is known while markup is looked for. -/
structure Extraction where
  /-- Inside a block that is kept aside. -/
  inRaw : Bool := false
  /-- Behind such a block on its last line. -/
  inTail : Bool := false
  /-- The open elements of the block, innermost first. -/
  openTags : List (List Char) := []
  /-- The block so far. -/
  block : List Char := []
  /-- The pieces of text that are not kept aside, last one first. -/
  out : List (List Char) := []
  kept : Kept
  /-- The element inside which no markup counts. -/
  verbatim : Option (List Char) := none

namespace Extraction

def emit (x : Extraction) (s : List Char) : Extraction :=
  { x with out := s :: x.out }

def stash (x : Extraction) (markup : List Char) : Extraction :=
  { x with out := rawMark x.kept.length :: x.out, kept := x.kept ++ [markup] }

def data (x : Extraction) (s : List Char) : Extraction :=
  let x := if x.inTail && s.contains '\n' then { x with inTail := false } else x
  if x.inRaw then { x with block := x.block ++ s } else x.emit s

/-- Whether a place, with the text before it, last character first, starts a line: at most three blanks
stand before it. -/
def atLineStart (done : List Char) : Bool :=
  let before := done.takeWhile (· ≠ '\n')
  before.length ≤ 3 && before.all isBlank

/-- Whether two line ends follow, blanks apart. -/
def blankLineFollows (s : List Char) : Bool :=
  match s.dropWhile (· = ' ') with
  | '\n' :: r => (r.dropWhile (· = ' ')).head? = some '\n'
  | _ => false

/-- A piece of markup without content. -/
def single (x : Extraction) (done s rest : List Char) (isBlock : Bool) : Extraction :=
  if x.inRaw || x.inTail then { x with block := x.block ++ s }
  else if atLineStart done && isBlock then
    let follows := blankLineFollows rest
    let x := if follows then x else { x with inTail := true }
    let x := match x.out with
      | item :: _ =>
        if endsWith ['\n'] item && !endsWith ['\n', '\n'] item then x.emit ['\n'] else x
      | [] => x
    (x.stash (if follows then s ++ ['\n'] else s)).emit ['\n', '\n']
  else x.emit s

def startTag (x : Extraction) (tag done s rest : List Char) : Extraction :=
  if tag = "hr".toList then x.single done s rest true
  else
    let x := if isBlockTag (String.ofList tag) && (x.inTail || atLineStart done) then
      { x with inRaw := true }.emit ['\n'] else x
    if x.inRaw then { x with openTags := tag :: x.openTags, block := x.block ++ s }
    else { x.emit s with verbatim := none }

def endTag (x : Extraction) (tag s rest : List Char) : Extraction :=
  if x.inRaw then
    let x := { x with block := x.block ++ s }
    let x := if x.openTags.contains tag then
      { x with openTags := (x.openTags.dropWhile (· ≠ tag)).drop 1 } else x
    if x.openTags.isEmpty then
      let x := if blankLineFollows rest then { x with block := x.block ++ ['\n'] }
        else { x with inTail := true }
      let x := (x.stash x.block).emit ['\n', '\n']
      { x with inRaw := false, block := [] }
    else x
  else x.emit s

end Extraction

def isTagLetter (c : Char) : Bool :=
  c.isAlpha

def endsTagName (c : Char) : Bool :=
  c = '\t' || c = '\n' || c = '\r' || c = '\x0c' || c = ' ' || c = '/' || c = '>' || c.toNat = 0

/-- What separates attributes: blanks, and slashes that do not end the tag. -/
def attrGap : Pattern :=
  .star (.alt (.one isBlank) (.lit "/" ++ .notAhead (.lit ">")))

def beforeAttr : Pattern :=
  .before fun c => c.any fun c => isBlank c || c = '\'' || c = '"' || c = '/'

/-- The value of an attribute in quotes, or in none. -/
def attrValue (bare : Char → Bool) : Pattern :=
  .firstOf [.lit "'" ++ .many (· ≠ '\'') 0 none ++ .lit "'",
    .lit "\"" ++ .many (· ≠ '"') 0 none ++ .lit "\"",
    .notAhead (.oneOf "'\"") ++ .many bare 0 none]

def valueSign : Pattern :=
  .many isBlank 0 none ++ .many (· = '=') 1 none ++ .many isBlank 0 none

def wholeTag : Pattern :=
  .lit "<" ++ .one isTagLetter ++ .many (fun c => !endsTagName c && c ≠ '`') 0 none ++
    .opt (.many (fun c => isBlank c || c = '/') 0 none ++
      .star (beforeAttr ++ .one (fun c => !isBlank c && c ≠ '/' && c ≠ '>' && c ≠ '`') ++
        .many (fun c => !isBlank c && c ≠ '/' && c ≠ '=' && c ≠ '>') 0 none ++
        .opt (valueSign ++ attrValue (fun c => !isBlank c && c ≠ '>' && c ≠ '`') ++
          .star (.many isBlank 0 none ++ .lit ",")) ++
        attrGap)) ++
    .many isBlank 0 none

def tagName : Pattern :=
  .group 1 (.one isTagLetter ++ .many (fun c => !endsTagName c) 0 none) ++ attrGap

def tagAttr : Pattern :=
  beforeAttr ++ .one (fun c => !isBlank c && c ≠ '/' && c ≠ '>') ++
    .many (fun c => !isBlank c && c ≠ '/' && c ≠ '=' && c ≠ '>') 0 none ++
    .opt (valueSign ++ attrValue (fun c => !isBlank c && c ≠ '>')) ++ attrGap

def closingTag : Pattern :=
  .lit "</" ++ .many isBlank 0 none ++
    .group 1 (.one isTagLetter ++ .many (fun c => c.isAlphanum || "-.:_".toList.contains c) 0 none) ++
    .many isBlank 0 none ++ .lit ">"

/-- The closing tag of an element inside which no markup counts, in letters of any case. -/
def verbatimEnd (tag : List Char) : Pattern :=
  .lit "</" ++ .many isBlank 0 none ++
    (tag.map fun t => Pattern.one fun c => c.toLower = t).foldr (· ++ ·) .empty ++
    .many isBlank 0 none ++ .lit ">"

def commentEnd : Pattern :=
  .lit "--" ++ .many isBlank 0 none ++ .lit ">"

def sectionEnd : Pattern :=
  .lit "]" ++ .many isBlank 0 none ++ .lit "]" ++ .many isBlank 0 none ++ .lit ">"

def charNumber : Pattern :=
  .lit "&#" ++ .group 1 (.alt (.many Char.isDigit 1 none)
    (.oneOf "xX" ++ .many (fun c => (hexDigit? c).isSome) 1 none)) ++
    .one fun c => (hexDigit? c).isNone

def charName : Pattern :=
  .lit "&" ++ .group 1 (.one isTagLetter ++
    .many (fun c => c.isAlphanum || c = '-' || c = '.') 0 none) ++ .lit ";"

/-- How long an opening tag is; nothing when it is not finished. -/
def tagLength? (done rest : List Char) : Option Nat :=
  (wholeTag.matchAt? done rest).bind fun m =>
    let n := m.text.length
    match m.rest with
    | '>' :: _ => some (n + 1)
    | '/' :: '>' :: _ => some (n + 2)
    | [] => none
    | c :: _ => if c.isAlpha || c = '=' || c = '/' then none else some n

def skipAttrs : Nat → List Char → List Char → List Char
  | 0, _, rest => rest
  | fuel + 1, done, rest =>
    if rest.isEmpty then rest
    else match tagAttr.matchAt? done rest with
      | some m => if m.text.isEmpty then rest else skipAttrs fuel m.done m.rest
      | none => rest

/-- What one step of the search does: the new state, and how many characters it reads; nothing read
means that the construct is not finished. -/
abbrev Read := Option (Extraction × Nat)

def readStartTag (x : Extraction) (done rest : List Char) : Extraction × Nat :=
  if startsWith "</>".toList rest then (x.data "</>".toList, 3)
  else match tagLength? done rest with
    | none => (x.data ['<'], 1)
    | some n =>
      let whole := rest.take n
      let after := rest.drop n
      match tagName.matchAt? ('<' :: done) (whole.drop 1) with
      | none => (x.data ['<'], 1)
      | some m =>
        let tag := lower (m.group 1)
        let close := strip (skipAttrs n m.done m.rest)
        if close = "/>".toList then
          (x.single done whole after (isBlockTag (String.ofList tag)), n)
        else if close = ['>'] then
          let verbatim := tag = "script".toList || tag = "style".toList
          let x := if verbatim then { x with verbatim := some tag } else x
          let y := x.startTag tag done whole after
          (if verbatim then y else { y with verbatim := x.verbatim }, n)
        else (x.data whole, n)

/-- The length of a text up to the next sign that closes a tag. -/
def closeLength? (s : List Char) : Option Nat :=
  (cut? ['>'] s).map fun p => p.1.length + 1

/-- Reads markup that is none, up to its closing sign. -/
def readBogus (x : Extraction) (done rest : List Char) : Read :=
  (closeLength? (rest.drop 2)).map fun n =>
    (x.single done (rest.take (n + 2)) (rest.drop (n + 2)) false, n + 2)

def readEndTag (x : Extraction) (done rest : List Char) : Read :=
  match closeLength? rest with
  | none => none
  | some n =>
    match closingTag.match? rest with
    | some m =>
      let tag := lower (m.group 1)
      if x.verbatim.any (· ≠ tag) then some (x.data (rest.take n), n)
      else some ({ x.endTag tag (rest.take n) (rest.drop n) with verbatim := none }, n)
    | none =>
      if x.verbatim.isSome then some (x.data (rest.take n), n)
      else match tagName.match? (rest.drop 2) with
        | none => readBogus x done rest
        | some m =>
          let read := 2 + m.text.length
          match closeLength? (rest.drop read) with
          | some k => some (x.endTag (lower (m.group 1)) (rest.take n) (rest.drop n), read + k)
          | none => some (x.endTag (lower (m.group 1)) (rest.take n) (rest.drop n), rest.length)

/-- Reads from an opening sign up to a closing pattern, and writes it with the signs given. -/
def readUpTo (x : Extraction) (done rest : List Char) (skip : Nat) (close : Pattern)
    (before after : String) : Read :=
  (close.search? [] (rest.drop skip)).map fun (inner, m) =>
    let s := before.toList ++ inner.reverse ++ after.toList
    (x.single done s (rest.drop s.length) true, skip + inner.length + m.text.length)

def readDeclaration (x : Extraction) (done rest : List Char) : Read :=
  if Extraction.atLineStart done || x.inTail then
    if startsWith "<![CDATA[".toList rest then readUpTo x done rest 3 sectionEnd "<![" "]]>"
    else if startsWith "<![".toList rest then
      match readBogus x done rest with
      | some r => some r
      | none => some (x.data ['<'], 1)
    else if lower (rest.take 9) = "<!doctype".toList then
      (closeLength? (rest.drop 9)).map fun n =>
        (x.single done (rest.take (n + 9)) (rest.drop (n + 9)) true, n + 9)
    else readBogus x done rest
  else some (x.data "<!".toList, 2)

def readInstruction (x : Extraction) (done rest : List Char) : Read :=
  if Extraction.atLineStart done || x.inTail then readUpTo x done rest 2 (.lit "?>") "<?" "?>"
  else some (x.data "<?".toList, 2)

def readAngle (x : Extraction) (done rest : List Char) : Read :=
  match rest with
  | '<' :: '/' :: '>' :: _ => some (readStartTag x done rest)
  | '<' :: '/' :: _ => readEndTag x done rest
  | '<' :: '!' :: '-' :: '-' :: _ => readUpTo x done rest 4 commentEnd "<!--" "-->"
  | '<' :: '?' :: _ => readInstruction x done rest
  | '<' :: '!' :: _ => readDeclaration x done rest
  | '<' :: c :: _ => if isTagLetter c then some (readStartTag x done rest) else some (x.data ['<'], 1)
  | _ => none

/-- The length of something unfinished that is taken as text: up to the end of a tag, or else up to
the next one. -/
def unfinishedLength (rest : List Char) : Nat :=
  match closeLength? (rest.drop 1) with
  | some n => n + 1
  | none =>
    match cut? ['<'] (rest.drop 1) with
    | some (a, _) => a.length + 1
    | none => 1

/-- Goes through text, from the first sign that may start markup to the next. After a numbered
character that is none for the second time, the rest is text. -/
def extractFrom : Nat → Bool → Extraction → List Char → List Char → Extraction
  | 0, _, x, _, rest => x.data rest
  | _, _, x, _, [] => x
  | fuel + 1, again, x, done, rest =>
    let next (x : Extraction) (n : Nat) (again : Bool) : Extraction :=
      extractFrom fuel again x ((rest.take n).reverse ++ done) (rest.drop n)
    match x.verbatim with
    | some tag =>
      match (verbatimEnd tag).search? [] rest with
      | none => x.data rest
      | some ([], _) =>
        match readEndTag x done rest with
        | some (x, n) => next x n again
        | none => x.data rest
      | some (before, _) => next (x.data before.reverse) before.length again
    | none =>
      let plain := rest.takeWhile fun c => c ≠ '<' && c ≠ '&'
      if !plain.isEmpty then next (x.data plain) plain.length again
      else if startsWith "&#".toList rest then
        match charNumber.match? rest with
        | some m =>
          let n := m.text.length
          let closed := endsWith [';'] m.text
          next (x.single done ("&#".toList ++ m.group 1 ++ [';'])
            (rest.drop (3 + (m.group 1).length)) false) (if closed then n else n - 1) again
        | none =>
          if again || !rest.contains ';' then x.data rest
          else next (x.data "&#".toList) 2 true
      else if startsWith ['&'] rest then
        match charName.match? rest with
        | some m =>
          next (x.single done m.text m.rest false) m.text.length again
        | none => next (x.data ['&']) 1 again
      else match readAngle x done rest with
        | some (x, n) => next x n again
        | none =>
          let n := unfinishedLength rest
          next (x.data (rest.take n)) n true

def withoutMarkup (text : List Char) : StateM Kept (List Char) := fun kept =>
  let x := extractFrom (2 * text.length + 2) false { kept } [] text
  let x := if x.block.isEmpty then x else x.stash x.block
  (x.out.reverse.flatten, x.kept)

end Marginalia.Markdown
