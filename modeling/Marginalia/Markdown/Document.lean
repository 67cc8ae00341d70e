import Marginalia.Markdown.Fence
import Marginalia.Markdown.RawHtml
import Marginalia.Markdown.Span
import Marginalia.Text.Utf8

/-! # Prose as markup

A text is cleaned, its fenced code and its markup are kept aside, its blocks become a tree, spans are
found in it, and it is printed; then what was kept aside is put back.
-/
namespace Marginalia.Markdown

open Text

/-- Spaces instead of tabs, up to columns that are multiples of four. -/
def expandTabs : Nat → List Char → List Char
  | _, [] => []
  | column, c :: s =>
    if c = '\t' then
      let n := 4 - column % 4
      List.replicate n ' ' ++ expandTabs (column + n) s
    else if c = '\n' || c = '\r' then c :: expandTabs 0 s
    else c :: expandTabs (column + 1) s

/-- Lines of spaces become empty, the first line apart. -/
def emptyBlankLines (s : List Char) : List Char :=
  match lines s with
  | [] => []
  | first :: rest => unlines (first :: clean rest)
where
  /-- Empties lines of spaces, the last line apart. -/
  clean : List (List Char) → List (List Char)
    | [] => []
    | [l] => [l]
    | l :: ls => (if l.all (· = ' ') then [] else l) :: clean ls

/-- The text as it is read: without the characters of marks, with one kind of line end and two of them
at its end, and without tabs. -/
def clean (s : List Char) : List Char :=
  let s := s.filter fun c => c ≠ markStart && c ≠ markEnd
  emptyBlankLines (expandTabs 0 (foldNewlines s ++ ['\n', '\n']))

def prepared (s : Setup) (text : List Char) : StateM Kept (List Char) := do
  withoutMarkup (← withoutFences s (clean text))

/-- The tree of blocks of a text, the links it defines and what is kept aside. -/
def blockTree (s : Setup) (text : List Char) : Element × References × Kept :=
  let (text, kept) := (prepared s text).run []
  let (root, refs) := readText s text
  (root, refs, kept)

def title? (s : Setup) (text : List Char) : Option (List Char) :=
  match (blockTree s text).1.children with
  | e :: _ => if e.tag = "h1" then some (strip e.text) else none
  | [] => none

mutual

/-- Finishes the blocks of code in an element: each is kept aside, and a paragraph stands for it. -/
def keepCode (c : CodeSetup) : Element → StateM Kept Element
  | ⟨tag, attrs, text, fixed, children, tail⟩ => do
    match tag, children with
    | "pre", [⟨"code", _, code, _, _, _⟩] =>
      let code := replaceAll "&amp;".toList ['&'] (replaceAll "&gt;".toList ['>']
        (replaceAll "&lt;".toList ['<'] code))
      return { tag := "p", text := ← keep (codeBlock c code) }
    | _, _ => return ⟨tag, attrs, text, fixed, ← keepAllCode c children, tail⟩

def keepAllCode (c : CodeSetup) : List Element → StateM Kept (List Element)
  | [] => pure []
  | e :: es => do
    let e ← keepCode c e
    return e :: (← keepAllCode c es)

end

def lineTail (tail : List Char) : List Char :=
  if allBlank tail then ['\n'] else tail

mutual

/-- Puts line ends between elements on lines of their own. -/
def breakLines : Element → Element
  | ⟨tag, attrs, text, fixed, children, tail⟩ =>
    if isBlockTag tag && tag ≠ "code" && tag ≠ "pre" then
      let opens := allBlank text && children.head?.any (isBlockTag ·.tag)
      ⟨tag, attrs, if opens then ['\n'] else text, fixed, breakChildren children, lineTail tail⟩
    else ⟨tag, attrs, text, fixed, children, lineTail tail⟩

/-- Puts line ends between those of the elements that stand on lines of their own. -/
def breakChildren : List Element → List Element
  | [] => []
  | e :: es => (if isBlockTag e.tag then breakLines e else e) :: breakChildren es

end

mutual

/-- The last touches: a line break ends its line, code ends with one line end, and escaped characters
are put back outside code. -/
def finish : Element → Element
  | ⟨tag, attrs, text, fixed, children, tail⟩ =>
    let tail := if tag = "br" then (if allBlank tail then ['\n'] else '\n' :: tail) else tail
    let children := match tag, children with
      | "pre", ⟨"code", a, code, f, [], t⟩ :: rest =>
        ⟨"code", a, trimEnd code ++ ['\n'], f, [], restoreChars t⟩ :: finishAll rest
      | _, children => finishAll children
    let text := if tag = "code" then text else restoreChars text
    ⟨tag, attrs.map fun (k, v) => (k, restoreChars v), text, fixed, children, restoreChars tail⟩

def finishAll : List Element → List Element
  | [] => []
  | e :: es => finish e :: finishAll es

end

/-- Whether a piece of markup stands on lines of its own. -/
def isBlockMarkup (s : List Char) : Bool :=
  match s with
  | '<' :: r =>
    let r := match r with
      | '/' :: r => r
      | r => r
    let word := r.takeWhile fun c => c ≠ ' ' && c ≠ '>'
    match word with
    | [] => false
    | c :: _ =>
      c = '!' || c = '?' || c = '@' || c = '%' ||
        isBlockTag (String.ofList (dropEndWhile (· = '/') (lower word)))
  | _ => false

/-- The mark of kept markup, in a paragraph of its own or not, and what follows it. -/
def keptMark? (s : List Char) : Option (Bool × Nat × List Char) :=
  match after? "<p>".toList s with
  | some r =>
    match numbered? rawWord r with
    | some (n, r) => (after? "</p>".toList r).map fun rest => (true, n, rest)
    | none => none
  | none => (numbered? rawWord s).map fun (n, rest) => (false, n, rest)

/-- Puts kept markup back for its marks, in kept markup too. A paragraph around a block goes away. -/
def putBack (kept : Kept) : Nat → List Char → List Char
  | 0, s => s
  | _, [] => []
  | fuel + 1, c :: s =>
    match keptMark? (c :: s) with
    | none => c :: putBack kept fuel s
    | some (wrapped, n, rest) =>
      match kept[n]? with
      | none => c :: putBack kept fuel s
      | some markup =>
        let whole := if wrapped && !isBlockMarkup markup then
          "<p>".toList ++ markup ++ "</p>".toList else markup
        putBack kept fuel whole ++ putBack kept fuel rest

/-- Prose as markup. -/
def render (s : Setup) (text : List Char) : List Char :=
  if allBlank text then []
  else
    let (root, refs, kept) := blockTree s text
    let (root, kept) := match s.code with
      | some c => (keepCode c root).run kept
      | none => (root, kept)
    let fuel := 4 * text.length + 200
    let (children, aside) := (spanElements (spanRules s refs) fuel root.children).run { kept }
    let root := finish (breakLines { root with children })
    let printed := strip (root.text ++ childrenMarkup root.children)
    let size := total (aside.kept.map List.length)
    strip (replaceAll ampMark ['&'] (putBack aside.kept (printed.length + size + 1) printed))

end Marginalia.Markdown
