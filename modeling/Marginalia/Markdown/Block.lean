import Marginalia.Markdown.Table
import Marginalia.Text.Case

/-! # Blocks

Text is cut into blocks at blank lines, and each block is taken by the first rule that applies to it:
code, tables, headings, rulers, lists, quotes, definitions of links, paragraphs. A rule may put what is
left of a block back in front of the others, and may read a part of the block inside another element.
-/
namespace Marginalia.Markdown

open Text

/-- Where a link that is defined by name leads, and its title. -/
structure Reference where
  target : List Char
  title : Option (List Char)

abbrev References := List (List Char × Reference)

/-- What a block stands in, as far as it matters for reading it. -/
inductive Mode where
  | plain
  /-- In an item of a list without blank lines. -/
  | list
  /-- In an item after a blank line. -/
  | looseList
  /-- In an item, with its indent already taken away. -/
  | detabbed
  | quote
deriving DecidableEq

/-- The element that is being filled, the blocks that are left and the links defined so far. -/
structure Progress where
  parent : Element
  blocks : List (List Char)
  refs : References

abbrev Reader := Mode → Element → List (List Char) → References → Element × References

/-- A rule takes the first of the blocks, or does not apply. -/
abbrev Rule := Reader → Mode → Element → List Char → List (List Char) → References → Option Progress

/-- Blocks with one put in front, unless it is empty. -/
def consBlock (b : List Char) (bs : List (List Char)) : List (List Char) :=
  if b.isEmpty then bs else b :: bs

def blocksOf : List Char → List (List Char)
  | [] => [[]]
  | '\n' :: '\n' :: s => [] :: blocksOf s
  | c :: s =>
    match blocksOf s with
    | b :: bs => (c :: b) :: bs
    | [] => [[c]]

def isIndented (s : List Char) : Bool :=
  startsWith [' ', ' ', ' ', ' '] s

/-- Lines with an indent or nothing in them, the indent taken away, and the lines from the first other
one on. -/
def detab : List (List Char) → List (List Char) × List (List Char)
  | [] => ([], [])
  | l :: ls =>
    if isIndented l then let (a, b) := detab ls; (l.drop 4 :: a, b)
    else if allBlank l then let (a, b) := detab ls; ([] :: a, b)
    else ([], l :: ls)

/-- Takes so many indents away from every line that has them. -/
def looseDetab (level : Nat) (s : List Char) : List Char :=
  let indent := List.replicate (4 * level) ' '
  unlines ((lines s).map fun l => (after? indent l).getD l)

def Element.code? (e : Element) : Option Element :=
  if e.tag = "pre" then e.children.head?.filter (·.tag = "code") else none

/-- Puts text behind that of the block of code an element ends with. -/
def Element.extendCode (e : Element) (s : List Char) : Option Element :=
  e.last?.bind fun pre => pre.code?.map fun code =>
    e.setLast { pre with children := { code with text := code.text ++ s } :: pre.children.tail }

/-- An empty line: it belongs to the code before it, and else to nothing. -/
def emptyRule : Rule := fun _ _ parent block rest refs =>
  if block.isEmpty || block.head? = some '\n' then
    let filler := if block.isEmpty then ['\n', '\n'] else ['\n']
    some ⟨(parent.extendCode filler).getD parent, consBlock (block.drop 1) rest, refs⟩
  else none

def isListTag (tag : String) : Bool :=
  tag = "ul" || tag = "ol"

/-- Goes down last children of lists while an indent is deeper than the lists passed: how many steps
down, and how many lists. -/
def descend (indent : Nat) : Nat → Nat → Element → Nat × Nat
  | 0, level, _ => (0, level)
  | fuel + 1, level, e =>
    if indent ≤ level then (0, level)
    else match e.last? with
      | none => (0, level)
      | some child =>
        if isListTag child.tag || child.tag = "li" then
          let (d, l) := descend indent fuel (if isListTag child.tag then level + 1 else level) child
          (d + 1, l)
        else (0, level)

/-- Changes the element so many last children down. -/
def changeAt (f : Element → Element × References) : Nat → Element → Element × References
  | 0, e => f e
  | d + 1, e =>
    match e.last? with
    | none => f e
    | some child =>
      let (child, refs) := changeAt f d child
      (e.setLast child, refs)

/-- An element whose text is moved to a paragraph before its children. -/
def Element.wrapText (e : Element) : Element :=
  if e.text.isEmpty then e
  else { e with text := [] }.pushFront { tag := "p", text := e.text }

def indentRule : Rule := fun read mode parent block rest refs =>
  if isIndented block && mode ≠ .detabbed &&
      (parent.tag = "li" || parent.last?.any (isListTag ·.tag)) then
    let indent := (block.takeWhile (· = ' ')).length / 4
    let (depth, level) := descend indent (block.length + 1) (if mode = .list then 1 else 0) parent
    let block := looseDetab level block
    let inside (e : Element) := read .detabbed e [block] refs
    let done : Element × References :=
      if parent.tag = "li" then
        match parent.last? with
        | some child =>
          if isListTag child.tag then
            let (child, refs) := inside child
            (parent.setLast child, refs)
          else inside parent
        | none => inside parent
      else changeAt (fun sibling =>
        if sibling.tag = "li" then inside sibling
        else match sibling.last? with
          | some item =>
            if item.tag = "li" then
              let (item, refs) := read .detabbed item.wrapText (blocksOf block) refs
              (sibling.setLast item, refs)
            else
              let (item, refs) := inside { tag := "li" }
              (sibling.push item, refs)
          | none =>
            let (item, refs) := inside { tag := "li" }
            (sibling.push item, refs)) depth parent
    some ⟨done.1, rest, done.2⟩
  else none

/-- An indented block of code; it goes on the block of code before it. -/
def codeRule : Rule := fun _ _ parent block rest refs =>
  if isIndented block then
    let (inside, after) := detab (lines block)
    let code := escapeText (trimEnd (unlines inside))
    let parent := match parent.extendCode ('\n' :: code ++ ['\n']) with
      | some parent => parent
      | none => parent.push
          { tag := "pre", children := [{ tag := "code", text := code ++ ['\n'], fixed := true }] }
    some ⟨parent, consBlock (unlines after) rest, refs⟩
  else none

def tableRule (t : Option TableSetup) : Rule := fun _ _ parent block rest refs =>
  t.bind fun t => (tableHead? block).map fun h => ⟨parent.push (tableElement t h block), rest, refs⟩

def hashPattern : Pattern :=
  .alt .textStart (.lit "\n") ++ .group 1 (.many (· = '#') 1 (some 6)) ++
    .group 2 (.lazyStar (.alt (.lit "\\" ++ .one (· ≠ '\n')) (.one (· ≠ '\\')))) ++
    .many (· = '#') 0 none ++ .alt (.lit "\n") .lastLineEnd

/-- A heading after number signs. What stands before it is read first, what follows later. -/
def hashRule : Rule := fun read mode parent block rest refs =>
  (hashPattern.search? [] block).map fun (before, m) =>
    let (parent, refs) :=
      if before.isEmpty then (parent, refs) else read mode parent [before.reverse] refs
    let tag := "h" ++ toString (m.group 1).length
    let after := if mode = .looseList then looseDetab 1 m.rest else m.rest
    ⟨parent.push { tag, text := strip (m.group 2) }, consBlock after rest, refs⟩

def underlinePattern : Pattern :=
  .few (· ≠ '\n') 0 ++ .lit "\n" ++ .many (fun c => c = '=' || c = '-') 1 none ++
    .many (· = ' ') 0 none ++ .alt (.lit "\n") .lineEnd

def underlineRule : Rule := fun _ _ parent block rest refs =>
  if (underlinePattern.match? block).isSome then
    match lines block with
    | title :: rule :: after =>
      let tag := if rule.head? = some '=' then "h1" else "h2"
      let rest := if after.isEmpty then rest else unlines after :: rest
      some ⟨parent.push { tag, text := strip title }, rest, refs⟩
    | _ => none
  else none

/-- A run of one sign, at least three of it, with at most two spaces after each. -/
def rulerOf (c : Char) : Pattern :=
  let part := Pattern.many (· = c) 1 none ++ .many (· = ' ') 0 (some 2)
  part ++ part ++ part ++ .star part

def rulerPattern : Pattern :=
  .lineStart ++ .many (· = ' ') 0 (some 3) ++
    .ahead (.group 1 (.firstOf [rulerOf '-', rulerOf '_', rulerOf '*'])) ++ .again 1 ++
    .many (· = ' ') 0 none ++ .lineEnd

def rulerRule : Rule := fun read mode parent block rest refs =>
  (rulerPattern.search? [] block).map fun (before, m) =>
    let pre := dropEndWhile (· = '\n') before.reverse
    let (parent, refs) := if pre.isEmpty then (parent, refs) else read mode parent [pre] refs
    ⟨parent.push { tag := "hr" }, consBlock (m.rest.dropWhile (· = '\n')) rest, refs⟩

/-- Which items a list takes. -/
inductive ListKind where
  | numbered
  | bulleted
deriving DecidableEq

def ListKind.tag : ListKind → String
  | numbered => "ol"
  | bulleted => "ul"

def numberSign : Pattern :=
  .many isDecimal 1 none ++ .lit "."

def bulletSign : Pattern :=
  .oneOf "*+-"

def ListKind.sign : ListKind → Pattern
  | numbered => numberSign
  | bulleted => bulletSign

/-- An item with a sign and its text, after at most three spaces. -/
def itemPattern (sign : Pattern) : Pattern :=
  .many (· = ' ') 0 (some 3) ++ .group 1 sign ++ .many (· = ' ') 1 none ++
    .group 2 (.many (· ≠ '\n') 0 none)

def innerItemPattern : Pattern :=
  .many (· = ' ') 4 (some 7) ++ .alt numberSign bulletSign ++ .many (· = ' ') 1 none

/-- The items of a block, last one first, with the number of the first one. -/
def itemsFrom (sign : Pattern) : List (List Char) → List (List Char) → List (List Char)
  | items, [] => items
  | items, l :: ls =>
    match (itemPattern sign).match? l, items with
    | some m, items => itemsFrom sign (m.group 2 :: items) ls
    | none, item :: before =>
      if (innerItemPattern.match? l).isSome && !isIndented item then
        itemsFrom sign (l :: item :: before) ls
      else itemsFrom sign ((item ++ '\n' :: l) :: before) ls
    | none, [] => itemsFrom sign [l] ls

/-- The items of a list that is already there, after the last of which a new one follows: its text is
moved to a paragraph, and so is the text after its last child. -/
def loosenLast (list : Element) : Element :=
  match list.last? with
  | none => list
  | some item =>
    let item := item.wrapText
    let item := match item.last? with
      | some child =>
        if child.tail.isEmpty then item
        else (item.setLast { child with tail := [] }).push
          { tag := "p", text := trimStart child.tail }
      | none => item
    list.setLast item

/-- Reads items into a list: an indented one belongs to the item before it. -/
def readItems (read : Reader) : List (List Char) → Element → References → Element × References
  | [], list, refs => (list, refs)
  | item :: items, list, refs =>
    match isIndented item, list.last? with
    | true, some li =>
      let (li, refs) := read .list li [item] refs
      readItems read items (list.setLast li) refs
    | _, _ =>
      let (li, refs) := read .list { tag := "li" } [item] refs
      readItems read items (list.push li) refs

def listRule (strict : Bool) (kind : ListKind) : Rule := fun read _ parent block rest refs =>
  (((itemPattern kind.sign).match? block).map fun first =>
    let sign := if strict then kind.sign else .alt numberSign bulletSign
    let items := (itemsFrom sign [] (lines block)).reverse
    let continues (tag : String) := if strict then tag = kind.tag else isListTag tag
    match parent.last?.filter (continues ·.tag) with
    | some list =>
      let (li, refs) := read .looseList { tag := "li" } [items.headD []] refs
      let (list, refs) := readItems read items.tail ((loosenLast list).push li) refs
      ⟨parent.setLast list, rest, refs⟩
    | none =>
      if isListTag parent.tag then
        let (parent, refs) := readItems read items parent refs
        ⟨parent, rest, refs⟩
      else
        let number := (first.group 1).takeWhile isDecimal
        let attrs := if strict && kind = .numbered && number ≠ ['1'] then [("start", number)] else []
        let (list, refs) := readItems read items { tag := kind.tag, attrs } refs
        ⟨parent.push list, rest, refs⟩)

/-- The sign of a quote, after at most three spaces, and the text after it. -/
def quotePattern : Pattern :=
  .alt .textStart (.lit "\n") ++ .many (· = ' ') 0 (some 3) ++ .lit ">" ++
    .many (· = ' ') 0 (some 1) ++ .group 1 (.many (· ≠ '\n') 0 none)

/-- A line without the sign of a quote. -/
def unquote (l : List Char) : List Char :=
  match quotePattern.match? l with
  | some m => if strip l = ['>'] then [] else m.group 1
  | none => if strip l = ['>'] then [] else l

/-- A quote; it goes on the quote before it. -/
def quoteRule : Rule := fun read mode parent block rest refs =>
  (quotePattern.search? [] block).map fun (before, m) =>
    let (parent, refs) := read mode parent [before.reverse] refs
    let inner := unlines ((lines (m.text ++ m.rest)).map unquote)
    match parent.last?.filter (·.tag = "blockquote") with
    | some quote =>
      let (quote, refs) := read .quote quote (blocksOf inner) refs
      ⟨parent.setLast quote, rest, refs⟩
    | none =>
      let (quote, refs) := read .quote { tag := "blockquote" } (blocksOf inner) refs
      ⟨parent.push quote, rest, refs⟩

/-- The definition of a link: its name in brackets, where it leads, and a title. -/
def definitionPattern : Pattern :=
  .lineStart ++ .many (· = ' ') 0 (some 3) ++ .lit "[" ++
    .group 1 (.many (fun c => c ≠ '[' && c ≠ ']') 0 none) ++ .lit "]:" ++ .many (· = ' ') 0 none ++
    .opt (.lit "\n") ++ .many (· = ' ') 0 none ++ .group 2 (.many (fun c => !isBlank c) 1 none) ++
    .many (· = ' ') 0 none ++ .opt (.lit "\n" ++ .many (· = ' ') 0 none) ++
    .opt (.alt
      (.group 4 (.oneOf "\"'") ++ .group 5 (.many (· ≠ '\n') 0 none) ++ .again 4 ++
        .many (· = ' ') 0 none)
      (.lit "(" ++ .group 6 (.many (· ≠ '\n') 0 none) ++ .lit ")" ++ .many (· = ' ') 0 none)) ++
    .lineEnd

/-- A defined link leaves nothing in the text. -/
def definitionRule : Rule := fun _ _ parent block rest refs =>
  (definitionPattern.search? [] block).map fun (before, m) =>
    let target := dropEndWhile (· = '>') ((m.group 2).dropWhile (· = '<'))
    let title := [m.group 5, m.group 6].find? (!·.isEmpty)
    let rest := if allBlank m.rest then rest else m.rest.dropWhile (· = '\n') :: rest
    let rest := if allBlank before then rest
      else dropEndWhile (· = '\n') before.reverse :: rest
    ⟨parent, rest, (lower (strip (m.group 1)), ⟨target, title⟩) :: refs⟩

/-- Any other text: a paragraph, or text of an item in a list without blank lines. -/
def paragraphRule : Rule := fun _ mode parent block rest refs =>
  if allBlank block then some ⟨parent, rest, refs⟩
  else if mode = .list then
    match parent.last? with
    | some child =>
      some ⟨parent.setLast { child with tail := child.tail ++ '\n' :: block }, rest, refs⟩
    | none =>
      let text := if parent.text.isEmpty then trimStart block else parent.text ++ '\n' :: block
      some ⟨{ parent with text }, rest, refs⟩
  else some ⟨parent.push { tag := "p", text := trimStart block }, rest, refs⟩

/-- The rules in the order in which they are tried. -/
def rules (s : Setup) : List Rule :=
  [emptyRule, indentRule, codeRule, tableRule s.tables, hashRule, underlineRule, rulerRule,
   listRule s.strictLists .numbered, listRule s.strictLists .bulleted, quoteRule, definitionRule,
   paragraphRule]

/-- Reads blocks by the rules; the fuel covers every block and every step inside one. -/
def readBlocks (rs : List Rule) : Nat → Reader
  | 0, _, parent, _, refs => (parent, refs)
  | _ + 1, _, parent, [], refs => (parent, refs)
  | fuel + 1, mode, parent, block :: rest, refs =>
    match rs.findSome? fun r => r (readBlocks rs fuel) mode parent block rest refs with
    | some p => readBlocks rs fuel mode p.parent p.blocks p.refs
    | none => readBlocks rs fuel mode parent rest refs

/-- Reads a text into a tree, and the links it defines. -/
def readText (s : Setup) (text : List Char) : Element × References :=
  readBlocks (rules s) (8 * text.length + 64) .plain { tag := "div" } (blocksOf text) []

end Marginalia.Markdown
