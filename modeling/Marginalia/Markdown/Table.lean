import Marginalia.Markdown.Element
import Marginalia.Markdown.Setup

/-! # Tables

A table is a block whose second line rules off its first. Cells end at bars, except inside code and
where a backslash stands before the bar.
-/
namespace Marginalia.Markdown

open Text

/-- What a row is read as: other text, a run of backticks, or a bar. -/
inductive RowPiece where
  | other (s : List Char)
  /-- Backticks, after a backslash or not. -/
  | ticks (escaped : Bool) (count : Nat)
  | bar

def RowPiece.text : RowPiece → List Char
  | other s => s
  | ticks escaped n => (if escaped then ['\\'] else []) ++ List.replicate n '`'
  | bar => ['|']

/-- Cuts a row into pieces; the fuel covers every character. -/
def rowPieces : Nat → List Char → List RowPiece
  | 0, _ | _, [] => []
  | fuel + 1, '\\' :: '\\' :: s => .other ['\\', '\\'] :: rowPieces fuel s
  | fuel + 1, '\\' :: '`' :: s =>
    let more := (s.takeWhile (· = '`')).length
    .ticks true (more + 1) :: rowPieces fuel (s.drop more)
  | fuel + 1, '`' :: s =>
    let more := (s.takeWhile (· = '`')).length
    .ticks false (more + 1) :: rowPieces fuel (s.drop more)
  | fuel + 1, '\\' :: '|' :: s => .other ['\\', '|'] :: rowPieces fuel s
  | fuel + 1, '|' :: s => .bar :: rowPieces fuel s
  | fuel + 1, c :: s => .other [c] :: rowPieces fuel s

/-- What precedes and what follows the next run of so many backticks. -/
def cutTicks? (n : Nat) : List RowPiece → Option (List RowPiece × List RowPiece)
  | [] => none
  | p :: ps =>
    let closes : Bool := match p with
      | .ticks _ k => k = n
      | _ => false
    if closes then some ([p], ps) else (cutTicks? n ps).map fun (a, b) => (p :: a, b)

def consCell (s : List Char) : List (List Char) → List (List Char)
  | [] => [s]
  | c :: cs => (s ++ c) :: cs

/-- The cells of a row; code up to its closing backticks is one stretch of text. An escaped run opens
code with one backtick less. -/
def cellsOf : Nat → List RowPiece → List (List Char)
  | 0, _ | _, [] => [[]]
  | fuel + 1, .bar :: ps => [] :: cellsOf fuel ps
  | fuel + 1, .other s :: ps => consCell s (cellsOf fuel ps)
  | fuel + 1, .ticks escaped n :: ps =>
    let size := if escaped then n - 1 else n
    let own := (RowPiece.ticks escaped n).text
    match if size = 0 then none else cutTicks? size ps with
    | some (code, rest) => consCell (own ++ code.flatMap RowPiece.text) (cellsOf fuel rest)
    | none => consCell own (cellsOf fuel ps)

/-- Whether a row ends with a bar that no backslash takes away. -/
def endsWithBar (row : List Char) : Bool :=
  match row.reverse with
  | '|' :: before => (before.takeWhile (· = '\\')).length % 2 = 0
  | _ => false

/-- A row without the bars at its ends, where it has them. -/
def dropBars (row : List Char) : List Char :=
  let row := match row with
    | '|' :: r => r
    | _ => row
  if endsWithBar row then dropLastBar row else row
where
  /-- A row without its last bar and the pairs of backslashes before it. -/
  dropLastBar (row : List Char) : List Char :=
    let front := row.dropLast
    dropEndWhile (· = '\\') front

/-- The cells of a row; bars at the ends count only in a table with bars at its ends. -/
def splitRow (bordered : Bool) (row : List Char) : List (List Char) :=
  let row := if bordered then dropBars row else row
  cellsOf (row.length + 1) (rowPieces (row.length + 1) row)

/-- A row without the spaces at its ends. -/
def trimSpaces (s : List Char) : List Char :=
  trim (· = ' ') s

def hasBar (row : List Char) : Bool :=
  row.head? = some '|' || endsWithBar row

/-- What a table is known by: whether it has bars at its ends, and the cells of its ruling line. -/
structure TableHead where
  bordered : Bool
  rule : List (List Char)

/-- The head of a block that is a table. A table of one column needs a bar in every row. -/
def tableHead? (block : List Char) : Option TableHead :=
  match (lines block).map trimSpaces with
  | head :: rule :: rows =>
    let bordered := hasBar head
    let columns := (splitRow bordered head).length
    let ruleCells := splitRow bordered rule
    if (columns > 1 || (columns = 1 && bordered && (rule :: rows).all hasBar)) &&
        ruleCells.length = columns &&
        ruleCells.flatten.all (fun c => c = '|' || c = ':' || c = '-' || c = ' ') then
      some ⟨bordered, ruleCells⟩
    else none
  | _ => none

/-- The alignment that a cell of the ruling line asks for. -/
def alignOf (cell : List Char) : Option String :=
  let c := trimSpaces cell
  if c.head? = some ':' then
    if c.getLast? = some ':' then some "center" else some "left"
  else if c.getLast? = some ':' then some "right"
  else none

def alignAttrs (t : TableSetup) : Option String → List (String × List Char)
  | none => []
  | some a =>
    if t.alignAttribute then [("align", a.toList)]
    else [("style", ("text-align: " ++ a ++ ";").toList)]

/-- One row of a table: as many cells as the ruling line has. -/
def rowElement (t : TableSetup) (tag : String) (aligns : List (Option String))
    (cells : List (List Char)) : Element :=
  { tag := "tr"
    children := aligns.zipIdx.map fun (a, i) =>
      { tag, attrs := alignAttrs t a, text := trimSpaces (cells.getD i []) } }

/-- A block that is a table as an element. -/
def tableElement (t : TableSetup) (h : TableHead) (block : List Char) : Element :=
  let rows := (lines block).map trimSpaces
  let aligns := h.rule.map alignOf
  let row (tag : String) (r : List Char) := rowElement t tag aligns (splitRow h.bordered r)
  let body := rows.drop 2
  let empty : Element :=
    { tag := "tr", children := aligns.map fun _ => { tag := "td" } }
  { tag := "table"
    children :=
      [{ tag := "thead", children := [row "th" (rows.headD [])] },
       { tag := "tbody", children := if body.isEmpty then [empty] else body.map (row "td") }] }

end Marginalia.Markdown
