import Marginalia.Highlight.Lexer
import Marginalia.Text.Blank
import Marginalia.Text.Html
import Marginalia.Text.Utf8

/-! # Highlighted code as markup

Every token becomes a span; a span never crosses a line end, and neighbours of one class on a line
share a span.
-/
namespace Marginalia.Highlight

open Text

/-- A piece of a line and its style class. -/
structure Piece where
  styleClass : String
  text : List Char

/-- Puts a piece in front of a line, joined to the first piece when the classes agree. -/
def consPiece (p : Piece) : List Piece → List Piece
  | [] => if p.text.isEmpty then [] else [p]
  | q :: rest =>
    if p.text.isEmpty then q :: rest
    else if p.styleClass = q.styleClass then ⟨p.styleClass, p.text ++ q.text⟩ :: rest
    else p :: q :: rest

def consLines (styleClass : String) : List (List Char) → List (List Piece) → List (List Piece)
  | [], ls => ls
  | [part], [] => [consPiece ⟨styleClass, part⟩ []]
  | [part], l :: ls => consPiece ⟨styleClass, part⟩ l :: ls
  | part :: parts, ls => consPiece ⟨styleClass, part⟩ [] :: consLines styleClass parts ls

def pieceLines : List Token → List (List Piece)
  | [] => [[]]
  | t :: ts => consLines t.kind.styleClass (lines t.text) (pieceLines ts)

def Piece.markup (p : Piece) : List Char :=
  if p.styleClass.isEmpty then escapeText p.text
  else "<span class=\"".toList ++ p.styleClass.toList ++ "\">".toList ++ escapeText p.text ++
    "</span>".toList

def lineMarkup (ps : List Piece) : List Char :=
  ps.flatMap Piece.markup

/-- The lines of tokens as markup; after the last line end there is no line unless it has text. -/
def markupLines (ts : List Token) : List (List Char) :=
  let ls := (pieceLines ts).map lineMarkup
  match ls.reverse with
  | [] :: before => before.reverse
  | _ => ls

/-- The text a lexer reads: without a byte-order mark, with newlines for every line end, without
newlines at both ends, and with one newline added. -/
def prepare (s : List Char) : List Char :=
  let s := match s with
    | c :: r => if c.toNat = 0xfeff then r else s
    | [] => []
  trim (· = '\n') (foldNewlines s) ++ ['\n']

/-- The lines of script code as markup. -/
def scriptLines (s : List Char) : List (List Char) :=
  markupLines (tokens (prepare s))

def endLines (ls : List (List Char)) : List Char :=
  ls.flatMap (· ++ ['\n'])

def codeMarkup (s : List Char) : List Char :=
  let inner := if s.isEmpty then [] else trimEnd (endLines (scriptLines s))
  "<div class='highlight'><pre>".toList ++ inner ++ "</pre></div>".toList

end Marginalia.Highlight
