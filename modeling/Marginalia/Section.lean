import Marginalia.Script.Comment

/-! # Sections

A page is made of sections, each a piece of prose beside a piece of code. A script is cut at its block
comments; a text in markup is one section of prose.
-/
namespace Marginalia

open Text

/-- Prose beside code, and both as markup once the page is rendered. -/
structure Section where
  docs : List Char
  code : List Char
  docsMarkup : List Char := []
  codeMarkup : List Char := []
deriving DecidableEq

namespace Section

/-- A line with four spaces for each leading tab. -/
def expandTabs : List Char → List Char
  | '\t' :: s => ' ' :: ' ' :: ' ' :: ' ' :: expandTabs s
  | s => s

/-- The lines numbered `first` to `last`, both included. -/
def lineRange (ls : List (List Char)) (first last : Nat) : List (List Char) :=
  (ls.take last).drop (first - 1)

/-- One section for each comment: its prose and the lines up to the next comment. -/
def ofComments (ls : List (List Char)) : List Script.Comment → List Section
  | [] => []
  | c :: cs =>
    let last := match cs with
      | d :: _ => d.line - 1
      | [] => ls.length
    { docs := c.description
      code := unlines ((lineRange ls c.codeStart last).map expandTabs) } :: ofComments ls cs

/-- The lines before the first comment, unless they are blank. -/
def preamble (ls : List (List Char)) (c : Script.Comment) : List Section :=
  let text := unlines (ls.take (c.line - 1))
  if allBlank text then [] else [{ docs := [], code := text }]

/-- The sections of a script; a script without block comments has none. -/
def ofScript (s : List Char) : List Section :=
  match Script.comments s with
  | [] => []
  | c :: cs => preamble (lines s) c ++ ofComments (lines s) (c :: cs)

def ofMarkup (s : List Char) : List Section :=
  [{ docs := s, code := [] }]

end Section
end Marginalia
