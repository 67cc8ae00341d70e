import Marginalia.Highlight.Markup
import Marginalia.Markdown.Setup

/-! # Code in prose

A block of code in a known language is highlighted; any other is shown as it is. A first line of an
indented block may name the language, ask for line numbers and mark lines.
-/
namespace Marginalia.Markdown

open Text

def isScriptName (lang : List Char) : Bool :=
  let w := String.ofList (lower lang)
  w = "js" || w = "javascript"

def codeLines (lang : Option (List Char)) (src : List Char) : List (List Char) :=
  if lang.any isScriptName then Highlight.scriptLines src
  else Highlight.markupLines [⟨.plain, Highlight.prepare src⟩]

def rightAligned (width n : Nat) : List Char :=
  let digits := natText n
  List.replicate (width - digits.length) ' ' ++ digits

/-- The numbers of so many lines. -/
def lineNumbersOf (count : Nat) : List (List Char) :=
  (List.range count).map fun i => rightAligned (natText count).length (i + 1)

/-- Lines with line ends, numbered inside when asked, and marked where asked. -/
def decorate (numbers : LineNumbers) (marked : List Nat) (ls : List (List Char)) :
    List (List Char) :=
  let ended := ls.map (· ++ ['\n'])
  let numbered :=
    if numbers = .inline then
      List.zipWith (fun n l => "<span class=\"linenos\">".toList ++ n ++ "</span>".toList ++ l)
        (lineNumbersOf ls.length) ended
    else ended
  numbered.zipIdx.map fun (l, i) =>
    if marked.contains (i + 1) then "<span class=\"hll\">".toList ++ l ++ "</span>".toList else l

/-- Highlighted code in its frame. -/
def highlighted (c : CodeSetup) (lang : Option (List Char)) (src : List Char) : List Char :=
  let ls := codeLines lang src
  let numbers := c.lineNumbers.getD .none
  let inner := "<pre><span></span><code>".toList ++ (decorate numbers c.marked ls).flatten ++
    "</code></pre>".toList
  let body :=
    if numbers = .table then
      "<table class=\"".toList ++ c.styleClass ++
        "table\"><tr><td class=\"linenos\"><div class=\"linenodiv\"><pre>".toList ++
        unlines ((lineNumbersOf ls.length).map fun n =>
          "<span class=\"normal\">".toList ++ n ++ "</span>".toList) ++
        "</pre></div></td><td class=\"code\"><div>".toList ++ inner ++
        "</div></td></tr></table>".toList
    else inner
  let frame := if c.styleClass.isEmpty then [] else " class=\"".toList ++ c.styleClass ++ ['"']
  "<div".toList ++ frame ++ ['>'] ++ body ++ "</div>\n".toList

/-- Text inside an element or an attribute, with the named entity for the double quote. -/
def escapeCode (s : List Char) : List Char :=
  (escapeText s).flatMap fun c => if c = '"' then "&quot;".toList else [c]

/-- Code that is left to others to highlight, in its frame. -/
def unhighlighted (c : CodeSetup) (lang : Option (List Char)) (src : List Char) : List Char :=
  let named := match lang with
    | some l => if l.isEmpty then [] else [c.langWord ++ l]
    | none => []
  let classes := named ++ if c.lineNumbers.getD .none = .none then [] else ["linenums".toList]
  let attr := if classes.isEmpty then []
    else " class=\"".toList ++ join [' '] classes ++ ['"']
  "<pre class=\"".toList ++ c.styleClass ++ "\"><code".toList ++ attr ++ ['>'] ++ escapeCode src ++
    "\n</code></pre>\n".toList

/-- The number of the line that a word spells, with a sign or not; underscores may stand between its
digits. A number below zero gives zero, which no line has. -/
def lineNumber? (w : List Char) : Option Nat :=
  let (negative, digits) := match w with
    | '-' :: r => (true, r)
    | '+' :: r => (false, r)
    | r => (false, r)
  let groups := digits.splitOn '_'
  if groups.all fun g => !g.isEmpty && g.all Char.isDigit then
    some (if negative then 0 else groups.flatten.foldl (fun n c => n * 10 + (c.toNat - '0'.toNat)) 0)
  else none

/-- Numbers between blanks; nothing when one of them is none. -/
def numbersIn (s : List Char) : List Nat :=
  (((s.splitOnP isBlank).filter (!·.isEmpty)).mapM lineNumber?).getD []

def isLangChar (c : Char) : Bool :=
  isWordChar c || c = '#' || c = '.' || c = '+' || c = '-'

/-- A choice of marked lines, in quotes; its own text is group 5. -/
def markedPattern : Pattern :=
  .lit "hl_lines=" ++ .group 4 (.oneOf "\"'") ++ .group 5 (.few (fun c => c ≠ '\n') 0) ++ .again 4

/-- A first line that names the language: colons, or an interpreter sign that asks for line numbers,
then a path or not, the language and marked lines. -/
def headerPattern : Pattern :=
  .textStart ++ .alt (.lit "::" ++ .many (· = ':') 0 none) (.group 1 (.lit "#!")) ++
    .opt (.group 2 (.star (.lit "/" ++ .many isWordChar 1 none) ++ .oneOf "/ ")) ++
    .group 3 (.many isLangChar 0 none) ++ .many isBlank 0 none ++ .opt markedPattern

/-- The code of a block, what its first line says taken apart. -/
def readHeader (c : CodeSetup) (src : List Char) : CodeSetup × Option (List Char) × List Char :=
  match lines src with
  | [] => (c, none, src)
  | first :: rest =>
    match headerPattern.match? first with
    | none => (c, none, src)
    | some m =>
      let kept := if (m.group? 2).isSome then first :: rest else rest
      let c :=
        if c.lineNumbers.isNone && (m.group? 1).isSome then { c with lineNumbers := some .table }
        else c
      ({ c with marked := numbersIn (m.group 5) }, some (lower (m.group 3)),
        trim (· = '\n') (unlines kept))

/-- A block of code as markup. A language that is not given may be named in the first line. -/
def codeBlock (c : CodeSetup) (src : List Char) : List Char :=
  let (c, lang, src) := readHeader c (trim (· = '\n') src)
  if c.highlight then highlighted c lang src else unhighlighted c lang src

/-- A fenced block of code as markup; its first line is code. -/
def fencedBlock (c : CodeSetup) (lang : Option (List Char)) (src : List Char) : List Char :=
  highlighted c lang (trim (· = '\n') src)

end Marginalia.Markdown
