import Marginalia.Pattern
import Marginalia.Text.Html

/-! # Elements

Prose becomes a tree of elements. The text of an element stands before its children, and a tail after
each child; printed, text is escaped unless it already is an entity.
-/
namespace Marginalia.Markdown

open Text

/-- An element with what stands in it and the text after it. -/
structure Element where
  tag : String
  attrs : List (String × List Char) := []
  text : List Char := []
  /-- Whether the text is final: no span inside it counts. -/
  fixed : Bool := false
  children : List Element := []
  tail : List Char := []

instance : Inhabited Element := ⟨⟨"", [], [], false, [], []⟩⟩

/-- Elements that stand on lines of their own. -/
def blockTags : List String :=
  ["address", "article", "aside", "blockquote", "details", "div", "dl", "fieldset", "figcaption",
   "figure", "footer", "form", "h1", "h2", "h3", "h4", "h5", "h6", "header", "hgroup", "hr", "main",
   "menu", "nav", "ol", "p", "pre", "section", "table", "ul", "canvas", "colgroup", "dd", "body",
   "dt", "group", "html", "iframe", "li", "legend", "math", "map", "noscript", "output", "object",
   "option", "progress", "script", "style", "summary", "tbody", "td", "textarea", "tfoot", "th",
   "thead", "tr", "video", "center"]

/-- Whether a tag is that of an element on lines of its own. -/
def isBlockTag (tag : String) : Bool :=
  blockTags.contains tag

/-- Elements that never hold anything. -/
def emptyTags : List String :=
  ["area", "base", "basefont", "br", "col", "embed", "frame", "hr", "img", "input", "isindex",
   "link", "meta", "param", "source", "track", "wbr"]

def entityTail : Pattern :=
  .firstOf [.lit "#" ++ .many Char.isDigit 1 none ++ .lit ";",
    .lit "#" ++ .oneOf "xX" ++ .many (fun c => (hexDigit? c).isSome) 1 none ++ .lit ";",
    .many Char.isAlphanum 1 none ++ .lit ";"]

/-- Writes an ampersand as an entity unless it starts one. -/
def escapeAmps : List Char → List Char
  | [] => []
  | '&' :: s =>
    if (entityTail.match? s).isSome then '&' :: escapeAmps s else "&amp;".toList ++ escapeAmps s
  | c :: s => c :: escapeAmps s

def escapeProse (s : List Char) : List Char :=
  (escapeAmps s).flatMap fun c =>
    if c = '<' then "&lt;".toList else if c = '>' then "&gt;".toList else [c]

def escapeValue (s : List Char) : List Char :=
  (escapeProse s).flatMap fun c => if c = '"' then "&quot;".toList else [c]

def attrMarkup (a : String × List Char) : List Char :=
  ' ' :: a.1.toList ++ "=\"".toList ++ escapeValue a.2 ++ ['"']

def attrsMarkup (attrs : List (String × List Char)) : List Char :=
  (attrs.mergeSort fun a b => a.1 ≤ b.1).flatMap attrMarkup

mutual

def Element.markup : Element → List Char
  | ⟨tag, attrs, text, _, children, tail⟩ =>
    let start := '<' :: tag.toList ++ attrsMarkup attrs
    let rest :=
      if emptyTags.contains tag then " />".toList
      else '>' :: escapeProse text ++ childrenMarkup children ++ "</".toList ++ tag.toList ++ ['>']
    start ++ rest ++ escapeProse tail

def childrenMarkup : List Element → List Char
  | [] => []
  | e :: es => e.markup ++ childrenMarkup es

end

mutual

/-- The text in an element without its tags, and its tail. -/
def Element.plain : Element → List Char
  | ⟨_, _, text, _, children, tail⟩ => text ++ childrenPlain children ++ tail

/-- The text in elements without their tags. -/
def childrenPlain : List Element → List Char
  | [] => []
  | e :: es => e.plain ++ childrenPlain es

end

def Element.last? (e : Element) : Option Element :=
  e.children.getLast?

def Element.push (e child : Element) : Element :=
  { e with children := e.children ++ [child] }

def Element.setLast (e child : Element) : Element :=
  { e with children := e.children.dropLast ++ [child] }

def Element.pushFront (e child : Element) : Element :=
  { e with children := child :: e.children }

end Marginalia.Markdown
