import Marginalia.Markdown.Code
import Marginalia.Markdown.Element
import Marginalia.Markdown.Mark

/-! # Fenced code

Code between two fences is finished before anything else is read: it is kept aside, and its mark stands
in a paragraph of its own.
-/
namespace Marginalia.Markdown

open Text

/-- One attribute of an opening fence: a class, the identity, or a named value. -/
inductive FenceAttr where
  | cls (name : List Char)
  | id (name : List Char)
  | value (name value : List Char)

def isAttrChar (c : Char) : Bool :=
  c ≠ ' ' && c ≠ '=' && c ≠ '}'

/-- The words of attributes: a name with a value in quotes of either kind or in none, or a name. -/
def attrPatterns : List Pattern :=
  let word := Pattern.many isAttrChar 1 none
  [word ++ .lit "=\"" ++ .few (· ≠ '\n') 0 ++ .lit "\"",
   word ++ .lit "='" ++ .few (· ≠ '\n') 0 ++ .lit "'",
   word ++ .lit "=" ++ word, word, .lit " "]

/-- The attribute that a word stands for; a blank stands for none. -/
def attrOf (w : List Char) : Option FenceAttr :=
  if w = [' '] then none
  else
    let name := w.takeWhile (· ≠ '=')
    match w.drop name.length with
    | _ :: v =>
      let quote := v.head?
      some (.value name (if quote = some '"' then trim (· = '"') v
        else if quote = some '\'' then trim (· = '\'') v else v))
    | [] => match w with
      | '.' :: n => some (.cls n)
      | '#' :: n => some (.id n)
      | _ => some (.value w w)

/-- Reads attributes until a word that is none, and what is left then. -/
def readAttrs : Nat → List Char → List FenceAttr × List Char
  | 0, s => ([], s)
  | fuel + 1, s =>
    match attrPatterns.findSome? (·.match? s) with
    | none => ([], s)
    | some m =>
      let (attrs, rest) := readAttrs fuel m.rest
      ((attrOf m.text).toList ++ attrs, rest)

/-- What the opening of a fence says. -/
structure FenceHead where
  lang : Option (List Char) := none
  id : List Char := []
  classes : List (List Char) := []
  values : List (List Char × List Char) := []

/-- Collects attributes; the first class is the language. -/
def FenceHead.ofAttrs (attrs : List FenceAttr) : FenceHead :=
  let h := attrs.foldl (fun h a => match a with
    | .cls n => { h with classes := h.classes ++ [n] }
    | .id n => { h with id := n }
    | .value n v =>
      if n = "id".toList then { h with id := v }
      else { h with values := h.values ++ [(n, v)] }) ({} : FenceHead)
  match h.classes with
  | [] => h
  | lang :: classes => { h with lang := some lang, classes }

/-- A value of a fence as a setting: the truth values are read as such, and left open otherwise. -/
def applyValue (c : CodeSetup) (a : List Char × List Char) : CodeSetup :=
  let name := String.ofList a.1
  if name = "hl_lines" then { c with marked := numbersIn a.2 }
  else if name = "linenums" then
    match optionalSetting (.text a.2) with
    | .ok b => { c with lineNumbers := b.map fun b => if b then .table else .none }
    | .error _ => { c with lineNumbers := none }
  else match setCode c name (.text a.2) with
    | .ok c => c
    | .error _ => c

/-- Fenced code without highlighting. -/
def plainFence (f : FenceSetup) (h : FenceHead) (src : List Char) : List Char :=
  let attr (name : String) (v : List Char) : List Char :=
    if v.isEmpty then [] else attrMarkup (name, v)
  let lang := match h.lang with
    | some l => if l.isEmpty then [] else " class=\"".toList ++ f.langWord ++ escapeValue l ++ ['"']
    | none => []
  "<pre".toList ++ attr "id" h.id ++ attr "class" (join [' '] h.classes) ++ "><code".toList ++ lang ++
    ['>'] ++ escapeCode src ++ "</code></pre>".toList

def fenceMarkup (f : FenceSetup) (code : Option CodeSetup) (h : FenceHead) (src : List Char) :
    List Char :=
  match code with
  | none => plainFence f h src
  | some c =>
    let own := h.values.foldl applyValue c
    if c.highlight && own.highlight then
      let styleClass := join [' '] (h.classes ++ [own.styleClass])
      fencedBlock { own with styleClass } h.lang src
    else plainFence f h src

/-- A fence, attributes or a language with marked lines, code, and the same fence again. -/
def fencePattern : Pattern :=
  .lineStart ++
    .group 1 (.alt (.many (· = '~') 3 none) (.many (· = '`') 3 none)) ++
    .group 7 (.many (· = ' ') 0 none) ++
    .alt (.lit "\x7b" ++ .group 2 (.many (· ≠ '\n') 0 none) ++ .lit "\x7d")
      (.opt (.opt (.lit ".") ++ .group 3 (.many isLangChar 0 none) ++ .many (· = ' ') 0 none) ++
        .opt (.lit "hl_lines=" ++ .group 4 (.oneOf "\"'") ++ .group 5 (.few (fun _ => true) 0) ++
          .again 4 ++ .many (· = ' ') 0 none)) ++
    .lit "\n" ++ .group 6 (.few (fun _ => true) 0) ++ .before (· = some '\n') ++
    .again 1 ++ .many (· = ' ') 0 none ++ .lineEnd

/-- What the opening of a matched fence says; nothing when its attributes are broken. -/
def headOf? (m : Pattern.Match) : Option FenceHead :=
  let given := m.group 2
  if given.isEmpty then
    let lang := m.group 3
    let marked := m.group 5
    some { lang := if lang.isEmpty then none else some lang
           values := if marked.isEmpty then [] else [("hl_lines".toList, marked)] }
  else
    let (attrs, rest) := readAttrs (given.length + 1) given
    if rest.contains '}' then none else some (.ofAttrs attrs)

/-- Keeps all fenced code in `rest` aside; `done` is what stands before it, last character first. -/
def keepFences (f : FenceSetup) (code : Option CodeSetup) :
    Nat → List Char → List Char → StateM Kept (List Char)
  | 0, done, rest => pure (done.reverse ++ rest)
  | fuel + 1, done, rest =>
    match fencePattern.search? done rest with
    | none => pure (done.reverse ++ rest)
    | some (before, m) =>
      match headOf? m with
      | none => do
        let n := (m.group 1).length + (m.group 7).length + 1 + (m.group 2).length
        let whole := m.text ++ m.rest
        keepFences f code fuel ((whole.take n).reverse ++ before) (whole.drop n)
      | some h => do
        let mark ← keep (fenceMarkup f code h (m.group 6))
        keepFences f code fuel (mark.reverse ++ '\n' :: before) ('\n' :: m.rest)

def withoutFences (s : Setup) (text : List Char) : StateM Kept (List Char) :=
  match s.fences with
  | none => pure text
  | some f => keepFences f s.code (text.length + 1) [] text

end Marginalia.Markdown
