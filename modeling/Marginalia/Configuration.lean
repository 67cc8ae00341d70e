import Marginalia.Journal
import Marginalia.Layout
import Marginalia.Markdown.Options

/-! # The configuration of a run

Options are loose values under known names. What is not given, or is given as nothing, has its default;
paths are made absolute, and the layout, its template and the stylesheet must exist.
-/
namespace Marginalia

open Text

/-- What a run needs to know. -/
structure Configuration where
  output : List Char
  layout : List Char
  templateName : List Char
  template : Template.Loaded
  assets : Bool
  index : Option (List Char)
  silent : Bool
  recursive : Bool
  css : Option (List Char)
  markdown : Markdown.Options

namespace Configuration

def defaults : List (String × Value) :=
  [("output", .ofString "docs"), ("layout", .ofString "parallel"), ("template", .ofString "page.html"),
   ("assets", .bool true), ("index", .null), ("silent", .bool true), ("recursive", .bool false),
   ("css", .null), ("markdown", .null)]

def isKnown (name : Value) : Bool :=
  defaults.any fun (n, _) => Value.sameKey (.ofString n) name

/-- The texts among values; a value that is no text is a failure. -/
def textsOf (vs : List Value) : Except Failure (List (List Char)) :=
  vs.mapM fun v => match v with
    | .text s => .ok s
    | _ => .error .noText

def checkNames (options : List (Value × Value)) : Except Failure Unit := do
  let unknown ← textsOf ((options.map (·.1)).filter fun n => !isKnown n)
  if !unknown.isEmpty then throw (.options (.unknown (unknown.mergeSort FileTree.nameLe)))

/-- The value of an option: the one given, unless it is nothing, else the default. -/
def chosen (options : List (Value × Value)) (name : String) : Value :=
  match Value.field? name options with
  | none | some .null => (defaults.lookup name).getD .null
  | some v => v

/-- The absolute spelling of a path given as an option, with the own home directory spelled out. -/
def absolutePath (t : FileTree) (home : List Char) (v : Value) : Except Failure (List Char) :=
  let path := v.toText
  match Path.expandHome? home path with
  | some path => .ok (t.absolute path)
  | none =>
    if (path.takeWhile (· ≠ '/')).contains (Char.ofNat 0) then .error (.file .nulInPath)
    else .ok (t.absolute path)

def stylesheet (t : FileTree) (home : List Char) (v : Value) : Except Failure (Option (List Char)) :=
  match v with
  | .null => .ok none
  | .text css => do
    let place ← t.settle home css
    if ← t.isFileOrFail place then return some place else throw (.options (.noStylesheet css))
  | _ => .error .noText

/-- The configuration that options ask for. -/
def resolve (t : FileTree) (home : List Char) (layouts : Layouts) (options : Value) :
    Except Failure Configuration := do
  let options ← match (if options.truthy then options.toMap else .ok []) with
    | .ok es => pure es
    | .error fault => throw (.noMapping fault)
  checkNames options
  let value := chosen options
  let layout ← (← layouts.looked t).resolve t home (value "layout").toText
  let templateName := (value "template").toText
  let template ← Template.load t layout templateName
  let css ← stylesheet t home (value "css")
  let output ← absolutePath t home (value "output")
  let index := value "index"
  let index ← if index.truthy then some <$> absolutePath t home index else pure none
  let markdown ← Markdown.Options.of (value "markdown")
  return {
    output, layout, templateName, template, index, css, markdown
    assets := (value "assets").truthy
    silent := (value "silent").truthy
    recursive := (value "recursive").truthy }

/-- A report of progress, unless the run is silent. -/
def log (c : Configuration) (message : List Char) : List Record :=
  if c.silent then [] else [⟨.info, .run, message⟩]

/-- A report of a problem that does not stop the run; a silent run reports it less loudly. -/
def warn (c : Configuration) (message : List Char) : List Record :=
  [⟨if c.silent then .debug else .warning, .run, message⟩]

end Configuration
end Marginalia
