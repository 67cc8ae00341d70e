import Marginalia.Failure
import Marginalia.Journal
import Marginalia.Section
import Marginalia.Text.Case

/-! # Splitters by file type

A registry maps file types to the splitters that cut a text into sections. Plugins are loaded once, at
the first look-up, and never take the place of an entry that is there.
-/
namespace Marginalia

open Text

/-- A way to cut a text into sections. Without a function it is a value that cannot be called. -/
structure Splitter where
  name : String
  split? : Option (List Char → List Section)

namespace Splitter

def script : Splitter := ⟨"js", some Section.ofScript⟩

def markup : Splitter := ⟨"md", some Section.ofMarkup⟩

def isCallable (s : Splitter) : Bool :=
  s.split?.isSome

/-- Cuts a text. -/
def run (s : Splitter) (code : List Char) : Except Failure (List Section) :=
  match s.split? with
  | some f => .ok (f code)
  | none => .error .uncallable

end Splitter

/-- The key of a file type: without a leading dot, in lower case. -/
def typeKey (tag : List Char) : List Char :=
  match tag with
  | '.' :: r => lower r
  | _ => lower tag

/-- A plugin: a file type, and a splitter or the reason why it does not load. -/
structure Plugin where
  tag : List Char
  loaded : Except (List Char) Splitter

/-- Splitters by key, and the plugins that wait to be loaded. -/
structure Registry where
  table : List (List Char × Splitter)
  waiting : List Plugin

namespace Registry

def builtin : List (List Char × Splitter) :=
  [("js".toList, .script), ("mjs".toList, .script), ("cjs".toList, .script),
   ("md".toList, .markup), ("markdown".toList, .markup)]

/-- The registry with the file types known from the start. -/
def standard : Registry := ⟨builtin, []⟩

def insert (key : List Char) (s : Splitter) :
    List (List Char × Splitter) → List (List Char × Splitter)
  | [] => [(key, s)]
  | (k, old) :: rest => if k = key then (k, s) :: rest else (k, old) :: insert key s rest

/-- Registers a splitter for a file type. -/
def register (r : Registry) (tag : List Char) (s : Splitter) : Except Failure Registry :=
  if s.isCallable then .ok { r with table := insert (typeKey tag) s r.table }
  else .error (.splitterType tag)

/-- A registry after plugins were loaded: what was reported, and what stopped the loading. -/
structure Loaded where
  registry : Registry
  records : List Record
  failure : Option Failure := none

/-- The same loading with one more report before its others. -/
def Loaded.report (l : Loaded) (r : Record) : Loaded :=
  { l with records := r :: l.records }

def pluginRecord (level : Level) (words : String) (tag rest : List Char) : Record :=
  ⟨level, .splitters, words.toList ++ '\'' :: tag ++ '\'' :: rest⟩

/-- Loads plugins in order, until one that cannot be called. -/
def loadAll (r : Registry) : List Plugin → Loaded
  | [] => ⟨r, [], none⟩
  | p :: ps =>
    if (r.table.lookup (typeKey p.tag)).isSome then
      (loadAll r ps).report (pluginRecord .debug "Built-in splitter for " p.tag
        " takes precedence over plugin".toList)
    else match p.loaded with
      | .error why =>
        (loadAll r ps).report (pluginRecord .warning "Failed to load splitter plugin " p.tag
          (':' :: ' ' :: why))
      | .ok s =>
        match r.register p.tag s with
        | .ok r => loadAll r ps
        | .error failure => ⟨r, [], some failure⟩

/-- Loads the waiting plugins. -/
def load (r : Registry) : Loaded :=
  loadAll { r with waiting := [] } r.waiting

/-- The splitter of a file type, once plugins are loaded. -/
def get? (r : Registry) (tag : List Char) : Option Splitter :=
  r.table.lookup (typeKey tag)

def keyLe (a b : List Char) : Bool :=
  FileTree.nameLe a b

def types (r : Registry) : List (List Char) :=
  (r.table.map (·.1)).mergeSort keyLe

/-- Cuts a text by the splitter of its file type. -/
def split (r : Registry) (code tag : List Char) : Except Failure (List Section) :=
  match r.get? tag with
  | some s => s.run code
  | none => .error (.unsupported tag)

end Registry
end Marginalia
