import Marginalia.Markdown.Setup

/-! # Options of the prose

Which extensions are asked for and with which settings, read from a loose value. -/
namespace Marginalia.Markdown

open Text

/-- The extensions asked for, and settings by the name of their extension. -/
structure Options where
  extensions : List (List Char)
  settings : List (Value × Value)

namespace Options

/-- What is asked for when nothing is said. -/
def standard : Options where
  extensions := ["fenced_code".toList, "tables".toList, "codehilite".toList]
  settings := [(.ofString "codehilite", .map [(.ofString "guess_lang", .bool false)])]

/-- A list of names; what counts as nothing is the empty list. -/
def names (v : Value) : Except Failure (List (List Char)) :=
  let fault : Failure := .options .extensionsNoList
  let all (xs : List Value) : Except Failure (List (List Char)) :=
    xs.mapM fun x => match x with
      | .text s => .ok s
      | _ => .error fault
  if !v.truthy then .ok []
  else match v with
    | .list xs | .tuple xs => all xs
    | _ => .error fault

/-- The entries of a mapping; what counts as nothing has none. -/
def entries (v : Value) : Except Failure (List (Value × Value)) :=
  if !v.truthy then .ok []
  else match v with
    | .map es => .ok es
    | _ => .error (.options .settingsNoMapping)

def settingsOf : List (Value × Value) → List (Value × Value) → Except Failure (List (Value × Value))
  | [], acc => .ok acc
  | (name, v) :: rest, acc =>
    match (if v.truthy then v.toMap else .ok []) with
    | .ok own => settingsOf rest (Value.put (.text name.toText) (.map own) acc)
    | .error fault => .error (.noMapping fault)

/-- Reads options. A part that is not said is the standard one. -/
def of (v : Value) : Except Failure Options :=
  if !v.truthy then .ok standard
  else match v with
    | .map es => do
      let given := (Value.field? "extensions" es).map names
      let extensions ← given.getD (.ok standard.extensions)
      let settings ← ((Value.field? "extension_configs" es).map entries).getD (.ok standard.settings)
      return ⟨extensions, ← settingsOf settings []⟩
    | _ => .error (.options .markdownNoMapping)

def setup (o : Options) : Except Failure Setup :=
  Setup.of o.settings o.extensions {}

end Options
end Marginalia.Markdown
