import Marginalia.Markdown.Options
import Marginalia.Yaml.Document

/-! # Option files

Options in a file, whose root is a mapping. A file without anything holds no options. -/
namespace Marginalia.OptionFile

open Text

/-- The value a file holds; what counts as nothing is the empty mapping. -/
def read (t : FileTree) (path : List Char) : Except Failure Value := do
  let content ← match t.read path with
    | .ok content => pure content
    | .error .nulInPath => throw (.file .nulInPath)
    | .error fault => throw (.options (.unreadable path fault))
  match decodeStrict? content with
  | none => throw .undecodable
  | some text =>
    if allBlank text then return .map []
    match Yaml.load text with
    | .ok v => return if v.truthy then v else .map []
    | .error .form => throw (.options (.unparsable (Path.parse path).name))
    | .error (.scalar fault) => throw (.scalar fault)

/-- The options in a file. -/
def options (t : FileTree) (path : List Char) : Except Failure (List (Value × Value)) := do
  match ← read t path with
  | .map es => return es
  | _ => throw (.options (.rootNoMapping (Path.parse path).name))

/-- The Markdown options in a file, which must be good ones. -/
def markdown (t : FileTree) (path : List Char) : Except Failure (List (Value × Value)) := do
  match ← read t path with
  | .map es =>
    let _ ← Markdown.Options.of (.map es)
    return es
  | _ => throw (.options (.markdownRootNoMapping (Path.parse path).name))

end Marginalia.OptionFile
