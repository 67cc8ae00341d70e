import Marginalia.CommandLine.Arguments
import Marginalia.Proofs.Configuration.Silent
import Marginalia.Proofs.Pipeline.Effects

/-! # Whose value an option has

Options come from the arguments, from an option file and from the defaults, in this order. An argument
that was given counts even where it is empty or false, and an option that the file gives as nothing is
left to the default. The file's names are checked before that, so a name nobody knows is refused also
where it is given as nothing.
-/
namespace Marginalia

open Text

namespace Configuration

variable {t : FileTree} {home : List Char} {layouts : Layouts}

end Configuration

namespace CommandLine.Arguments

open Marginalia.Configuration

variable {a : Arguments} {t : FileTree} {es : List (Value × Value)} {own : Option (List (Value × Value))}

/-- The value that arguments give an option. -/
def given (a : Arguments) (own : Option (List (Value × Value))) : String → Option Value
  | "output" => a.output.map .text
  | "layout" => a.layout.map .text
  | "template" => a.template.map .text
  | "index" => a.index.map .text
  | "css" => a.css.map .text
  | "recursive" => a.recursive.map .bool
  | "assets" => a.assets.map .bool
  | "markdown" => own.map .map
  | "silent" => some (.bool false)
  | _ => none

/-- The options that arguments may give, in the order in which they are put over those of the file. -/
def names : List String :=
  ["markdown", "output", "layout", "template", "index", "css", "recursive", "assets", "silent"]

section Sample

end Sample

end CommandLine.Arguments
end Marginalia
