import Marginalia.Text.Chars

/-! # Flags of the command line

The flags there are, how they are spelled, and the help that lists them. -/
namespace Marginalia.CommandLine

open Text

inductive Flag where
  | help
  | output
  | layout
  | template
  | index
  | css
  | markdown
  | config
  | recursive
  | noAssets
  | verbose
  | logFile
  | version
deriving DecidableEq

/-- How a flag is spelled, the word for its value if it takes one, and its help in lines. -/
structure Spelling where
  flag : Flag
  short : Option Char
  long : String
  value : Option String
  help : List String

def spellings : List Spelling :=
  [⟨.help, 'h', "--help", none, ["show this help message and exit"]⟩,
   ⟨.output, 'o', "--output", "OUTPUT", ["Directory to write documentation into (default: docs)."]⟩,
   ⟨.layout, 'l', "--layout", "LAYOUT",
     ["Built-in layout name (parallel, linear) or path to a", "layout directory."]⟩,
   ⟨.template, 't', "--template", "TEMPLATE",
     ["Template file, relative to the layout directory", "(default: page.html)."]⟩,
   ⟨.index, 'i', "--index", "INDEX", ["Source file to publish as index.html."]⟩,
   ⟨.css, 'c', "--css", "CSS", ["Custom stylesheet to copy into the output directory."]⟩,
   ⟨.markdown, 'm', "--markdown", "MARKDOWN", ["YAML or JSON file with Markdown extension options."]⟩,
   ⟨.config, none, "--config", "CONFIG",
     ["YAML file with default options; command-line flags", "take precedence."]⟩,
   ⟨.recursive, 'r', "--recursive", none, ["Look for documentable files in nested directories."]⟩,
   ⟨.noAssets, none, "--no-assets", none, ["Do not copy the layout's public/ assets."]⟩,
   ⟨.verbose, 'v', "--verbose", none, ["Increase log verbosity for troubleshooting."]⟩,
   ⟨.logFile, none, "--log-file", "LOG_FILE", ["Also append log records to this file."]⟩,
   ⟨.version, none, "--version", none, ["show program's version number and exit"]⟩]

namespace Spelling

def shortText (s : Spelling) : Option (List Char) :=
  s.short.map fun c => ['-', c]

def texts (s : Spelling) : List (List Char) :=
  s.shortText.toList ++ [s.long.toList]

def name (s : Spelling) : List Char :=
  join ['/'] s.texts

/-- The spellings of a flag in the help, each with the word for its value. -/
def usage (s : Spelling) : List Char :=
  join [',', ' '] (s.texts.map fun t => match s.value with
    | some word => t ++ ' ' :: word.toList
    | none => t)

end Spelling

def allSpellings : List (List Char × Spelling) :=
  spellings.flatMap fun s => s.texts.map fun t => (t, s)

def helpColumn : Nat := 24

/-- Lines of help beside a heading; a heading that is too wide has a line of its own. -/
def helpEntry (heading : List Char) (lines : List String) : List (List Char) :=
  let margin := List.replicate helpColumn ' '
  let heading := ' ' :: ' ' :: heading
  if heading.length + 2 ≤ helpColumn then
    match lines with
    | l :: ls =>
      (heading ++ List.replicate (helpColumn - heading.length) ' ' ++ l.toList) ::
        ls.map fun l => margin ++ l.toList
    | [] => [heading]
  else heading :: lines.map fun l => margin ++ l.toList

def usageLine : List Char :=
  "usage: blockdoc [options] FILES...".toList

def helpText : List Char :=
  let lines := [usageLine, [],
      "Generate HTML documentation from block comments in JavaScript and Markdown".toList,
      "files.".toList, [], "positional arguments:".toList] ++
    helpEntry "FILES".toList ["Source files or directories to document."] ++
    [[], "options:".toList] ++ spellings.flatMap fun s => helpEntry s.usage s.help
  unlines lines ++ ['\n']

def versionText : List Char :=
  "blockdoc 0.3.0\n".toList

end Marginalia.CommandLine
