import Marginalia.CommandLine.Arguments
import Marginalia.Pipeline

/-! # The command line

Reads arguments, runs, and tells what is printed and how the program ends: with a code, or with a failure
that it does not report.
-/
namespace Marginalia.CommandLine

open Text

/-- What a call prints and how it ends. -/
structure Outcome where
  stdout : List Char := []
  stderr : List Char := []
  ended : Except Failure Nat

def Stop.outcome : Stop → Outcome
  | help => { stdout := helpText, ended := .ok 0 }
  | version => { stdout := versionText, ended := .ok 0 }
  | s => { stderr := usageLine ++ "\nblockdoc: error: ".toList ++ s.message ++ ['\n'], ended := .ok 2 }

def Arguments.least (a : Arguments) : Level :=
  if a.verbose then .debug else .info

def openFile (t : FileTree) (path : List Char) : Except FileFault (FileTree × Place) := do
  match ← t.locate path true with
  | .found _ .dir => throw (.refused .isDirectory path)
  | .found place _ => return (t, place)
  | .free _ _ true => throw (.refused .isDirectory path)
  | .free parent name false => return (t.put (parent ++ [name]) (.file .empty), parent ++ [name])

/-- The world with its journal empty and the journal file open, if one is asked for. -/
def openJournal (a : Arguments) (w : World) : Except FileFault World := do
  let w := { w with journal := [], copy := none }
  match a.logFile with
  | none => return w
  | some path =>
    let (tree, place) ← openFile w.tree (w.tree.absolute path)
    return { w with tree, copy := some ⟨place, a.least⟩ }

def shownLines (least : Level) (journal : List Record) : List Char :=
  (journal.filter fun r => least.rank ≤ r.level.rank).flatMap fun r => r.line ++ ['\n']

def failureText (failure : Failure) : List Char :=
  "blockdoc: ".toList ++ failure.message ++ "\nRun with --verbose for more details.\n".toList

/-- Documents the files with the options that arguments ask for. -/
def documentFiles (a : Arguments) (w : World) : Except Failure (List Source) × World :=
  match a.options w.tree with
  | .error failure => (.error failure, w)
  | .ok options =>
    document (.at' w.layouts) .standard (.list (a.files.map .text)) (.map options) w

/-- Performs a call. -/
def run (argv : List (List Char)) (w : World) : Outcome × World :=
  match parse argv with
  | .error stop => (stop.outcome, w)
  | .ok a =>
    match openJournal a w with
    | .error fault => ({ ended := .error (.file fault) }, w)
    | .ok w =>
      match documentFiles a w with
      | (.ok _, w) => ({ stderr := shownLines a.least w.journal, ended := .ok 0 }, w)
      | (.error failure, w) =>
        if failure.isReported then
          let w := w.report ⟨.debug, .commandLine, "Run failed".toList⟩
          ({ stderr := shownLines a.least w.journal ++ failureText failure, ended := .ok 1 }, w)
        else ({ stderr := shownLines a.least w.journal, ended := .error failure }, w)

end Marginalia.CommandLine
