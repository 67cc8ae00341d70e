import Marginalia.CommandLine
import Marginalia.Layout.Builtin
import Std.Time

/-! # The program

Reads the part of the file system that a call names into a file tree, performs the call, prints what it
prints and writes what changed.
-/
namespace Marginalia.Main

open Text

/-- The directory where the layouts that are always there seem to lie. -/
def layoutsPath : List Char := "/usr/share/blockdoc/layouts".toList

def placeOf (path : String) : Place :=
  (Path.parse path.toList).segments

def textOf (p : Place) : String :=
  String.ofList (FileTree.placeText p)

/-- Puts what a path leads to into a tree, and for a directory all that lies below; links are put with
what they lead to. -/
partial def load (t : FileTree) (path : String) : IO FileTree := do
  let place := placeOf path
  if (t.entries.lookup place).isSome then return t
  try
    let real ← IO.FS.realPath path
    let above ← IO.FS.realPath (textOf place.dropLast)
    if placeOf real.toString ≠ placeOf above.toString ++ place.drop (place.length - 1) then
      load (t.put place (.link real.toString.toList)) real.toString
    else match (← real.metadata).type with
      | .dir =>
        let mut t := t.put place .dir
        for entry in ← real.readDir do
          t ← load t (textOf (place ++ [entry.fileName.toList]))
        return t
      | .file => return t.put place (.file (← IO.FS.readBinFile path))
      | _ => return t.put place .pipe
  catch _ => return t

/-- Puts the directories around a path into a tree, and what the path leads to. -/
def loadPath (t : FileTree) (path : List Char) : IO FileTree := do
  let place := (Path.parse (t.absolute path)).segments
  let mut t := t
  for n in List.range place.length do
    let around := place.take n
    if around ≠ [] && (t.entries.lookup around).isNone then
      try
        let real ← IO.FS.realPath (textOf around)
        if real.toString = textOf around then
          t := t.put around .dir
        else
          t ← load t (textOf around)
      catch _ => pure ()
  load t (textOf place)

def textsIn (options : List (Value × Value)) : List (List Char) :=
  options.filterMap fun (_, v) => match v with
    | .text s => some s
    | _ => none

/-- The tree with all that a call names: its files first, then what its options name. -/
def loadNamed (t : FileTree) (home : List Char) (argv : List (List Char)) : IO FileTree := do
  match CommandLine.parse argv with
  | .error _ => return t
  | .ok a =>
    let mut t := t
    for path in a.files ++ a.config.toList ++ a.markdown.toList ++ a.logFile.toList do
      t ← loadPath t path
    match a.options t with
    | .error _ => return t
    | .ok options =>
      for path in "docs".toList :: textsIn options do
        t ← loadPath t ((Path.expandHome? home path).getD path)
      return t

def save (old new : FileTree) : IO Unit := do
  for (place, entry) in new.entries do
    match entry, old.entries.lookup place with
    | .dir, none => IO.FS.createDirAll (textOf place)
    | .file content, some (.file before) =>
      if content.toList ≠ before.toList then
        IO.FS.writeBinFile (textOf place) content
    | .file content, _ => IO.FS.writeBinFile (textOf place) content
    | _, _ => pure ()

def clockText : IO (List Char) := do
  let now ← Std.Time.PlainDateTime.now
  return (now.format "uuuu-MM-dd HH:mm:ss,SSS").toList

/-- Performs a call in the file system; a failure that is not reported ends with code one. -/
def perform (args : List String) : IO UInt32 := do
  let argv := args.map String.toList
  let cwd ← IO.currentDir
  let home := ((← IO.getEnv "HOME").getD "/").toList
  let start : FileTree := { cwd := placeOf cwd.toString, entries := [] }
  let tree ← loadNamed start home argv
  let mounted := Layouts.mount (tree.makeDirs layoutsPath).tree (Path.parse layoutsPath).segments
  let world : World := { tree := mounted, home, layouts := layoutsPath, clock := ← clockText }
  let (outcome, world) := CommandLine.run argv world
  save mounted world.tree
  IO.print (String.ofList outcome.stdout)
  IO.eprint (String.ofList outcome.stderr)
  match outcome.ended with
  | .ok code => return code.toUInt32
  | .error failure =>
    IO.eprintln (String.ofList failure.message)
    return 1

end Marginalia.Main

/-- The program. -/
def main (args : List String) : IO UInt32 :=
  Marginalia.Main.perform args
