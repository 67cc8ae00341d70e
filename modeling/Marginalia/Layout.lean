import Marginalia.Template.Render

/-! # Layouts

A layout is a directory with a template and, below `public`, files that are copied beside the pages. It
is named by its path, or by its name when it lies in the directory of known layouts. That directory is
looked at once.
-/
namespace Marginalia

open Text

/-- A path text made absolute and free of links, with a home directory spelled out. -/
def FileTree.settle (t : FileTree) (home path : List Char) : Except Failure (List Char) :=
  let nul := Char.ofNat 0
  match (Path.parse path).atHome? home with
  | none => .error (if path.contains nul then .file .nulInPath else .unknownHome)
  | some p =>
    if p.text.contains nul then .error (.file .nulInPath)
    else match t.resolve? p.text with
      | some place => .ok place
      | none => .error .linkCircle

/-- Whether a path leads to a directory; a name that is too long is a failure. -/
def FileTree.isDirOrFail (t : FileTree) (path : List Char) : Except Failure Bool :=
  match t.probe path with
  | .ok entry => .ok (entry matches some .dir)
  | .error fault => .error (.file fault)

/-- Whether a path leads to a file; a name that is too long is a failure. -/
def FileTree.isFileOrFail (t : FileTree) (path : List Char) : Except Failure Bool :=
  match t.probe path with
  | .ok entry => .ok (entry matches some (.file _))
  | .error fault => .error (.file fault)

/-- The directory of known layouts, and their names once they were looked at. -/
structure Layouts where
  root : List Char
  known : Option (List Name) := none

namespace Layouts

def at' (root : List Char) : Layouts :=
  ⟨(Path.parse root).text, none⟩

def find (l : Layouts) (t : FileTree) : Except Failure (List Name) := do
  if ← t.isDirOrFail l.root then
    match t.list l.root with
    | .ok names => names.filterM fun n => t.isDirOrFail (Path.joined l.root n)
    | .error fault => .error (.file fault)
  else return []

def looked (l : Layouts) (t : FileTree) : Except Failure Layouts :=
  match l.known with
  | some _ => .ok l
  | none => do return { l with known := some (← l.find t) }

def names (l : Layouts) : List Name :=
  l.known.getD []

/-- The directory of a layout. -/
def resolve (l : Layouts) (t : FileTree) (home layout : List Char) : Except Failure (List Char) := do
  if l.names.contains layout then return ((Path.parse l.root).append (Path.parse layout)).text
  let place ← t.settle home layout
  if ← t.isDirOrFail place then return place else throw (.badLayout layout)

end Layouts

def Template.load (t : FileTree) (layout name : List Char) : Except Failure Loaded := do
  let path := (Path.parse layout).append (Path.parse name)
  if ← t.isFileOrFail path.text then
    let dir := path.parent.text
    match (do parse (← sourceOf t dir path.name)) with
    | .ok nodes => return ⟨nodes, dir⟩
    | .error fault => throw (.template fault)
  else throw (.noTemplate name)

end Marginalia
