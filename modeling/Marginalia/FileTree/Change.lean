import Marginalia.FileTree

/-! # Changes of a file tree

Writing a file, making directories and copying. A change that fails may have changed the tree before,
so what fails says so beside the tree it leaves.
-/
namespace Marginalia.FileTree

open Text

/-- Writes a file, which is made if its directory has none of this name. -/
def write (t : FileTree) (path : List Char) (content : ByteArray) :
    Except FileFault FileTree := do
  match ← t.locate path true with
  | .found place (.file _) =>
    if t.locked.contains place then .error (.refused .denied path)
    else .ok (t.put place (.file content))
  | .found _ .dir => .error (.refused .isDirectory path)
  | .found .. => .ok t
  | .free _ _ true => .error (.refused .isDirectory path)
  | .free parent name false => .ok (t.put (parent ++ [name]) (.file content))

def makeDir (t : FileTree) (path : List Char) : Except FileFault FileTree := do
  match ← t.locate path false with
  | .found .. => .error (.refused .exists path)
  | .free parent name _ => .ok (t.put (parent ++ [name]) .dir)

/-- A tree after a change, and what stopped the change, if anything. -/
structure Changed where
  tree : FileTree
  fault : Option FileFault := none

/-- Makes the last directory of a path, unless it is one already. -/
def makeLast (t : FileTree) (path : List Char) : Changed :=
  match t.makeDir path with
  | .ok t => ⟨t, none⟩
  | .error fault => ⟨t, if t.isDir path then none else some fault⟩

/-- Makes the directory with the given segments, innermost first, below a root, after the directories
around it. -/
def makeDirsFrom (t : FileTree) (root : Root) : List Name → Changed
  | [] => ⟨t, none⟩
  | n :: outer =>
    let path := (Path.mk root (n :: outer).reverse).text
    if t.has (Path.mk root outer.reverse).text then t.makeLast path
    else
      let made := makeDirsFrom t root outer
      match made.fault with
      | none | some (.refused .exists _) => made.tree.makeLast path
      | some _ => made

/-- Makes the directory of an absolute path and the directories around it; one that exists is kept. -/
def makeDirs (t : FileTree) (path : List Char) : Changed :=
  let p := Path.parse path
  t.makeDirsFrom p.root p.segments.reverse

def isPipe (t : FileTree) (path : List Char) : Bool :=
  match t.stat path with
  | .ok (_, .pipe) => true
  | _ => false

def sameEntry (t : FileTree) (a b : List Char) : Bool :=
  match t.stat a, t.stat b with
  | .ok (p, _), .ok (q, _) => p = q
  | _, _ => false

def copyFile (t : FileTree) (source target : List Char) : Except FileFault FileTree :=
  if t.sameEntry source target then .error (.sameFile source target)
  else if t.isPipe source then .error (.pipe source)
  else if t.isPipe target then .error (.pipe target)
  else do
    let content ← t.read source
    t.write target content

/-- What went wrong while a directory was copied: a file copied onto itself, or a fault at one file. -/
inductive CopyFault where
  | onto (source : Name) (target : List Char)
  | at (source target : List Char) (fault : FileFault)

/-- The faults of a copy, as its message lists them: a file copied onto itself is spelled out letter by
letter. -/
def CopyFault.shown : CopyFault → List (List Char)
  | onto source target =>
    ("<DirEntry ".toList ++ quoted source ++ "> and ".toList ++ quoted target ++
      " are the same file".toList).map fun c => quoted [c]
  | .at source target fault =>
    ['(' :: join [',', ' '] [quoted source, quoted target, quoted fault.message] ++ [')']]

def copyMessage (faults : List CopyFault) : List Char :=
  '[' :: join [',', ' '] (faults.flatMap CopyFault.shown) ++ [']']

/-- Whether a path leads to a file that the user may not write. -/
def isLocked (t : FileTree) (path : List Char) : Bool :=
  match t.stat path with
  | .ok (place, _) => t.locked.contains place
  | .error _ => false

/-- The tree in which the user may not write the file that a path leads to. -/
def lock (t : FileTree) (path : List Char) : FileTree :=
  match t.stat path with
  | .ok (place, .file _) => { t with locked := place :: t.locked }
  | _ => t

/-- The tree in which a copy may not be written, if the file it was made of may not. -/
def copyLock (t : FileTree) (source target : List Char) : FileTree :=
  if t.isLocked source then t.lock target else t

/-- A tree after a copy: what stopped it at its top, or what went wrong below. -/
structure Copied where
  tree : FileTree
  fault : Option FileFault := none
  faults : List CopyFault := []

/-- Copies one file of a directory, with what the user may do to it; onto a directory it goes into it
under its own name. -/
def copyInto (t : FileTree) (name : Name) (source target : List Char) : Copied :=
  let target' := if t.isDir target then Path.joined target name else target
  match t.copyFile source target' with
  | .ok t => ⟨t.copyLock source target', none, []⟩
  | .error (.sameFile _ same) => ⟨t, none, [.onto name same]⟩
  | .error fault => ⟨t, none, [.at source target fault]⟩

/-- Copies one entry of a directory, after others; `inner` copies a directory. -/
def copyEntry (inner : FileTree → List Char → List Char → Copied) (source target : List Char)
    (done : Copied) (name : Name) : Copied :=
  let from' := Path.joined source name
  let to' := Path.joined target name
  let next :=
    if done.tree.isDir from' then inner done.tree from' to' else done.tree.copyInto name from' to'
  let faults := match next.fault with
    | some fault => [.at from' to' fault]
    | none => next.faults
  ⟨next.tree, none, done.faults ++ faults⟩

/-- Copies a directory into another one, which is made if it does not exist. Links are followed, files
are overwritten, and a fault below does not stop the copy. A directory that lies deeper than allowed is
not copied. -/
def copyDirFrom : Nat → FileTree → List Char → List Char → Copied
  | 0, t, source, _ => ⟨t, some (.refused .nameTooLong source), []⟩
  | depth + 1, t, source, target =>
    match t.list source with
    | .error fault => ⟨t, some fault, []⟩
    | .ok names =>
      let made := t.makeDirs target
      match made.fault with
      | some fault => ⟨made.tree, some fault, []⟩
      | none => names.foldl (copyEntry (copyDirFrom depth) source target) ⟨made.tree, none, []⟩

/-- How deep a copy may go: more names do not fit into any path. -/
def maxDepth : Nat := 4096

/-- Copies a directory into another one. -/
def copyDir (t : FileTree) (source target : List Char) : Copied :=
  copyDirFrom maxDepth t source target

end Marginalia.FileTree
