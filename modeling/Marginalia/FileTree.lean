import Marginalia.Path
import Marginalia.Text.Quoted

/-! # A file tree

A file tree maps places to entries. A place is the list of names from the root down to an entry, free
of links; a path text is led to a place by `FileTree.locate`, which follows links, at most forty of
them. Every operation that fails says why and for which path.

A tree is what one user sees. Of permissions it knows the two that are met where directories are listed
and files are copied: a directory that the user may not list, and a file that the user may not write.
Each place has a content of its own, so a file has no second name but by a link.
-/
namespace Marginalia

open Text

/-- The names from the root of the tree down to an entry. -/
abbrev Place := List Name

/-- What a name in a directory stands for. -/
inductive Entry where
  | file (content : ByteArray)
  | dir
  | link (target : List Char)
  /-- Neither a file nor a directory. -/
  | pipe

/-- Why the system refuses a path. -/
inductive Refusal where
  | missing
  | denied
  | exists
  | notDirectory
  | isDirectory
  | nameTooLong
  | tooManyLinks
deriving DecidableEq

def Refusal.number : Refusal → Nat
  | missing => 2
  | denied => 13
  | «exists» => 17
  | notDirectory => 20
  | isDirectory => 21
  | nameTooLong => 36
  | tooManyLinks => 40

def Refusal.wording : Refusal → String
  | missing => "No such file or directory"
  | denied => "Permission denied"
  | «exists» => "File exists"
  | notDirectory => "Not a directory"
  | isDirectory => "Is a directory"
  | nameTooLong => "File name too long"
  | tooManyLinks => "Too many levels of symbolic links"

/-- Why an operation on files failed. -/
inductive FileFault where
  /-- The system refused a path. -/
  | refused (why : Refusal) (path : List Char)
  /-- A path holds the character that ends texts for the system. -/
  | nulInPath
  /-- A file would be copied onto itself. -/
  | sameFile (source target : List Char)
  /-- A pipe would be copied. -/
  | pipe (path : List Char)
deriving DecidableEq

def FileFault.message : FileFault → List Char
  | refused why path =>
    "[Errno ".toList ++ natText why.number ++ "] ".toList ++ why.wording.toList ++ ": ".toList ++
      quoted path
  | nulInPath => "embedded null byte".toList
  | sameFile source target =>
    quoted source ++ " and ".toList ++ quoted target ++ " are the same file".toList
  | pipe path => '`' :: path ++ "` is a named pipe".toList

/-- A file tree, seen from a working directory. The root is always a directory. -/
structure FileTree where
  cwd : Place
  entries : List (Place × Entry)
  /-- The directories that the user may not list. -/
  unlisted : List Place := []
  /-- The files that the user may not write. -/
  locked : List Place := []

namespace FileTree

/-- The tree with nothing below its root, seen from there. -/
def empty : FileTree where
  cwd := []
  entries := []

def placeText (p : Place) : List Char :=
  (Path.mk .single p).text

/-- The absolute spelling of a path text. -/
def absolute (t : FileTree) (path : List Char) : List Char :=
  Path.absolute (placeText t.cwd) path

def relative (t : FileTree) (target start : List Char) : List Char :=
  Path.relative (placeText t.cwd) target start

/-- A path text as a reader in the working directory would write it. -/
def short (t : FileTree) (path : List Char) : List Char :=
  Path.shortFor (placeText t.cwd) path

def get? (t : FileTree) (p : Place) : Option Entry :=
  if p = [] then some .dir else t.entries.lookup p

def insertEntry (p : Place) (e : Entry) : List (Place × Entry) → List (Place × Entry)
  | [] => [(p, e)]
  | (q, f) :: rest => if p = q then (p, e) :: rest else (q, f) :: insertEntry p e rest

def put (t : FileTree) (p : Place) (e : Entry) : FileTree :=
  { t with entries := insertEntry p e t.entries }

/-- The tree without a place and all that lies below it. -/
def erase (t : FileTree) (p : Place) : FileTree :=
  { t with entries := t.entries.filter fun (q, _) => !p.isPrefixOf q }

theorem lookup_insertEntry (p q : Place) (e : Entry) (es : List (Place × Entry)) :
    (insertEntry p e es).lookup q = if q = p then some e else es.lookup q := by
  induction es with
  | nil => by_cases h : q = p <;> simp [insertEntry, h]
  | cons x es ih =>
    obtain ⟨r, f⟩ := x
    by_cases h : p = r
    · subst h
      by_cases hq : q = p
      · simp [insertEntry, hq]
      · have hb : (q == p) = false := by simp [hq]
        simp [insertEntry, List.lookup_cons, hq, hb]
    · by_cases hq : q = r
      · subst hq
        simp [insertEntry, h, Ne.symm h]
      · have hb : (q == r) = false := by simp [hq]
        simp [insertEntry, h, List.lookup_cons, hb, ih]

/-- What is read after writing: the entry written, and all else as before. -/
theorem get?_put (t : FileTree) (p q : Place) (e : Entry) (hp : p ≠ []) :
    (t.put p e).get? q = if q = p then some e else t.get? q := by
  by_cases hq : q = []
  · subst hq
    simp [get?, Ne.symm hp]
  · simp [get?, put, hq, lookup_insertEntry]

def names (t : FileTree) (p : Place) : List Name :=
  t.entries.filterMap fun (q, _) =>
    if q.length = p.length + 1 && p.isPrefixOf q then q.getLast? else none

/-- Whether one name comes before another, by the numbers of their characters. -/
def nameLe : Name → Name → Bool
  | [], _ => true
  | _ :: _, [] => false
  | a :: as, b :: bs => a.toNat < b.toNat || a = b && nameLe as bs

def sortedNames (t : FileTree) (p : Place) : List Name :=
  (t.names p).mergeSort nameLe

def byteLength (s : List Char) : Nat :=
  total (s.map fun c => c.utf8Size)

/-- Where a path leads. -/
inductive Target where
  | found (place : Place) (entry : Entry)
  /-- A directory without this name; `slash` when the path ends in a slash. -/
  | free (parent : Place) (name : Name) (slash : Bool)

/-- Follows segments from a place, through at most `links` links; the last segment's link is followed
only on demand. -/
def locateFrom (t : FileTree) (follow : Bool) (links : Nat) (at' : Place) (ns : List Name) :
    Except Refusal Target :=
  match ns with
  | [] => .ok (.found at' ((t.get? at').getD .dir))
  | n :: ns =>
    match t.get? at' with
    | some .dir =>
      if n = [] || n = here then locateFrom t follow links at' ns
      else if n = up then locateFrom t follow links at'.dropLast ns
      else if 255 < byteLength n then .error .nameTooLong
      else match t.get? (at' ++ [n]) with
        | none => if ns.all (· = []) then .ok (.free at' n (!ns.isEmpty)) else .error .missing
        | some (.link target) =>
          if ns.isEmpty && !follow then .ok (.found (at' ++ [n]) (.link target))
          else match links with
            | 0 => .error .tooManyLinks
            | links + 1 =>
              if target.isEmpty then .error .missing
              else locateFrom t follow links (if target.head? = some '/' then [] else at')
                (slashParts target ++ ns)
        | some _ => locateFrom t follow links (at' ++ [n]) ns
    | _ => .error .notDirectory
termination_by (links, ns.length)

def maxLinks : Nat := 40

/-- Where a path text leads. -/
def locate (t : FileTree) (path : List Char) (follow : Bool) : Except FileFault Target :=
  let refuse {α : Type} (why : Refusal) : Except FileFault α := .error (.refused why path)
  if path.contains (Char.ofNat 0) then .error .nulInPath
  else if path.isEmpty then refuse .missing
  else if 4096 ≤ byteLength path then refuse .nameTooLong
  else
    let start := if path.head? = some '/' then [] else t.cwd
    match locateFrom t follow maxLinks start (slashParts path) with
    | .ok target => .ok target
    | .error why => refuse why

/-- The entry a path text leads to, with its place. -/
def stat (t : FileTree) (path : List Char) : Except FileFault (Place × Entry) := do
  match ← t.locate path true with
  | .found place entry => .ok (place, entry)
  | .free .. => .error (.refused .missing path)

/-- The entry a path leads to, if any; a name that is too long is a fault all the same. -/
def probe (t : FileTree) (path : List Char) : Except FileFault (Option Entry) :=
  match t.stat path with
  | .ok (_, entry) => .ok (some entry)
  | .error (.refused .nameTooLong p) => .error (.refused .nameTooLong p)
  | .error _ => .ok none

def isDir (t : FileTree) (path : List Char) : Bool :=
  match t.stat path with
  | .ok (_, .dir) => true
  | _ => false

def isFile (t : FileTree) (path : List Char) : Bool :=
  match t.stat path with
  | .ok (_, .file _) => true
  | _ => false

def has (t : FileTree) (path : List Char) : Bool :=
  match t.stat path with
  | .ok _ => true
  | .error _ => false

/-- The content of the file a path leads to. -/
def read (t : FileTree) (path : List Char) : Except FileFault ByteArray := do
  match ← t.stat path with
  | (_, .file content) => .ok content
  | (_, .dir) => .error (.refused .isDirectory path)
  | (_, _) => .ok .empty

/-- The names in the directory a path leads to, in order. -/
def list (t : FileTree) (path : List Char) : Except FileFault (List Name) := do
  match ← t.stat path with
  | (place, .dir) =>
    if t.unlisted.contains place then .error (.refused .denied path) else .ok (t.sortedNames place)
  | _ => .error (.refused .notDirectory path)

theorem list_of_stat {t : FileTree} {path : List Char} {place : Place}
    (h : t.stat path = .ok (place, .dir)) :
    t.list path =
      if place ∈ t.unlisted then .error (.refused .denied path) else .ok (t.sortedNames place) := by
  simp [list, h, bind, Except.bind]

theorem eq_sortedNames_of_list {t : FileTree} {path : List Char} {names : List Name}
    (h : t.list path = .ok names) : ∃ place, names = t.sortedNames place := by
  unfold list at h
  cases hs : t.stat path with
  | error fault => simp [hs, bind, Except.bind] at h
  | ok x =>
    obtain ⟨place, e⟩ := x
    cases e with
    | dir =>
      simp only [hs, bind, Except.bind] at h
      split at h
      · simp at h
      · exact ⟨place, (Except.ok.inj h).symm⟩
    | _ => simp [hs, bind, Except.bind] at h

/-- A path with its links followed: the names of its place, or of the path where a circle of links
was met. -/
structure Resolved where
  names : List Name
  whole : Bool

/-- Follows every link of a path as far as it goes. `met` are the links being followed; they lie inside
one another at most `depth` deep. -/
def resolveFrom (t : FileTree) (depth : Nat) (met : List Place) (at' : Place) (ns : List Name) :
    Resolved :=
  match ns with
  | [] => ⟨at', true⟩
  | n :: ns =>
    if n = [] || n = here then resolveFrom t depth met at' ns
    else if n = up then resolveFrom t depth met at'.dropLast ns
    else match t.get? (at' ++ [n]) with
      | some (.link target) =>
        match depth with
        | 0 => ⟨at' ++ n :: ns, false⟩
        | inner + 1 =>
          if met.contains (at' ++ [n]) then ⟨at' ++ n :: ns, false⟩
          else
            let start := if target.head? = some '/' then [] else at'
            let r := resolveFrom t inner ((at' ++ [n]) :: met) start (slashParts target)
            if r.whole then resolveFrom t (inner + 1) met r.names ns else ⟨r.names ++ ns, false⟩
      | _ => resolveFrom t depth met (at' ++ [n]) ns
termination_by (depth, ns.length)

/-- The path text free of links that a path leads to; what does not exist is kept as it is spelled.
`none` when it leads into a circle of links. There cannot be more links inside one another than the tree
has entries. -/
def resolve? (t : FileTree) (path : List Char) : Option (List Char) :=
  let start := if path.head? = some '/' then [] else t.cwd
  let r := resolveFrom t (t.entries.length + 1) [] start (slashParts path)
  if r.whole then some (placeText r.names)
  else
    let spelled := Path.normal (placeText r.names)
    match t.stat spelled with
    | .error (.refused .tooManyLinks _) => none
    | _ => some spelled

end FileTree
end Marginalia
