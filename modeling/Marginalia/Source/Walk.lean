import Marginalia.Source

/-! # Finding the files to document

Arguments are visited in order. A file is taken as it is; a directory is opened, and a directory inside
a directory only on demand. What waits to be visited is a stack, so a directory's files come before
what follows the directory.
-/
namespace Marginalia.Source

open Text

/-- A path that waits to be visited. -/
structure Pending where
  path : List Char
  /-- The argument the walk started from, unless the path is an argument itself. -/
  origin : Option (List Char)
  /-- How many names the path has below the argument. -/
  depth : Nat
deriving DecidableEq

/-- The name a file is shown under: its own for an argument, else the way from the argument. -/
def Pending.displayName (t : FileTree) (p : Pending) : List Char :=
  match p.origin with
  | none => Path.baseName p.path
  | some origin => (Path.parse (t.relative p.path origin)).text

/-- What a visit brings. -/
inductive Visit where
  | file (fullPath name : List Char)
  | children (ps : List Pending)
  | nothing

/-- How many names a path may have below an argument: more do not fit into any path. -/
def maxDepth : Nat := 4096

/-- Visits one path, however deep it lies. -/
def look (t : FileTree) (recursive : Bool) (p : Pending) : Except Failure Visit :=
  let full := t.absolute p.path
  match t.stat full with
  | .error (.refused .missing _) => .error (.noSuchPath p.path)
  | .error fault => .error (.during (.stat p.path) fault)
  | .ok (_, .file _) => .ok (.file full (p.displayName t))
  | .ok (_, .dir) =>
    if p.origin.isSome && !recursive then .ok .nothing
    else match t.list full with
      | .error fault => .error (.during (.list p.path) fault)
      | .ok names =>
        let origin := some (p.origin.getD p.path)
        .ok (.children (names.map fun n => ⟨Path.joined p.path n, origin, p.depth + 1⟩))
  | .ok _ => .ok .nothing

/-- Visits one path, unless it lies too deep to be opened. -/
def visit (t : FileTree) (recursive : Bool) (p : Pending) : Except Failure Visit :=
  match look t recursive p with
  | .ok (.children cs) =>
    if maxDepth ≤ p.depth then
      .error (.during (.stat p.path) (.refused .nameTooLong (t.absolute p.path)))
    else .ok (.children cs)
  | visited => visited

/-- A bound on the visits that a waiting path leads to: below it there are at most as many paths as
the tree has entries, one level less deep. -/
def Pending.weight (t : FileTree) (p : Pending) : Nat :=
  Nat.pow (t.entries.length + 2) (maxDepth + 1 - p.depth)

theorem Pending.weight_pos (t : FileTree) (p : Pending) : 0 < p.weight t :=
  Nat.pow_pos (by omega)

def weight (t : FileTree) (ps : List Pending) : Nat :=
  total (ps.map (·.weight t))

theorem weight_append (t : FileTree) (ps qs : List Pending) :
    weight t (ps ++ qs) = weight t ps + weight t qs := by
  induction ps with
  | nil => simp [weight, total]
  | cons p ps ih =>
    simp only [weight, List.cons_append, List.map_cons, total] at ih ⊢
    omega

theorem weight_of_depth (t : FileTree) {ps : List Pending} {d : Nat} (h : ∀ p ∈ ps, p.depth = d) :
    weight t ps = ps.length * Nat.pow (t.entries.length + 2) (maxDepth + 1 - d) := by
  induction ps with
  | nil => simp [weight, total]
  | cons p ps ih =>
    have hp := h p List.mem_cons_self
    have ih := ih fun q hq => h q (List.mem_cons_of_mem _ hq)
    simp only [weight, List.map_cons, total] at ih ⊢
    rw [ih, Pending.weight, hp, List.length_cons, Nat.succ_mul, Nat.add_comm]

theorem look_children {t : FileTree} {recursive : Bool} {p : Pending} {cs : List Pending}
    (h : look t recursive p = .ok (.children cs)) :
    ∃ place, t.stat (t.absolute p.path) = .ok (place, .dir) ∧
      cs = (t.sortedNames place).map fun n =>
        ⟨Path.joined p.path n, some (p.origin.getD p.path), p.depth + 1⟩ := by
  simp only [look] at h
  split at h
  case h_4 place hstat =>
    rw [FileTree.list_of_stat hstat] at h
    split at h
    · simp at h
    · split at h
      · simp at h
      · next hlist =>
        split at hlist
        · simp at hlist
        · cases hlist
          cases h
          exact ⟨place, hstat, rfl⟩
  all_goals simp at h

theorem visit_children {t : FileTree} {recursive : Bool} {p : Pending} {cs : List Pending}
    (h : visit t recursive p = .ok (.children cs)) :
    p.depth < maxDepth ∧ look t recursive p = .ok (.children cs) := by
  unfold visit at h
  split at h
  · next cs' hlook =>
    split at h
    · simp at h
    · next hd =>
      cases h
      exact ⟨Nat.lt_of_not_le hd, hlook⟩
  · next hother => exact absurd h (hother cs)

/-- A visit that opens a directory brings less than it takes away. -/
theorem weight_children {t : FileTree} {recursive : Bool} {p : Pending} {cs : List Pending}
    (h : visit t recursive p = .ok (.children cs)) : weight t cs < p.weight t := by
  obtain ⟨hdepth, hlook⟩ := visit_children h
  obtain ⟨place, -, rfl⟩ := look_children hlook
  have hlen : (t.sortedNames place).length ≤ t.entries.length := by
    rw [FileTree.sortedNames, List.length_mergeSort, FileTree.names]
    exact List.length_filterMap_le ..
  have hpow : maxDepth + 1 - p.depth = maxDepth + 1 - (p.depth + 1) + 1 := by omega
  rw [weight_of_depth t (d := p.depth + 1) (by simp), List.length_map, Pending.weight, hpow,
    Nat.pow_eq, Nat.pow_eq, Nat.pow_succ, Nat.mul_comm]
  exact Nat.mul_lt_mul_of_pos_left (by omega) (Nat.pow_pos (by omega))

/-- Visits waiting paths, first one first. -/
def walkFrom (t : FileTree) (recursive : Bool) (ps : List Pending) (found : Found) :
    Except Failure Found :=
  match ps with
  | [] => .ok found
  | p :: ps =>
    match _h : visit t recursive p with
    | .error failure => .error failure
    | .ok (.file full name) => walkFrom t recursive ps (addFound full name found)
    | .ok (.children cs) => walkFrom t recursive (cs ++ ps) found
    | .ok .nothing => walkFrom t recursive ps found
termination_by weight t ps
decreasing_by
  · have := p.weight_pos t
    simp only [weight, List.map_cons, total]
    omega
  · have := weight_children _h
    rw [weight_append]
    simp only [weight, List.map_cons, total] at this ⊢
    omega
  · have := p.weight_pos t
    simp only [weight, List.map_cons, total]
    omega

def Pending.ofArgument (path : List Char) : Pending :=
  ⟨Path.normal path, none, 0⟩

/-- The files that arguments lead to. -/
def walk (t : FileTree) (paths : List (List Char)) (recursive : Bool) : Except Failure Found :=
  walkFrom t recursive (paths.map Pending.ofArgument) []

end Marginalia.Source
