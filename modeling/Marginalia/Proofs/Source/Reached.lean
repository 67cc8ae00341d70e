import Marginalia.Proofs.Source.Growth
import Marginalia.Proofs.Source.Refusal

/-! # The paths a walk comes to

A walk comes to its arguments, and to every entry of a directory it opens. What it finds are the files
among these paths, each once, under its absolute spelling.
-/
namespace Marginalia.Source

open Text

/-- The path of a stop: its argument as it was given, with the names from it down put behind. -/
def Stop.path (v : Stop) : List Char :=
  Path.below v.argument v.names

/-- The stops that a walk comes to. -/
inductive Reached (t : FileTree) (recursive : Bool) (paths : List (List Char)) : Stop → Prop where
  | argument {a : List Char} (ha : a ∈ paths) : Reached t recursive paths (.ofArgument a)
  | child {v : Stop} {place : Place} {n : Name} (hv : Reached t recursive paths v)
      (hdir : t.stat (t.absolute v.path) = .ok (place, .dir)) (hopen : v.names = [] ∨ recursive = true)
      (hn : (t.get? (place ++ [n])).isSome) : Reached t recursive paths (v.child n)

/-- A walk comes to a stop and takes it for a file. -/
structure VisitedAs (t : FileTree) (recursive : Bool) (paths : List (List Char)) (v : Stop)
    (full : List Char) : Prop where
  reached : Reached t recursive paths v
  visit : ∃ name, visit t recursive v.pending = .ok (.file full name)

variable {t : FileTree} {recursive : Bool} {paths : List (List Char)} {v : Stop} {full : List Char}

theorem seen_below_argument {cwd : List Char} (h : Path.IsBase cwd) (a : List Char) {ns : List Name}
    (hns : ∀ n ∈ ns, IsName n) : Path.seen cwd (Path.below a ns) =
      ⟨(Path.seen cwd a).root, (Path.seen cwd a).segments ++ ns⟩ := by
  by_cases ha : a = []
  · subst ha
    cases ns with
    | nil => simp [Path.below]
    | cons n ns =>
      have hn := hns n List.mem_cons_self
      have htail : ∀ m ∈ ns, IsName m := fun m hm => hns m (List.mem_cons_of_mem _ hm)
      have hjoin : Path.joined [] n = n := by simp [Path.joined]
      have hempty : (Path.parse []).segments = [] := by decide
      have hfirst : Path.seen cwd n = ⟨(Path.seen cwd []).root, (Path.seen cwd []).segments ++ [n]⟩ := by
        rw [Path.seen, Path.seen, Path.parse_joined h.ne_nil hn.head_ne_slash,
          Path.parse_joined h.ne_nil (by simp), Path.parse_of_isName hn, hempty, List.append_nil]
        simp only [Path.collapse, Path.collapseOnto_append_singleton _ _ _ hn.ne_up]
      rw [Path.below_cons, hjoin, Path.seen_below h hn.ne_nil htail, hfirst, List.append_assoc]
      rfl
  · exact Path.seen_below h ha hns

section Reached

variable (ht : t.WellFormed)
include ht

theorem Stop.absolute_path (hv : v.Valid) : t.absolute v.path = v.full t := by
  rw [Stop.full_eq ht hv, FileTree.absolute, Path.absolute_eq, path, seen_below_argument ht.isBase_cwd _ hv]

theorem Reached.fit (h : Reached t recursive paths v) : v.Fit := by
  induction h with
  | argument ha => exact fit_arguments _ _ (List.mem_map_of_mem ha)
  | child _ _ _ hn ih => exact ih.child (ht.isFileName hn)

/-- A stop is taken for a file under its absolute path, where a file stands. -/
theorem visit_eq_file_iff (hv : v.Valid) :
    (∃ name, visit t recursive v.pending = .ok (.file full name)) ↔
      full = t.absolute v.path ∧ ∃ place content, t.stat full = .ok (place, .file content) := by
  rw [visit_pending _ ht hv, Stop.absolute_path ht hv]
  constructor
  · rintro ⟨name, h⟩
    cases hstat : t.stat (v.full t) with
    | error fault =>
      rw [hstat] at h
      cases h
    | ok x =>
      obtain ⟨place, e⟩ := x
      rw [hstat] at h
      cases e with
      | file content =>
        cases h
        exact ⟨rfl, place, content, hstat⟩
      | dir =>
        dsimp only at h
        split at h
        · cases h
        · split at h <;> cases h
      | link target => cases h
      | pipe => cases h
  · rintro ⟨rfl, place, content, hstat⟩
    rw [hstat]
    exact ⟨_, rfl⟩

theorem inherited_reached : Inherited t recursive (Reached t recursive paths) := by
  intro s place n hs hstat hopen hn
  refine .child hs ?_ hopen hn
  rw [Stop.absolute_path ht (hs.fit ht).valid]
  exact hstat

/-- A tour that succeeds gets to every stop that the walk comes to. -/
theorem Reached.tour {visited : List (List Char × List Char)}
    (htour : Tour t recursive (paths.map Stop.ofArgument) (.ok visited))
    (h : Reached t recursive paths v) : ∃ first, Tour t recursive [v] (.ok first) ∧ first ⊆ visited := by
  induction h with
  | argument ha => exact htour.of_mem (List.mem_map_of_mem ha)
  | @child v place n hv hdir hopen hn ih =>
    obtain ⟨first, hfirst, hsub⟩ := ih
    obtain ⟨place', e, inside, later, hstat, rfl, -, hcase⟩ := hfirst.cons_ok
    have hvalid := (hv.fit ht).valid
    rw [Stop.absolute_path ht hvalid, hstat] at hdir
    cases hdir
    rcases hcase with ⟨⟨content, hfile⟩, -⟩ | ⟨-, hskip, -⟩ | ⟨-, -, -, ns, hns, hinner⟩
    · cases hfile
    · obtain ⟨hnames, hrec⟩ := hskip rfl
      rcases hopen with hopen | hopen
      · exact absurd hopen hnames
      · rw [hopen] at hrec
        cases hrec
    · have hmem : v.child n ∈ ns.map v.child := List.mem_map_of_mem ((hns.mem_iff n).mpr hn)
      obtain ⟨below, hbelow, hinside⟩ := hinner.of_mem hmem
      refine ⟨below, hbelow, fun x hx => hsub ?_⟩
      exact List.mem_append_left _ (hinside hx)

omit ht in
theorem map_fst_collect (visited : List (List Char × List Char)) :
    (collect visited).map (·.1) = (visited.map (·.1)).eraseDups := by
  rw [collect, List.map_map]
  exact List.map_id _

/-- What a walk finds are the files it comes to, each once. -/
theorem mem_walk_iff {found : Found} (hwalk : walk t paths recursive = .ok found) :
    (found.map (·.1)).Nodup ∧
      ∀ full, full ∈ found.map (·.1) ↔ ∃ v, VisitedAs t recursive paths v full := by
  obtain ⟨visited, htour, rfl⟩ := exists_tour_of_walk ht hwalk
  rw [map_fst_collect]
  refine ⟨nodup_eraseDups _, fun full => ?_⟩
  rw [List.mem_eraseDups]
  constructor
  · intro hfull
    obtain ⟨x, hx, rfl⟩ := List.mem_map.mp hfull
    have hstops : ∀ s ∈ paths.map Stop.ofArgument, Reached t recursive paths s := by
      intro s hs
      obtain ⟨a, ha, rfl⟩ := List.mem_map.mp hs
      exact .argument ha
    obtain ⟨v, hv, rfl, place, content, hstat⟩ :=
      htour.found_at (inherited_reached ht) hstops x hx
    have hvalid := (hv.fit ht).valid
    refine ⟨v, hv, (visit_eq_file_iff ht hvalid).mpr ⟨?_, place, content, hstat⟩⟩
    rw [Stop.absolute_path ht hvalid]
  · rintro ⟨v, hv, hvisit⟩
    have hvalid := (hv.fit ht).valid
    obtain ⟨rfl, place, content, hstat⟩ := (visit_eq_file_iff ht hvalid).mp hvisit
    obtain ⟨first, hfirst, hsub⟩ := hv.tour ht htour
    -- the tour gets to the stop, and takes it for a file as the visit does
    obtain ⟨place', e, inside, later, hstat', rfl, -, hcase⟩ := hfirst.cons_ok
    rw [Stop.absolute_path ht hvalid] at hstat ⊢
    rw [hstat'] at hstat
    cases hstat
    rcases hcase with ⟨-, rfl⟩ | ⟨hfile, -⟩ | ⟨hdir, -⟩
    · exact List.mem_map.mpr ⟨_, hsub (List.mem_append_left _ List.mem_cons_self), rfl⟩
    · exact absurd rfl (hfile content)
    · cases hdir

end Reached

end Marginalia.Source
