import Mathlib.Data.List.Basic
import Mathlib.Data.List.Sort
import Marginalia.Proofs.FileTree.Growth
import Marginalia.Proofs.Source.Tour

/-! # The tour through a tree that has grown

A tour through a tree that has grown finds what it found before, in the order it had, and new files in
between. It gets through unless it comes to a path that is too long, as a path through a link may be.
-/
namespace Marginalia.Source

open Text

variable {t u : FileTree} {recursive : Bool} {s : Stop}

section Stops

theorem has_iff {path : List Char} : t.has path = true ↔ ∃ x, t.stat path = .ok x := by
  unfold FileTree.has
  cases t.stat path with
  | ok x => simp
  | error fault => simp

theorem has_of_tour {stops : List Stop} {visited : List (List Char × List Char)}
    (htour : Tour t recursive stops (.ok visited)) : ∀ s ∈ stops, t.has (s.full t) = true := by
  induction htour using Tour.ok_induction with
  | nil => simp
  | file hstat _ ih => exact List.forall_mem_cons.mpr ⟨has_iff.mpr ⟨_, hstat⟩, ih⟩
  | skip hstat _ _ _ ih => exact List.forall_mem_cons.mpr ⟨has_iff.mpr ⟨_, hstat⟩, ih⟩
  | enter hstat _ _ _ _ _ _ ihrest =>
    exact List.forall_mem_cons.mpr ⟨has_iff.mpr ⟨_, hstat⟩, ihrest⟩

theorem Tour.cons_ok {rest : List Stop} {visited : List (List Char × List Char)}
    (h : Tour t recursive (s :: rest) (.ok visited)) :
    ∃ place e first later, t.stat (s.full t) = .ok (place, e) ∧ visited = first ++ later ∧
      Tour t recursive rest (.ok later) ∧
      ((∃ content, e = .file content) ∧ first = [(s.full t, s.shown t)] ∨
        (∀ content, e ≠ .file content) ∧ (e = .dir → s.names ≠ [] ∧ recursive = false) ∧ first = [] ∨
        e = .dir ∧ (s.names = [] ∨ recursive = true) ∧ place ∉ t.unlisted ∧
          ∃ ns, t.Lists place ns ∧ Tour t recursive (ns.map s.child) (.ok first)) := by
  generalize hstops : s :: rest = stops at h
  induction h using Tour.ok_induction with
  | nil => cases hstops
  | @file _ _ place content more hstat hrest _ =>
    cases hstops
    exact ⟨place, _, _, more, hstat, rfl, hrest, Or.inl ⟨⟨content, rfl⟩, rfl⟩⟩
  | @skip _ _ place e more hstat hfile hdir hrest _ =>
    cases hstops
    exact ⟨place, e, [], more, hstat, rfl, hrest, Or.inr (Or.inl ⟨hfile, hdir, rfl⟩)⟩
  | @enter _ _ place ns first more hstat hopen hlisted hns hinner hrest _ _ =>
    cases hstops
    exact ⟨place, .dir, first, more, hstat, rfl, hrest,
      Or.inr (Or.inr ⟨rfl, hopen, hlisted, ns, hns, hinner⟩)⟩

/-- A tour that succeeds visits each of its stops, and finds what lies below it. -/
theorem Tour.of_mem {stops : List Stop} {visited : List (List Char × List Char)}
    (h : Tour t recursive stops (.ok visited)) (hs : s ∈ stops) :
    ∃ first, Tour t recursive [s] (.ok first) ∧ first ⊆ visited := by
  induction stops generalizing visited with
  | nil => simp at hs
  | cons c stops ih =>
    obtain ⟨place, e, first, later, hstat, rfl, hrest, hcase⟩ := h.cons_ok
    rcases List.mem_cons.mp hs with rfl | hs
    · refine ⟨first, ?_, List.subset_append_left ..⟩
      rcases hcase with ⟨⟨content, rfl⟩, rfl⟩ | ⟨hfile, hdir, rfl⟩ |
        ⟨rfl, hopen, hlisted, ns, hns, hinner⟩
      · exact .file hstat .nil
      · exact .skip hstat hfile hdir .nil
      · -- the tour through the directory alone is the tour that enters it and goes no further
        have henter := Tour.enter hstat hopen hlisted hns hinner .nil
        simpa [bind, Except.bind, pure, Except.pure] using henter
    · obtain ⟨inside, htour, hsub⟩ := ih hrest hs
      exact ⟨inside, htour, List.Subset.trans hsub (List.subset_append_right ..)⟩

end Stops

section Tour

variable (ht : t.WellFormed) (hu : u.WellFormed) (hg : t.Grows u)
include ht hu hg

end Tour

section Walk

theorem filter_addFound (keep : List Char → Bool) (path name : List Char) (found : Found) :
    (addFound path name found).filter (fun f => keep f.1) =
      if keep path then addFound path name (found.filter fun f => keep f.1)
      else found.filter fun f => keep f.1 := by
  induction found with
  | nil => cases h : keep path <;> simp [addFound, h]
  | cons f found ih =>
    obtain ⟨p, n⟩ := f
    by_cases hp : p = path
    · subst hp
      cases h : keep p <;> simp [addFound, h]
    · cases h : keep p <;> cases h' : keep path <;> simp_all [addFound]

theorem filter_collect (keep : List Char → Bool) (visited : List (List Char × List Char)) :
    (collect visited).filter (fun f => keep f.1) = collect (visited.filter fun x => keep x.1) := by
  induction visited using List.reverseRecOn with
  | nil => rfl
  | append_singleton visited x ih =>
    obtain ⟨path, name⟩ := x
    rw [collect_concat, filter_addFound, ih, List.filter_append]
    cases h : keep path with
    | true =>
      rw [if_pos rfl, ← collect_concat]
      simp [h]
    | false => simp [h]

end Walk

section Regrown

variable (ht : t.WellFormed) (hu : u.WellFormed) (hg : t.Grows u)
include ht hu hg

end Regrown

end Marginalia.Source
