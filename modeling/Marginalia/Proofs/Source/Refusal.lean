import Marginalia.Proofs.FileTree.Refusal
import Marginalia.Proofs.Source.Pages

/-! # Sources that the system can name

A walk fails in its own words, unless an argument is no text for the system. What it finds are texts for
the system, so a page is one too when its output directory is.
-/
namespace Marginalia

open Text

/-- Where a computation fails, the command line reports the failure, unless it has a given cause. -/
def Reports {α : Type} (cause : Failure → Prop) (x : Except Failure α) : Prop :=
  ∀ f, x = .error f → f.isReported = true ∨ cause f

namespace HoldsNul

theorem of_below {path : List Char} {ns : List Name} (h : HoldsNul (Path.below path ns)) :
    HoldsNul path ∨ ∃ n ∈ ns, HoldsNul n := by
  induction ns generalizing path with
  | nil => exact Or.inl h
  | cons n ns ih =>
    rcases ih h with h | ⟨m, hm, h⟩
    · rcases h.of_joined with h | h
      · exact Or.inl h
      · exact Or.inr ⟨n, List.mem_cons_self, h⟩
    · exact Or.inr ⟨m, List.mem_cons_of_mem _ hm, h⟩

theorem below {path : List Char} {ns : List Name} (h : HoldsNul path) (hns : ∀ n ∈ ns, IsName n) :
    HoldsNul (Path.below path ns) := by
  induction ns generalizing path with
  | nil => exact h
  | cons n ns ih =>
    have hn := hns n List.mem_cons_self
    apply ih
    · unfold Path.joined
      split
      · next hhead => exact absurd (List.mem_of_mem_head? hhead) hn.no_slash
      · split
        · exact List.mem_append_left _ h
        · exact List.mem_append_left _ h
    · exact fun m hm => hns m (List.mem_cons_of_mem _ hm)

theorem of_normal {path : List Char} (h : HoldsNul (Path.normal path)) : HoldsNul path := by
  obtain ⟨n, hn, hnul⟩ := h.of_text
  rcases Path.mem_collapseOnto hn with hn | hn | rfl
  · simp at hn
  · exact hnul.of_segment hn
  · simp [HoldsNul, up] at hnul

theorem of_absolute {t : FileTree} (ht : t.WellFormed) {path : List Char} (h : HoldsNul (t.absolute path)) :
    HoldsNul path := by
  rcases h.of_normal.of_joined with h | h
  · obtain ⟨n, hn, hnul⟩ := of_text h
    exact absurd hnul (ht.isFileName_of_mem (by simp [ht.cwd]) n hn).no_nul
  · exact h

end HoldsNul

namespace Source

variable {t : FileTree} {recursive : Bool}

/-- A stop below its argument by names of entries. -/
def Stop.Fit (s : Stop) : Prop :=
  ∀ n ∈ s.names, IsFileName n

theorem Stop.Fit.valid {s : Stop} (hs : s.Fit) : s.Valid :=
  fun n hn => (hs n hn).toIsName

theorem Stop.Fit.child {s : Stop} (hs : s.Fit) {n : Name} (hn : IsFileName n) : (s.child n).Fit := by
  intro m hm
  rcases List.mem_append.mp hm with hm | hm
  · exact hs m hm
  · rwa [List.mem_singleton.mp hm]

theorem fit_children (ht : t.WellFormed) {s : Stop} (hs : s.Fit) {place : Place} {ns : List Name}
    (hns : t.Lists place ns) : ∀ c ∈ ns.map s.child, c.Fit := by
  intro c hc
  obtain ⟨n, hn, rfl⟩ := List.mem_map.mp hc
  exact hs.child (ht.isFileName ((hns.mem_iff n).mp hn))

theorem inherited_fit (ht : t.WellFormed) : Inherited t recursive Stop.Fit :=
  fun hs _ _ hn => hs.child (ht.isFileName hn)

theorem fit_arguments (paths : List (List Char)) : ∀ s ∈ paths.map Stop.ofArgument, s.Fit := by
  intro s hs
  obtain ⟨path, _, rfl⟩ := List.mem_map.mp hs
  intro n hn
  simp [Stop.ofArgument] at hn

/-- Only the argument of a stop may be no text for the system. -/
theorem Stop.Fit.holdsNul_argument {s : Stop} (hs : s.Fit) (ht : t.WellFormed) (h : HoldsNul (s.full t)) :
    HoldsNul s.argument := by
  rcases h.of_below with h | ⟨n, hn, h⟩
  · exact h.of_absolute ht
  · exact absurd h (hs n hn).no_nul

theorem Stop.Fit.not_holdsNul_shown {s : Stop} (hs : s.Fit) (h : ¬ HoldsNul (s.full t)) :
    ¬ HoldsNul (s.shown t) := by
  intro hnul
  by_cases hnames : s.names = []
  · rw [shown, if_pos hnames] at hnul
    rw [full, hnames] at h
    exact h hnul.of_baseName
  · rw [shown, if_neg hnames] at hnul
    rcases Path.mem_join hnul with hslash | ⟨n, hn, hnul⟩
    · simp at hslash
    · exact (hs n hn).no_nul hnul

theorem Stop.reported_or_holdsNul {s : Stop} {fault : FileFault} (h : t.stat (s.full t) = .error fault) :
    (s.failure fault).isReported = true ∨ s.failure fault = .file .nulInPath ∧ HoldsNul (s.full t) := by
  unfold failure
  split
  · exact Or.inl rfl
  · exact Or.inr ⟨rfl, FileTree.holdsNul_of_stat h⟩
  · exact Or.inl rfl

theorem reports_walk (ht : t.WellFormed) (paths : List (List Char)) :
    Reports (fun f => f = .file .nulInPath ∧ ∃ path ∈ paths, HoldsNul path) (walk t paths recursive) := by
  obtain ⟨out, htour, hwalk⟩ := (walk_eq_iff_tour ht paths _).mp rfl
  -- below an argument the names are those of entries
  have hP : Inherited t recursive fun s => s.Fit ∧ s.argument ∈ paths :=
    fun hs hstat hopen hn => ⟨inherited_fit ht hs.1 hstat hopen hn, hs.2⟩
  have hstops : ∀ s ∈ paths.map Stop.ofArgument, s.Fit ∧ s.argument ∈ paths := by
    intro s hs
    obtain ⟨path, hpath, rfl⟩ := List.mem_map.mp hs
    exact ⟨fit_arguments paths _ hs, hpath⟩
  intro f hf
  rw [hwalk] at hf
  cases out with
  | ok visited => cases hf
  | error failure =>
    cases hf
    obtain ⟨s, ⟨hs, harg⟩, ⟨fault, hstat, rfl⟩ | ⟨-, rfl⟩⟩ := htour.fails_at hP hstops rfl
    · rcases Stop.reported_or_holdsNul hstat with h | ⟨h, hnul⟩
      · exact Or.inl h
      · exact Or.inr ⟨h, s.argument, harg, hs.holdsNul_argument ht hnul⟩
    · exact Or.inl rfl

theorem not_holdsNul_of_walk (ht : t.WellFormed) {paths : List (List Char)} {found : Found}
    (h : walk t paths recursive = .ok found) : ∀ f ∈ found, ¬ HoldsNul f.1 ∧ ¬ HoldsNul f.2 := by
  obtain ⟨visited, htour, rfl⟩ := exists_tour_of_walk ht h
  intro f hf
  obtain ⟨s, hs, rfl, place, content, hstat⟩ :=
    htour.found_at (inherited_fit ht) (fit_arguments paths) f (mem_of_mem_collect hf)
  have hfull := FileTree.not_holdsNul_of_stat hstat
  exact ⟨hfull, hs.not_holdsNul_shown hfull⟩

theorem holdsNul_of_shortName {name common : List Char} (h : HoldsNul (shortName name common)) :
    HoldsNul name := by
  have hstem : HoldsNul (Path.cutExtension name).1 → HoldsNul name := by
    intro h
    rcases List.mem_append.mp h with h | h
    · exact List.mem_of_mem_take h
    · exact HoldsNul.of_baseName (mem_of_mem_cutName h)
  unfold shortName at h
  dsimp only at h
  split at h
  · exact hstem h
  · cases ha : after? (common ++ ['/']) (Path.cutExtension name).1 with
    | none =>
      rw [ha] at h
      exact hstem h
    | some rest =>
      rw [ha] at h
      rw [after?_eq_some_iff] at ha
      refine hstem ?_
      rw [ha]
      exact List.mem_append_right _ h

theorem holdsNul_of_pagePath {output name : List Char} (h : HoldsNul (pagePath output name)) :
    HoldsNul output ∨ HoldsNul name := by
  rcases List.mem_append.mp h.of_normal with h | h
  · rcases HoldsNul.of_below h with h | ⟨n, hn, h⟩
    · exact Or.inl h
    · exact Or.inr (mem_of_mem_slashParts hn h)
  · simp at h

/-- A page is a text for the system when its output directory is one. -/
theorem holdsNul_of_outputPath {found : Found} (hfound : ∀ f ∈ found, ¬ HoldsNul f.2) {output : List Char}
    {index : Option (List Char)} {s : Source} (hs : s ∈ mapOutputs found output index)
    (h : HoldsNul s.outputPath) : HoldsNul output := by
  obtain ⟨f, hf, rfl⟩ := List.mem_map.mp hs
  refine (holdsNul_of_pagePath h).resolve_right fun hname => ?_
  split at hname
  · simp [HoldsNul] at hname
  · exact hfound f hf (holdsNul_of_shortName hname)

end Source
end Marginalia
