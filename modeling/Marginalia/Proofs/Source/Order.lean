import Marginalia.Proofs.Source.Common
import Marginalia.Proofs.Source.Reached

/-! # The order of arguments

A walk visits what it visits from each argument by itself, one argument after the other. Where no file is
found from two arguments, their order decides in which order files are found, but not which ones or under
which names; and the pages follow from the names.
-/
namespace Marginalia.Source

open Text

variable {t : FileTree} {recursive : Bool}

/-- The files that one argument leads to. -/
def filesFrom (t : FileTree) (recursive : Bool) (argument : List Char) : List (List Char) :=
  match walk t [argument] recursive with
  | .ok found => found.map (·.1)
  | .error _ => []

/-- No file is found from two arguments. -/
def Apart (t : FileTree) (recursive : Bool) (paths : List (List Char)) : Prop :=
  ∀ a ∈ paths, ∀ b ∈ paths, a ≠ b → (filesFrom t recursive a).Disjoint (filesFrom t recursive b)

theorem Apart.argument_eq {paths : List (List Char)} (h : Apart t recursive paths) {a b full : List Char}
    (ha : a ∈ paths) (hb : b ∈ paths) (hfull : full ∈ filesFrom t recursive a)
    (hfull' : full ∈ filesFrom t recursive b) : a = b := by
  by_contra hab
  exact h a ha b hb hab hfull hfull'

section Named

/-- Visits that show each file under one name. -/
def NamedOnce (visited : List (List Char × List Char)) : Prop :=
  ∀ x ∈ visited, ∀ y ∈ visited, x.1 = y.1 → x = y

variable {visited visited' : List (List Char × List Char)}

theorem mem_collect_iff (h : NamedOnce visited) {x : List Char × List Char} :
    x ∈ collect visited ↔ x ∈ visited := by
  refine ⟨mem_of_mem_collect, fun hx => ?_⟩
  have hkey : x.1 ∈ (collect visited).map (·.1) := by
    rw [map_fst_collect, List.mem_eraseDups]
    exact List.mem_map_of_mem hx
  obtain ⟨y, hy, hxy⟩ := List.mem_map.mp hkey
  rwa [← h y (mem_of_mem_collect hy) x hx hxy]

theorem nodup_collect (visited : List (List Char × List Char)) : (collect visited).Nodup := by
  have hkeys : ((collect visited).map (·.1)).Nodup := by
    rw [map_fst_collect]
    exact nodup_eraseDups _
  exact hkeys.of_map

/-- The same visits in another order find the same files. -/
theorem perm_collect (h : NamedOnce visited) (hperm : visited'.Perm visited) :
    (collect visited').Perm (collect visited) := by
  have h' : NamedOnce visited' := fun x hx y hy => h x (hperm.mem_iff.mp hx) y (hperm.mem_iff.mp hy)
  refine (List.perm_ext_iff_of_nodup (nodup_collect _) (nodup_collect _)).mpr fun x => ?_
  rw [mem_collect_iff h, mem_collect_iff h', hperm.mem_iff]

end Named

section Visits

variable {paths : List (List Char)} {visits : List Char → List (List Char × List Char)}

theorem Tour.append_rest {s : Stop} {rest : List Stop} {first later : List (List Char × List Char)}
    (h : Tour t recursive [s] (.ok first)) (hrest : Tour t recursive rest (.ok later)) :
    Tour t recursive (s :: rest) (.ok (first ++ later)) := by
  obtain ⟨place, e, here, none, hstat, rfl, hnone, hcase⟩ := h.cons_ok
  cases hnone
  rw [List.append_nil]
  rcases hcase with ⟨⟨content, rfl⟩, rfl⟩ | ⟨hfile, hdir, rfl⟩ | ⟨rfl, hopen, hlisted, ns, hns, hinner⟩
  · exact .file hstat hrest
  · exact .skip hstat hfile hdir hrest
  · exact .enter hstat hopen hlisted hns hinner hrest

variable (t recursive paths visits) in
/-- The visits of a tour from each argument by itself. -/
def VisitsOf : Prop :=
  ∀ a ∈ paths, Tour t recursive [.ofArgument a] (.ok (visits a))

theorem VisitsOf.tour (h : VisitsOf t recursive paths visits) :
    Tour t recursive (paths.map Stop.ofArgument) (.ok (paths.flatMap visits)) := by
  induction paths with
  | nil => exact .nil
  | cons a paths ih =>
    rw [List.map_cons, List.flatMap_cons]
    exact (h a List.mem_cons_self).append_rest (ih fun b hb => h b (List.mem_cons_of_mem _ hb))

variable (ht : t.WellFormed)
include ht

/-- A walk that succeeds visits each argument by itself. -/
theorem exists_visitsOf {found : Found} (h : walk t paths recursive = .ok found) :
    ∃ visits, VisitsOf t recursive paths visits := by
  obtain ⟨visited, htour, -⟩ := exists_tour_of_walk ht h
  have hfirst : ∀ a ∈ paths, ∃ first, Tour t recursive [.ofArgument a] (.ok first) := by
    intro a ha
    obtain ⟨first, hfirst, -⟩ := htour.of_mem (List.mem_map_of_mem ha)
    exact ⟨first, hfirst⟩
  choose! visits hvisits using hfirst
  exact ⟨visits, hvisits⟩

theorem VisitsOf.walk (h : VisitsOf t recursive paths visits) :
    walk t paths recursive = .ok (collect (paths.flatMap visits)) :=
  walk_of_tour ht h.tour

theorem VisitsOf.mem_filesFrom_iff (h : VisitsOf t recursive paths visits) {a full : List Char}
    (ha : a ∈ paths) : full ∈ filesFrom t recursive a ↔ ∃ x ∈ visits a, x.1 = full := by
  have hwalk : Source.walk t [a] recursive = (Except.ok (visits a)).map collect :=
    walk_of_tour ht (h a ha)
  simp only [filesFrom, hwalk, Except.map, map_fst_collect, List.mem_eraseDups, List.mem_map]

/-- Below one argument, a file is shown under the names that lead to it. -/
theorem VisitsOf.namedOnce (h : VisitsOf t recursive paths visits) {a : List Char} (ha : a ∈ paths) :
    NamedOnce (visits a) := by
  have hP : Inherited t recursive fun s => s.Valid ∧ s.argument = a :=
    fun hs hstat hopen hn => ⟨inherited_valid ht hs.1 hstat hopen hn, hs.2⟩
  have hstops : ∀ s ∈ [Stop.ofArgument a], s.Valid ∧ s.argument = a := by
    intro s hs
    rw [List.mem_singleton.mp hs]
    exact ⟨valid_arguments [a] _ List.mem_cons_self, rfl⟩
  intro x hx y hy hfull
  obtain ⟨⟨b, ns⟩, ⟨hs, rfl⟩, rfl, -⟩ := (h a ha).found_at hP hstops x hx
  obtain ⟨⟨c, ms⟩, ⟨hs', rfl⟩, rfl, -⟩ := (h _ ha).found_at hP hstops y hy
  -- the absolute path tells the names
  dsimp only at hfull
  rw [Stop.full_eq ht hs, Stop.full_eq ht hs'] at hfull
  have hpath := congrArg Path.parse hfull
  rw [Path.parse_text (Stop.rooted_full ht hs).spelled, Path.parse_text (Stop.rooted_full ht hs').spelled]
    at hpath
  obtain rfl : ns = ms := List.append_cancel_left (Path.mk.inj hpath).2
  rfl

variable (hapart : Apart t recursive paths)
include hapart

theorem VisitsOf.namedOnce_flatMap (h : VisitsOf t recursive paths visits) :
    NamedOnce (paths.flatMap visits) := by
  intro x hx y hy hxy
  obtain ⟨a, ha, hxa⟩ := List.mem_flatMap.mp hx
  obtain ⟨b, hb, hyb⟩ := List.mem_flatMap.mp hy
  obtain rfl : a = b := hapart.argument_eq ha hb ((h.mem_filesFrom_iff ht ha).mpr ⟨x, hxa, hxy⟩)
    ((h.mem_filesFrom_iff ht hb).mpr ⟨y, hyb, rfl⟩)
  exact h.namedOnce ht ha x hxa y hyb hxy

/-- The visits to the files of one argument, as often as the argument is given. -/
theorem VisitsOf.filter_flatMap (h : VisitsOf t recursive paths visits) {a : List Char} (ha : a ∈ paths)
    {qs : List (List Char)} (hqs : qs ⊆ paths) :
    (qs.flatMap visits).filter (fun x => decide (x.1 ∈ filesFrom t recursive a)) =
      (List.replicate (qs.count a) (visits a)).flatten := by
  induction qs with
  | nil => rfl
  | cons b qs ih =>
    have hb : b ∈ paths := hqs List.mem_cons_self
    have ih := ih fun c hc => hqs (List.mem_cons_of_mem _ hc)
    have hfiles : ∀ x ∈ visits b, x.1 ∈ filesFrom t recursive b :=
      fun x hx => (h.mem_filesFrom_iff ht hb).mpr ⟨x, hx, rfl⟩
    rw [List.flatMap_cons, List.filter_append, ih]
    by_cases hab : b = a
    · subst hab
      have hall : (visits b).filter (fun x => decide (x.1 ∈ filesFrom t recursive b)) = visits b :=
        List.filter_eq_self.mpr fun x hx => decide_eq_true (hfiles x hx)
      rw [hall, List.count_cons_self, List.replicate_succ, List.flatten_cons]
    · have hnone : (visits b).filter (fun x => decide (x.1 ∈ filesFrom t recursive a)) = [] := by
        refine List.filter_eq_nil_iff.mpr fun x hx hmem => hab ?_
        exact hapart.argument_eq hb ha (hfiles x hx) (of_decide_eq_true hmem)
      rw [hnone, List.nil_append, List.count_cons_of_ne hab]

end Visits

section Pages

variable {found found' : Found} (output : List Char) (index : Option (List Char))

theorem commonDirectory_of_perm (hperm : found'.Perm found) :
    commonDirectory (found'.map (·.2)) = commonDirectory (found.map (·.2)) := by
  by_cases hne : found = []
  · subst hne
    rw [hperm.eq_nil]
  · have hmem : ∀ name, name ∈ found'.map (·.2) ↔ name ∈ found.map (·.2) :=
      fun name => (hperm.map _).mem_iff
    rw [commonDirectory, commonDirectory, sharedParts_congr (by simpa using hne) hmem]

theorem perm_mapOutputs (hperm : found'.Perm found) :
    (mapOutputs found' output index).Perm (mapOutputs found output index) := by
  rw [mapOutputs, mapOutputs, commonDirectory_of_perm hperm]
  exact hperm.map _

theorem filter_mapOutputs_of_perm (hperm : found'.Perm found) (keep : List Char → Bool)
    (hkeep : found'.filter (fun f => keep f.1) = found.filter fun f => keep f.1) :
    (mapOutputs found' output index).filter (fun s => keep s.fullPath) =
      (mapOutputs found output index).filter fun s => keep s.fullPath := by
  rw [mapOutputs, mapOutputs, commonDirectory_of_perm hperm, List.filter_map, List.filter_map]
  exact congrArg _ hkeep

end Pages

/-- Where no file is found from two arguments, the order of the arguments does not decide whether the walk
succeeds, nor which sources there are and where their pages go. The sources of each argument keep their
order. -/
theorem sources_of_reordered (ht : t.WellFormed) {paths paths' : List (List Char)}
    (hperm : paths'.Perm paths) (hapart : Apart t recursive paths) (output : List Char)
    (index : Option (List Char)) :
    ((∃ found', walk t paths' recursive = .ok found') ↔ ∃ found, walk t paths recursive = .ok found) ∧
    ∀ found found', walk t paths recursive = .ok found → walk t paths' recursive = .ok found' →
      (mapOutputs found' output index).Perm (mapOutputs found output index) ∧
      (∀ s ∈ mapOutputs found output index, ∃ a ∈ paths, s.fullPath ∈ filesFrom t recursive a) ∧
      ∀ a ∈ paths,
        (mapOutputs found' output index).filter (fun s => s.fullPath ∈ filesFrom t recursive a) =
          (mapOutputs found output index).filter fun s => s.fullPath ∈ filesFrom t recursive a := by
  refine ⟨⟨?_, ?_⟩, fun found found' hwalk hwalk' => ?_⟩
  · rintro ⟨found', hwalk'⟩
    obtain ⟨visits, hvisits⟩ := exists_visitsOf ht hwalk'
    exact ⟨_, VisitsOf.walk ht fun a ha => hvisits a (hperm.mem_iff.mpr ha)⟩
  · rintro ⟨found, hwalk⟩
    obtain ⟨visits, hvisits⟩ := exists_visitsOf ht hwalk
    exact ⟨_, VisitsOf.walk ht fun a ha => hvisits a (hperm.mem_iff.mp ha)⟩
  · obtain ⟨visits, hvisits⟩ := exists_visitsOf ht hwalk
    have hvisits' : VisitsOf t recursive paths' visits := fun a ha => hvisits a (hperm.mem_iff.mp ha)
    obtain rfl := Except.ok.inj (hwalk.symm.trans (hvisits.walk ht))
    obtain rfl := Except.ok.inj (hwalk'.symm.trans (hvisits'.walk ht))
    have hfound := perm_collect (hvisits.namedOnce_flatMap ht hapart) (hperm.flatMap_right visits)
    refine ⟨perm_mapOutputs _ _ hfound, fun s hs => ?_, fun a ha => ?_⟩
    · obtain ⟨f, hf, rfl⟩ := List.mem_map.mp hs
      obtain ⟨a, ha, hfa⟩ := List.mem_flatMap.mp (mem_of_mem_collect hf)
      exact ⟨a, ha, (hvisits.mem_filesFrom_iff ht ha).mpr ⟨f, hfa, rfl⟩⟩
    · have hfilter := filter_collect fun full => decide (full ∈ filesFrom t recursive a)
      refine filter_mapOutputs_of_perm _ _ hfound (fun full => full ∈ filesFrom t recursive a) ?_
      rw [hfilter, hfilter, hvisits.filter_flatMap ht hapart ha (List.Subset.refl _),
        hvisits.filter_flatMap ht hapart ha hperm.subset, hperm.count_eq]

/-- A directory, a file and a link to the directory, in two orders: the file in the directory has two
paths, so it is found from two arguments as two files. -/
theorem sources_of_reordered_linkedTree :
    Apart linkedTree true ["a".toList, "b.js".toList, "l".toList] ∧
      walk linkedTree ["a".toList, "b.js".toList, "l".toList] true =
        .ok [("/d/a/x.md".toList, "x.md".toList), ("/d/b.js".toList, "b.js".toList),
          ("/d/l/x.md".toList, "x.md".toList)] ∧
      ∃ found', walk linkedTree ["l".toList, "b.js".toList, "a".toList] true = .ok found' ∧
        (mapOutputs found' "/o".toList none).Perm (mapOutputs [("/d/a/x.md".toList, "x.md".toList),
          ("/d/b.js".toList, "b.js".toList), ("/d/l/x.md".toList, "x.md".toList)] "/o".toList none) := by
  have ht : linkedTree.WellFormed := FileTree.wellFormed_of_check (by decide)
  have hlist : linkedTree.Lists ["d".toList, "a".toList] ["x.md".toList] := ht.lists_of (by cbv)
  have hb : linkedTree.stat "/d/b.js".toList = .ok (["d".toList, "b.js".toList], .file .empty) := by
    cbv
  have ha : linkedTree.stat "/d/a".toList = .ok (["d".toList, "a".toList], .dir) := by cbv
  have hax : linkedTree.stat "/d/a/x.md".toList =
      .ok (["d".toList, "a".toList, "x.md".toList], .file .empty) := by cbv
  have hl : linkedTree.stat "/d/l".toList = .ok (["d".toList, "a".toList], .dir) := by cbv
  have hlx : linkedTree.stat "/d/l/x.md".toList =
      .ok (["d".toList, "a".toList, "x.md".toList], .file .empty) := by cbv
  have htour : Tour linkedTree true [.ofArgument "a".toList] _ :=
    .enter ha (Or.inl rfl) (by decide) hlist (.file hax .nil) .nil
  have htour' : Tour linkedTree true [.ofArgument "l".toList] _ :=
    .enter hl (Or.inl rfl) (by decide) hlist (.file hlx .nil) .nil
  have hvisits : VisitsOf linkedTree true ["a".toList, "b.js".toList, "l".toList] fun argument =>
      if argument = "a".toList then [("/d/a/x.md".toList, "x.md".toList)]
      else if argument = "b.js".toList then [("/d/b.js".toList, "b.js".toList)]
      else [("/d/l/x.md".toList, "x.md".toList)] := by
    intro argument hargument
    fin_cases hargument
    · exact htour
    · exact .file hb .nil
    · exact htour'
  have hapart : Apart linkedTree true ["a".toList, "b.js".toList, "l".toList] := by
    intro a ha b hb hab full hfull hfull'
    rw [hvisits.mem_filesFrom_iff ht ha] at hfull
    rw [hvisits.mem_filesFrom_iff ht hb] at hfull'
    obtain ⟨x, hx, rfl⟩ := hfull
    obtain ⟨y, hy, hxy⟩ := hfull'
    revert a b x y
    decide
  have hperm : ["l".toList, "b.js".toList, "a".toList].Perm ["a".toList, "b.js".toList, "l".toList] := by
    decide
  have hwalk := hvisits.walk ht
  obtain ⟨hok, hsame⟩ := sources_of_reordered ht hperm hapart "/o".toList none
  obtain ⟨found', hwalk'⟩ := hok.mpr ⟨_, hwalk⟩
  exact ⟨hapart, hwalk, found', hwalk', (hsame _ _ hwalk hwalk').1⟩

end Marginalia.Source
