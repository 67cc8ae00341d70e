import Marginalia.Proofs.Path.Respelled
import Marginalia.Proofs.Pipeline.Effects
import Marginalia.Proofs.Source.Names
import Marginalia.Proofs.Source.Reached

/-! # The source that is the index

The index is given as a path text, in a spelling of its own. The source that is marked is the file that the
walk came to under a path with the same absolute form, whatever its spelling; at most one source is.
-/
namespace Marginalia.Pipeline

open Text

variable {t : FileTree} {home s : List Char} {layouts : Layouts} {options : Value}
  {es : List (Value × Value)} {c : Configuration} {paths : List (List Char)} {found : Found}

theorem index_of_resolve (hc : Configuration.resolve t home layouts options = .ok c)
    (hes : Configuration.entriesOf options = .ok es) (hindex : Value.field? "index" es = some (.text s))
    (hne : s ≠ []) (htilde : s.head? ≠ some '~') : c.index = some (t.absolute s) := by
  obtain ⟨es', hes', hres⟩ := Configuration.resolve_eq_ok_iff.mp hc
  rw [hes] at hes'
  cases hes'
  have hchosen : Configuration.chosen es "index" = .text s := by
    rw [Configuration.chosen, hindex]
  have htruthy : (Value.text s).truthy = true := by simpa [Value.truthy] using hne
  have hhome : Path.expandHome? home s = some s := by
    unfold Path.expandHome?
    split <;> simp_all
  have hpath : Configuration.absolutePath t home (.text s) = .ok (t.absolute s) := by
    simp only [Configuration.absolutePath, Value.toText, hhome]
  have hresolved := hres.index
  rw [hchosen, Configuration.indexOf, if_pos htruthy, hpath] at hresolved
  exact (Except.ok.inj hresolved).symm

section Marks

variable {output index : List Char} {e : Source}

theorem mem_mapOutputs_index (he : e ∈ Source.mapOutputs found output (some index)) :
    e.fullPath ∈ found.map (·.1) ∧ (e.isIndex = true ↔ e.fullPath = index) := by
  obtain ⟨f, hf, rfl⟩ := List.mem_map.mp he
  refine ⟨List.mem_map_of_mem hf, ?_⟩
  simp [Source.ofFound, eq_comm]

theorem map_fullPath_mapOutputs (found : Found) (output : List Char) (index : Option (List Char)) :
    (Source.mapOutputs found output index).map (·.fullPath) = found.map (·.1) := by
  rw [Source.mapOutputs, List.map_map]
  rfl

/-- A file that is found once is marked at most once. -/
theorem length_marked_le (hnodup : (found.map (·.1)).Nodup) :
    ((Source.mapOutputs found output (some index)).filter (·.isIndex)).length ≤ 1 := by
  rw [← map_fullPath_mapOutputs found output (some index)] at hnodup
  have hmarked := hnodup.sublist ((List.filter_sublist (p := Source.isIndex)).map Source.fullPath)
  have hall : ∀ path ∈ ((Source.mapOutputs found output (some index)).filter (·.isIndex)).map (·.fullPath),
      path = index := by
    intro path hpath
    obtain ⟨e, he, rfl⟩ := List.mem_map.mp hpath
    obtain ⟨hmem, hindex⟩ := List.mem_filter.mp he
    exact (mem_mapOutputs_index hmem).2.mp hindex
  rw [List.eq_replicate_of_mem hall, List.nodup_replicate, List.length_map] at hmarked
  exact hmarked

theorem page_of_marked {P : Path} (hP : P.Rooted) {index : Option (List Char)}
    (he : e ∈ Source.mapOutputs found P.text index) (hindex : e.isIndex = true) :
    e.relativeName = "index".toList ∧ e.outputPath = Path.joined P.text "index.html".toList := by
  obtain ⟨-, hpage, hrel⟩ := Source.mem_mapOutputs he
  rw [hindex, if_pos rfl] at hrel
  have hname : ∀ m ∈ slashParts "index".toList, IsName m := by
    intro m hm
    rw [slashParts_of_no_slash (by decide), List.mem_singleton] at hm
    rw [hm]
    exact ⟨⟨by decide, by decide, by decide⟩, by decide⟩
  refine ⟨hrel, ?_⟩
  rw [hpage, hrel, Source.pagePath_eq_joined hP hname]
  rfl

end Marks

theorem rootOf_placeText (ht : t.WellFormed) : Root.of (FileTree.placeText t.cwd) = .single := by
  rw [← Path.root_parse, ht.parse_cwd]

/-- The sources are the files that the walk came to. One is marked as the index when the path it was
visited under, however it is spelled, has the absolute form that the index has; two spellings of one path
have the same form unless just one of them starts with two slashes for a root. So at most one source is
marked, and it has the page of that name in the output directory. -/
theorem index_matches_spellings (ht : t.WellFormed)
    (hc : Configuration.resolve t home layouts options = .ok c)
    (hes : Configuration.entriesOf options = .ok es) (hindex : Value.field? "index" es = some (.text s))
    (hne : s ≠ []) (htilde : s.head? ≠ some '~')
    (hwalk : Source.walk t paths c.recursive = .ok found) :
    (∀ e ∈ Source.mapOutputs found c.output c.index,
      (∃ v, Source.VisitedAs t c.recursive paths v e.fullPath) ∧
      (∀ v, Source.VisitedAs t c.recursive paths v e.fullPath →
        (e.isIndex = true ↔ t.absolute v.path = t.absolute s) ∧
        (Path.Respelled (FileTree.placeText t.cwd) v.path s →
          (e.isIndex = true ↔ (Root.of v.path = .double ↔ Root.of s = .double)))) ∧
      (e.isIndex = true → e.relativeName = "index".toList ∧
        e.outputPath = Path.joined c.output "index.html".toList)) ∧
    (∀ v full, Source.VisitedAs t c.recursive paths v full →
      ∃ e ∈ Source.mapOutputs found c.output c.index, e.fullPath = full) ∧
    ((Source.mapOutputs found c.output c.index).filter (·.isIndex)).length ≤ 1 := by
  obtain ⟨es', -, hres⟩ := Configuration.resolve_eq_ok_iff.mp hc
  obtain ⟨P, hP, hout⟩ := Configuration.rooted_of_absolutePath ht hres.output
  obtain ⟨hnodup, hmem⟩ := Source.mem_walk_iff ht hwalk
  rw [index_of_resolve hc hes hindex hne htilde, hout]
  refine ⟨fun e he => ?_, fun v full hv => ?_, length_marked_le hnodup⟩
  · obtain ⟨hfull, hmark⟩ := mem_mapOutputs_index he
    refine ⟨(hmem _).mp hfull, fun v hv => ?_, page_of_marked hP he⟩
    have hvalid := (hv.reached.fit ht).valid
    obtain ⟨hpath, -⟩ := (Source.visit_eq_file_iff ht hvalid).mp hv.visit
    -- however it is spelled, a path has one absolute form
    have hsame : e.isIndex = true ↔ t.absolute v.path = t.absolute s := by rw [hmark, hpath]
    refine ⟨hsame, fun hspelled => ?_⟩
    rw [hsame]
    exact hspelled.absolute_eq_iff ht.isBase_cwd (rootOf_placeText ht)
  · have hfull := (hmem full).mpr ⟨v, hv⟩
    rw [← map_fullPath_mapOutputs found P.text (some (t.absolute s))] at hfull
    obtain ⟨e, he, rfl⟩ := List.mem_map.mp hfull
    exact ⟨e, he, rfl⟩

section Sample

/-- Options that name the layout and the index. -/
def indexOptions (index : String) : Value :=
  .map [(.ofString "layout", .ofString "/l"), (.ofString "index", .ofString index)]

def indexConfiguration (index : String) : Configuration :=
  { sampleConfiguration with index := some index.toList, recursive := false }

theorem walk_nested_dir : Source.walk (sampleTree nestedFiles) ["./d//".toList] false =
    .ok [("/w/d/a.md".toList, "a.md".toList)] := by
  have ht := sampled_nested.wellFormed
  have hd : (sampleTree nestedFiles).Lists ["w".toList, "d".toList] ["a.md".toList] := ht.lists_of (by cbv)
  have hdir : (sampleTree nestedFiles).stat "/w/d".toList = .ok (["w".toList, "d".toList], .dir) := by
    cbv
  have hfile : (sampleTree nestedFiles).stat "/w/d/a.md".toList =
      .ok (["w".toList, "d".toList, "a.md".toList], .file ⟨#[104]⟩) := by cbv
  have htour : Source.Tour (sampleTree nestedFiles) false
      (["./d//".toList].map Source.Stop.ofArgument) _ :=
    .enter hdir (Or.inl rfl) (by decide) hd (.file hfile .nil) .nil
  exact Source.walk_of_tour ht htour

/-- An index that is spelled through another directory, for a file in a directory that is spelled with
slashes to spare. -/
theorem index_matches_nested :
    (sampleTree nestedFiles).WellFormed ∧
      Path.Respelled "/w".toList "./d//a.md".toList "x/../d/a.md".toList ∧
      ∃ e ∈ Source.mapOutputs [("/w/d/a.md".toList, "a.md".toList)] "/w/docs".toList
          (some "/w/d/a.md".toList),
        e.isIndex = true ∧ e.outputPath = "/w/docs/index.html".toList := by
  have ht := sampled_nested.wellFormed
  have hc : Configuration.resolve (sampleTree nestedFiles) "/".toList sampleLayouts
      (indexOptions "x/../d/a.md") = .ok (indexConfiguration "/w/d/a.md") := by cbv
  have hx : IsName "x".toList := ⟨⟨by decide, by decide, by decide⟩, by decide⟩
  have hslash : Path.Shortens "/w".toList "./d//a.md".toList "./d/a.md".toList :=
    .slash "./d".toList "a.md".toList
  have hstay : Path.Shortens "/w".toList "./d/a.md".toList "d/a.md".toList := .stayFirst (by decide)
  have hup : Path.Shortens "/w".toList "x/../d/a.md".toList "d/a.md".toList := .upFirst hx (by decide)
  have hspelled : Path.Respelled "/w".toList "./d//a.md".toList "x/../d/a.md".toList :=
    .trans _ _ _ (.rel _ _ hslash) (.trans _ _ _ (.rel _ _ hstay) (.symm _ _ (.rel _ _ hup)))
  have hdir : (sampleTree nestedFiles).stat ((sampleTree nestedFiles).absolute "./d//".toList) =
      .ok (["w".toList, "d".toList], .dir) := by cbv
  have hvisit : Source.VisitedAs (sampleTree nestedFiles) false ["./d//".toList]
      ⟨"./d//".toList, ["a.md".toList]⟩ "/w/d/a.md".toList :=
    ⟨.child (.argument List.mem_cons_self) hdir (Or.inl rfl) (by decide), "a.md".toList, by cbv⟩
  obtain ⟨hmarks, hall, -⟩ := index_matches_spellings ht hc (Configuration.entriesOf_map _)
    (s := "x/../d/a.md".toList) (by cbv) (by decide) (by decide) walk_nested_dir
  obtain ⟨e, he, hfull⟩ := hall _ _ hvisit
  obtain ⟨-, hmatch, hpage⟩ := hmarks e he
  rw [hfull] at hmatch
  have hindex : e.isIndex = true := ((hmatch _ hvisit).2 hspelled).mpr (by decide)
  exact ⟨ht, hspelled, e, he, hindex, (hpage hindex).2⟩

/-- Two slashes for a root make another path of an index, though they lead to the same file. -/
theorem index_unmatched_two_slashes :
    Path.Respelled "/w".toList "d/a.md".toList "//w/d/a.md".toList ∧
      (sampleTree nestedFiles).stat "//w/d/a.md".toList =
        (sampleTree nestedFiles).stat "/w/d/a.md".toList ∧
      Configuration.resolve (sampleTree nestedFiles) "/".toList sampleLayouts
        (indexOptions "//w/d/a.md") = .ok (indexConfiguration "//w/d/a.md") ∧
      Source.walk (sampleTree nestedFiles) ["d/a.md".toList] false =
        .ok [("/w/d/a.md".toList, "a.md".toList)] ∧
      (Source.mapOutputs [("/w/d/a.md".toList, "a.md".toList)] "/w/docs".toList
        (some "//w/d/a.md".toList)).map (·.isIndex) = [false] := by
  have hfile : (sampleTree nestedFiles).stat "/w/d/a.md".toList =
      .ok (["w".toList, "d".toList, "a.md".toList], .file ⟨#[104]⟩) := by cbv
  have htour : Source.Tour (sampleTree nestedFiles) false
      (["d/a.md".toList].map Source.Stop.ofArgument) _ := .file hfile .nil
  have hslash : Path.Shortens "/w".toList "//w/d/a.md".toList "/w/d/a.md".toList :=
    .slash [] "w/d/a.md".toList
  have hrelative : Path.Shortens "/w".toList "/w/d/a.md".toList "d/a.md".toList :=
    .relative (b := "d/a.md".toList) (by decide)
  refine ⟨?_, by cbv, by cbv, Source.walk_of_tour sampled_nested.wellFormed htour, by decide⟩
  exact .trans _ _ _ (.symm _ _ (.rel _ _ hrelative)) (.symm _ _ (.rel _ _ hslash))

end Sample

end Marginalia.Pipeline
