import Mathlib.Data.List.Basic
import Mathlib.Data.List.Infix
import Marginalia.Proofs.Source.Tour

/-! # Where pages lie

Files are shown under names joined by slashes. What is left of such a name without its extension and
the shared directory still has a proper name before each slash, so every page lies below the output
directory.
-/
namespace Marginalia.Source

open Text

/-- A name that a walk shows a file under. -/
def IsShown (name : List Char) : Prop :=
  ∃ ns, ns ≠ [] ∧ (∀ n ∈ ns, IsName n) ∧ name = join ['/'] ns

section Names

variable {t : FileTree} {recursive : Bool} (ht : t.WellFormed)
include ht

theorem Stop.isShown {s : Stop} (hs : s.Valid) {place : Place} {content : ByteArray}
    (hstat : t.stat (s.full t) = .ok (place, .file content)) : IsShown (s.shown t) := by
  by_cases hnames : s.names = []
  · have hrooted := Path.rooted_seen ht.isBase_cwd s.argument
    have hfull : s.full t = (Path.seen (FileTree.placeText t.cwd) s.argument).text := by
      rw [full, hnames]
      rfl
    rcases List.eq_nil_or_concat (Path.seen (FileTree.placeText t.cwd) s.argument).segments with
      hnil | ⟨ms, m, hms⟩
    · have hdir : t.get? (Path.seen (FileTree.placeText t.cwd) s.argument).segments = some .dir := by
        rw [hnil, FileTree.get?_nil]
      have := FileTree.stat_of_dir ht hrooted hdir (hfull ▸ hstat)
      simp at this
    · rw [List.concat_eq_append] at hms
      have hname : IsName m := hrooted.names m (by simp [hms])
      have habs : t.absolute s.argument = Path.text
          ⟨(Path.seen (FileTree.placeText t.cwd) s.argument).root, ms ++ [m]⟩ := by
        rw [← hms]
        rfl
      refine ⟨[m], by simp, by simpa using hname, ?_⟩
      rw [shown, if_pos hnames, habs, Path.baseName_text (hms ▸ hrooted.spelled)]
      rfl
  · exact ⟨s.names, hnames, hs, by rw [shown, if_neg hnames]⟩

omit ht in
theorem mem_of_mem_collect {visited : List (List Char × List Char)} {f : List Char × List Char}
    (hf : f ∈ collect visited) : f ∈ visited := by
  obtain ⟨path, hpath, rfl⟩ := List.mem_map.mp hf
  rw [List.mem_eraseDups, List.mem_map] at hpath
  obtain ⟨x, hx, rfl⟩ := hpath
  cases hl : visited.reverse.lookup x.1 with
  | none =>
    rw [List.lookup_eq_none_iff] at hl
    simpa using hl x (List.mem_reverse.mpr hx)
  | some name =>
    obtain ⟨l₁, l₂, h, -⟩ := List.lookup_eq_some_iff.mp hl
    rw [← List.mem_reverse, h]
    simp

theorem isShown_of_walk {paths : List (List Char)} {found : Found}
    (h : walk t paths recursive = .ok found) : ∀ f ∈ found, IsShown f.2 := by
  obtain ⟨visited, htour, rfl⟩ := exists_tour_of_walk ht h
  intro f hf
  obtain ⟨s, hs, rfl, place, content, hstat⟩ :=
    htour.found_at (inherited_valid ht) (valid_arguments paths) f (mem_of_mem_collect hf)
  exact Stop.isShown ht hs hstat

end Names

section Short

/-- A text with a proper name before each slash. -/
def Tame (s : List Char) : Prop :=
  ∃ ns n, slashParts s = ns ++ [n] ∧ ∀ m ∈ ns, IsName m

theorem Tame.of_append {a s : List Char} (h : Tame (a ++ '/' :: s)) : Tame s := by
  obtain ⟨ns, n, hns, hnames⟩ := h
  rw [slashParts_append_cons] at hns
  have hne : slashParts s ≠ [] := by simp [slashParts]
  obtain ⟨ms, m, hms⟩ := List.eq_nil_or_concat (slashParts s) |>.resolve_left hne
  rw [List.concat_eq_append] at hms
  rw [hms, ← List.append_assoc] at hns
  obtain ⟨rfl, -⟩ := List.append_inj' hns rfl
  exact ⟨ms, m, hms, fun k hk => hnames k (List.mem_append_right _ hk)⟩

theorem mem_of_mem_cutName {n : Name} {c : Char} (h : c ∈ (Path.cutName n).1) : c ∈ n := by
  unfold Path.cutName at h
  dsimp only at h
  split at h
  · rcases List.mem_append.mp h with h | h
    · exact List.takeWhile_subset _ h
    · exact List.mem_of_mem_drop (List.mem_of_mem_take h)
  · exact h

theorem baseName_join {ns : List Name} {n : Name} (hns : ∀ m ∈ ns ++ [n], IsName m) :
    Path.baseName (join ['/'] (ns ++ [n])) = n := by
  have htext : Path.text ⟨.none, ns ++ [n]⟩ = join ['/'] (ns ++ [n]) := by simp [Path.text, Root.text]
  rw [← htext]
  exact Path.baseName_text fun m hm => (hns m hm).toIsSegment

/-- The extension of joined names is that of the last one. -/
theorem cutExtension_join {ns : List Name} {n : Name} (hns : ∀ m ∈ ns ++ [n], IsName m) :
    (Path.cutExtension (join ['/'] (ns ++ [n]))).1 = join ['/'] (ns ++ [(Path.cutName n).1]) := by
  simp only [Path.cutExtension, baseName_join hns]
  by_cases h : ns = []
  · subst h
    simp [join]
  · have hsplit : join ['/'] (ns ++ [n]) = (join ['/'] ns ++ ['/']) ++ n := by
      rw [join_append_singleton h]
      simp
    rw [hsplit, List.length_append, Nat.add_sub_cancel, List.take_left, join_append_singleton h]
    simp

theorem tame_cutExtension {name : List Char} (h : IsShown name) : Tame (Path.cutExtension name).1 := by
  obtain ⟨ns, hne, hns, rfl⟩ := h
  obtain ⟨ms, m, rfl⟩ := List.eq_nil_or_concat ns |>.resolve_left hne
  rw [List.concat_eq_append] at hns ⊢
  have hm : IsName m := hns m (by simp)
  have hstem : '/' ∉ (Path.cutName m).1 := fun hc => hm.no_slash (mem_of_mem_cutName hc)
  refine ⟨ms, (Path.cutName m).1, ?_, fun n hn => hns n (by simp [hn])⟩
  rw [cutExtension_join hns]
  refine splitOn_join (by simp) fun n hn => ?_
  rcases List.mem_append.mp hn with hn | hn
  · exact (hns n (by simp [hn])).no_slash
  · rwa [List.mem_singleton.mp hn]

theorem tame_shortName {name common : List Char} (h : IsShown name) : Tame (shortName name common) := by
  have hstem := tame_cutExtension h
  unfold shortName
  dsimp only
  split
  · exact hstem
  · cases ha : after? (common ++ ['/']) (Path.cutExtension name).1 with
    | none => exact hstem
    | some r =>
      rw [after?_eq_some_iff] at ha
      rw [ha, List.append_assoc] at hstem
      exact hstem.of_append

end Short

section Page

/-- A path text strictly below another one. -/
def Beneath (output path : List Char) : Prop :=
  ∃ ns n, (∀ m ∈ ns, IsName m) ∧ IsName n ∧ path = Path.below output (ns ++ [n])

theorem isName_html {n : Name} (hn : '/' ∉ n) : IsName (n ++ ".html".toList) := by
  have hlen : 5 ≤ (n ++ ".html".toList).length := by simp
  have hlong : ∀ m : Name, m.length < 5 → n ++ ".html".toList ≠ m := by
    rintro m hm rfl
    omega
  exact ⟨⟨hlong _ (by decide), hlong _ (by decide), by simpa using hn⟩, hlong _ (by decide)⟩

/-- The page of a relative name, by the names it is made of. -/
theorem pagePath_eq {P : Path} (hP : P.Rooted) {name : List Char} {ns : List Name} {n : Name}
    (hname : slashParts name = ns ++ [n]) (hns : ∀ m ∈ ns, IsName m) :
    IsName (n ++ ".html".toList) ∧
      pagePath P.text name = Path.below P.text (ns ++ [n ++ ".html".toList]) := by
  have hn : '/' ∉ n := not_mem_of_mem_splitOn (by rw [← slashParts, hname]; simp)
  have hhtml := isName_html hn
  refine ⟨hhtml, ?_⟩
  have hall : ∀ m ∈ ns ++ [n ++ ".html".toList], IsName m := by
    simpa [or_imp, forall_and] using ⟨hns, hhtml⟩
  have hpath : (slashParts name).foldl Path.joined P.text ++ ".html".toList =
      Path.below P.text (ns ++ [n ++ ".html".toList]) := by
    rw [hname, List.foldl_append, List.foldl_cons, List.foldl_nil, Path.joined_append hn _ (by decide)]
    simp [Path.below]
  rw [pagePath, hpath, Path.below_text hP hall, Path.normal, Path.parse_text (hP.append hall).spelled,
    (hP.append hall).collapse]

/-- A page lies below the output directory. -/
theorem beneath_pagePath {P : Path} (hP : P.Rooted) {name : List Char} (h : Tame name) :
    Beneath P.text (pagePath P.text name) := by
  obtain ⟨ns, n, hns, hnames⟩ := h
  obtain ⟨hhtml, hpath⟩ := pagePath_eq hP hns hnames
  exact ⟨ns, n ++ ".html".toList, hnames, hhtml, hpath⟩

theorem beneath_of_mem_mapOutputs {P : Path} (hP : P.Rooted) {found : Found}
    (hfound : ∀ f ∈ found, IsShown f.2) (index : Option (List Char)) :
    ∀ s ∈ mapOutputs found P.text index, Beneath P.text s.outputPath := by
  intro s hs
  obtain ⟨f, hf, rfl⟩ := List.mem_map.mp hs
  refine beneath_pagePath hP ?_
  split
  · exact ⟨[], "index".toList, by decide, by simp⟩
  · exact tame_shortName (hfound f hf)

theorem directory_append_cons (a : List Char) {n : Name} (hn : '/' ∉ n) :
    Path.directory (a ++ '/' :: n) =
      if (dropEndWhile (· = '/') a).isEmpty then a ++ ['/'] else dropEndWhile (· = '/') a := by
  have hfront : ((a ++ '/' :: n).reverse.dropWhile (· ≠ '/')).reverse = a ++ ['/'] := by
    rw [List.reverse_append, List.reverse_cons, List.append_assoc,
      List.dropWhile_append_of_pos (Path.reverse_ne_slash hn)]
    simp
  have hkept : dropEndWhile (· = '/') (a ++ ['/']) = dropEndWhile (· = '/') a := by
    simp [dropEndWhile]
  simp only [Path.directory, hfront, hkept]

theorem parse_directory {r : Root} {ns : List Name} {n : Name} (hP : Path.Rooted ⟨r, ns ++ [n]⟩) :
    Path.parse (Path.directory (Path.text ⟨r, ns ++ [n]⟩)) = ⟨r, ns⟩ := by
  have hn : '/' ∉ n := (hP.names n (by simp)).no_slash
  have htext : Path.text ⟨r, ns ++ [n]⟩ = r.text ++ join ['/'] (ns ++ [n]) := by simp [Path.text]
  by_cases hns : ns = []
  · subst hns
    cases r with
    | none => exact absurd rfl hP.root
    | single =>
      rw [show Path.text ⟨.single, [] ++ [n]⟩ = [] ++ '/' :: n from htext, directory_append_cons _ hn]
      decide
    | double =>
      rw [show Path.text ⟨.double, [] ++ [n]⟩ = ['/'] ++ '/' :: n from htext,
        directory_append_cons _ hn]
      decide
  · have hshort : Path.Rooted ⟨r, ns⟩ := ⟨hP.root, fun m hm => hP.names m (by simp [hm])⟩
    have hdir : Path.text ⟨r, ns⟩ = r.text ++ join ['/'] ns := by simp [Path.text, hns]
    have hjoin := join_ne_nil hns hshort.spelled
    have hkept : dropEndWhile (· = '/') (Path.text ⟨r, ns⟩) = Path.text ⟨r, ns⟩ := by
      obtain ⟨as, c, hc⟩ := List.eq_nil_or_concat (join ['/'] ns) |>.resolve_left hjoin
      have hlast : c ≠ '/' := by
        have := Path.getLast?_join hns hshort.spelled
        simpa [hc] using this
      rw [hdir, hc, List.concat_eq_append, ← List.append_assoc]
      simp [dropEndWhile, hlast]
    rw [htext, join_append_singleton hns, ← List.append_assoc, ← hdir, directory_append_cons _ hn, hkept,
      if_neg (by simpa using Path.text_ne_nil hshort.spelled), Path.parse_text hshort.spelled]

end Page

end Marginalia.Source
