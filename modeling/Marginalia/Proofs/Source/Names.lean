import Marginalia.Proofs.Source.Pages

/-! # Relative names and their pages

A relative name is what is left of a shown name without the directory that all names share and without
its extension. It is made of proper names, so its page is the output directory followed by it; and two
sources share a page exactly when their shown names differ in nothing but their extensions.
-/
namespace Marginalia.Source

open Text

section Extension

/-- A name has no extension, or it is cut at its last dot, which has more than dots before it. -/
theorem cutName_cases (n : Name) :
    Path.cutName n = (n, []) ∨
      ∃ dots c mid tail, c ≠ '.' ∧ n = dots ++ c :: mid ++ '.' :: tail ∧
        Path.cutName n = (dots ++ c :: mid, '.' :: tail) := by
  have hn := List.takeWhile_append_dropWhile (p := (· = '.')) (l := n)
  have hrest : n.drop (n.takeWhile (· = '.')).length = n.dropWhile (· = '.') := by
    conv_lhs => arg 2; rw [← hn]
    rw [List.drop_left]
  unfold Path.cutName
  dsimp only
  split
  · next hlt =>
    right
    rw [hrest] at hlt ⊢
    have hhead := List.head?_dropWhile_not (· = '.') n
    generalize n.takeWhile (· = '.') = dots at *
    generalize n.dropWhile (· = '.') = rest at *
    -- the rest falls apart at its last dot
    have hcut := List.takeWhile_append_dropWhile (p := (· ≠ '.')) (l := rest.reverse)
    have hdot := List.head?_dropWhile_not (· ≠ '.') rest.reverse
    generalize rest.reverse.takeWhile (· ≠ '.') = tail at *
    generalize rest.reverse.dropWhile (· ≠ '.') = front at *
    have hback : rest = front.reverse ++ tail.reverse := by
      rw [← List.reverse_append, hcut, List.reverse_reverse]
    cases front with
    | nil =>
      rw [hback] at hlt
      simp at hlt
    | cons d front =>
      have hd : d = '.' := by simpa using hdot
      subst hd
      rw [List.reverse_cons, List.append_assoc, List.singleton_append] at hback
      obtain ⟨c, mid, hfront⟩ : ∃ c mid, front.reverse = c :: mid := by
        refine List.exists_cons_of_ne_nil fun he => ?_
        rw [hback, he] at hhead
        simp at hhead
      rw [hfront] at hback
      subst hback
      refine ⟨dots, c, mid, tail.reverse, by simpa using hhead, by rw [← hn]; simp, ?_⟩
      have hlen : (c :: mid ++ '.' :: tail.reverse).length - tail.reverse.length - 1 =
          (c :: mid).length := by
        simp
        omega
      rw [hlen, List.take_left]
  · exact Or.inl rfl

/-- A name without its extension still names an entry. -/
theorem isName_cutName {n : Name} (hn : IsName n) : IsName (Path.cutName n).1 := by
  rcases cutName_cases n with h | ⟨dots, c, mid, tail, hc, hcut, h⟩
  · rwa [h]
  · have hmem : c ∈ (Path.cutName n).1 := by simp [h]
    refine ⟨⟨List.ne_nil_of_mem hmem, ?_, fun hs => hn.no_slash (mem_of_mem_cutName hs)⟩, ?_⟩
    · intro he
      simp [he, here, hc] at hmem
    · intro he
      simp [he, up, hc] at hmem

theorem isName_stem {ns : List Name} {n : Name} (h : ∀ m ∈ ns ++ [n], IsName m) :
    ∀ m ∈ ns ++ [(Path.cutName n).1], IsName m := by
  intro m hm
  rcases List.mem_append.mp hm with hm | hm
  · exact h m (List.mem_append_left _ hm)
  · rw [List.mem_singleton.mp hm]
    exact isName_cutName (h n (by simp))

end Extension

section Shared

theorem directoryParts_join {ns : List Name} {n : Name} (h : ∀ m ∈ ns ++ [n], IsName m) :
    directoryParts (join ['/'] (ns ++ [n])) = ns := by
  have htext : Path.text ⟨.none, ns ++ [n]⟩ = join ['/'] (ns ++ [n]) := by simp [Path.text, Root.text]
  rw [directoryParts, ← htext, Path.parse_text fun m hm => (h m hm).toIsSegment]
  simp [Path.parent, Path.parts]

theorem commonParts_prefix (as bs : List Name) : commonParts as bs <+: as ∧ commonParts as bs <+: bs := by
  fun_induction commonParts as bs with
  | case1 as b bs ih => exact ⟨by simpa using ih.1, by simpa using ih.2⟩
  | case2 => simp
  | case3 => simp

theorem foldl_commonParts_prefix (shared : List Name) (names : List (List Char)) :
    names.foldl (fun acc m => commonParts acc (directoryParts m)) shared <+: shared ∧
      ∀ m ∈ names, names.foldl (fun acc m => commonParts acc (directoryParts m)) shared <+:
        directoryParts m := by
  induction names generalizing shared with
  | nil => simp
  | cons m names ih =>
    obtain ⟨hshared, hnames⟩ := ih (commonParts shared (directoryParts m))
    obtain ⟨hleft, hright⟩ := commonParts_prefix shared (directoryParts m)
    refine ⟨hshared.trans hleft, fun k hk => ?_⟩
    rcases List.mem_cons.mp hk with rfl | hk
    · exact hshared.trans hright
    · exact hnames k hk

/-- What all names share starts the directory of each. -/
theorem sharedParts_prefix {names : List (List Char)} {name : List Char} (h : name ∈ names) :
    sharedParts names <+: directoryParts name := by
  cases names with
  | nil => simp at h
  | cons m names =>
    obtain ⟨hfirst, hrest⟩ := foldl_commonParts_prefix (directoryParts m) names
    rcases List.mem_cons.mp h with rfl | h
    · exact hfirst
    · exact hrest name h

end Shared

section Relative

/-- A relative name, by the names it is made of: those of the shown name below the shared directory,
the last one without its extension. -/
theorem shortName_join {shared ns : List Name} {n : Name} (h : ∀ m ∈ shared ++ ns ++ [n], IsName m) :
    shortName (join ['/'] (shared ++ ns ++ [n])) (join ['/'] shared) =
      join ['/'] (ns ++ [(Path.cutName n).1]) := by
  simp only [shortName, cutExtension_join h]
  by_cases hs : shared = []
  · subst hs
    simp [join]
  · have hsegs : ∀ m ∈ shared, IsSegment m := fun m hm => (h m (by simp [hm])).toIsSegment
    have hne := join_ne_nil hs hsegs
    have hsplit : join ['/'] (shared ++ ns ++ [(Path.cutName n).1]) =
        join ['/'] shared ++ ['/'] ++ join ['/'] (ns ++ [(Path.cutName n).1]) := by
      rw [List.append_assoc, join_append hs (by simp)]
      simp
    rw [if_neg (by simpa using hne), hsplit, after?_eq_some_iff.mpr rfl]
    rfl

/-- Joined names are told apart by the names. -/
theorem join_inj {ns ms : List Name} (hns : ns ≠ []) (hms : ms ≠ []) (hn : ∀ n ∈ ns, IsName n)
    (hm : ∀ m ∈ ms, IsName m) : join ['/'] ns = join ['/'] ms ↔ ns = ms := by
  refine ⟨fun h => ?_, fun h => by rw [h]⟩
  rw [← slashParts_join hns fun n hx => (hn n hx).toIsSegment, h,
    slashParts_join hms fun m hx => (hm m hx).toIsSegment]

variable {names : List (List Char)} (hshown : ∀ name ∈ names, IsShown name)
include hshown

/-- A shown name lies below the directory that all of them share. -/
theorem exists_below_shared {name : List Char} (h : name ∈ names) :
    ∃ ns n, (∀ m ∈ sharedParts names ++ ns ++ [n], IsName m) ∧
      name = join ['/'] (sharedParts names ++ ns ++ [n]) := by
  obtain ⟨ms, hne, hms, rfl⟩ := hshown name h
  obtain ⟨ds, n, rfl⟩ := List.eq_nil_or_concat ms |>.resolve_left hne
  rw [List.concat_eq_append] at h hms ⊢
  have hshared := sharedParts_prefix h
  rw [directoryParts_join hms] at hshared
  obtain ⟨ns, rfl⟩ := hshared
  exact ⟨ns, n, hms, rfl⟩

theorem isName_of_mem_shortName {name : List Char} (h : name ∈ names) :
    ∀ m ∈ slashParts (shortName name (commonDirectory names)), IsName m := by
  obtain ⟨ns, n, hnames, rfl⟩ := exists_below_shared hshown h
  have hrel : ∀ m ∈ ns ++ [(Path.cutName n).1], IsName m :=
    isName_stem fun m hm => hnames m (by rw [List.append_assoc]; exact List.mem_append_right _ hm)
  rw [commonDirectory, shortName_join hnames,
    slashParts_join (by simp) fun m hm => (hrel m hm).toIsSegment]
  exact hrel

/-- Relative names are equal for names that differ in nothing but their extensions. -/
theorem shortName_eq_iff {name name' : List Char} (h : name ∈ names) (h' : name' ∈ names) :
    shortName name (commonDirectory names) = shortName name' (commonDirectory names) ↔
      (Path.cutExtension name).1 = (Path.cutExtension name').1 := by
  obtain ⟨ns, n, hnames, rfl⟩ := exists_below_shared hshown h
  obtain ⟨ns', n', hnames', rfl⟩ := exists_below_shared hshown h'
  have hs := isName_stem hnames
  have hs' := isName_stem hnames'
  rw [commonDirectory, shortName_join hnames, shortName_join hnames', cutExtension_join hnames,
    cutExtension_join hnames', join_inj (by simp) (by simp) hs hs',
    join_inj (by simp) (by simp) (fun m hm => hs m ?_) fun m hm => hs' m ?_]
  · simp
  all_goals
    rw [List.append_assoc]
    exact List.mem_append_right _ hm

end Relative

section Page

variable {P : Path} (hP : P.Rooted)
include hP

/-- The page of a relative name that is made of proper names. -/
theorem pagePath_eq_text {name : List Char} (h : ∀ m ∈ slashParts name, IsName m) :
    ∃ ns n, slashParts name = ns ++ [n] ∧ (∀ m ∈ ns ++ [n ++ ".html".toList], IsName m) ∧
      pagePath P.text name = Path.text ⟨P.root, P.segments ++ (ns ++ [n ++ ".html".toList])⟩ := by
  have hne : slashParts name ≠ [] := by simp [slashParts]
  obtain ⟨ns, n, hparts⟩ := List.eq_nil_or_concat (slashParts name) |>.resolve_left hne
  rw [List.concat_eq_append] at hparts
  have hns : ∀ m ∈ ns, IsName m := fun m hm => h m (by simp [hparts, hm])
  obtain ⟨hhtml, hpath⟩ := pagePath_eq hP hparts hns
  have hall : ∀ m ∈ ns ++ [n ++ ".html".toList], IsName m := by
    simpa [or_imp, forall_and] using ⟨hns, hhtml⟩
  exact ⟨ns, n, hparts, hall, by rw [hpath, Path.below_text hP hall]⟩

/-- The page lies at the relative name, seen from the output directory. -/
theorem pagePath_eq_joined {name : List Char} (h : ∀ m ∈ slashParts name, IsName m) :
    pagePath P.text name = Path.joined P.text (name ++ ".html".toList) := by
  obtain ⟨ns, n, hparts, hall, hpath⟩ := pagePath_eq_text hP h
  have hname : name = join ['/'] (ns ++ [n]) := by rw [← hparts, slashParts, join_splitOn]
  have hjoin : name ++ ".html".toList = join ['/'] (ns ++ [n ++ ".html".toList]) := by
    rw [hname]
    by_cases hns : ns = []
    · subst hns
      rfl
    · rw [join_append_singleton hns, join_append_singleton hns, List.append_assoc, List.cons_append]
  rw [hpath, hjoin, Path.joined_join_text hP (by simp) hall]

/-- Relative names have pages of their own. -/
theorem pagePath_inj {name name' : List Char} (h : ∀ m ∈ slashParts name, IsName m)
    (h' : ∀ m ∈ slashParts name', IsName m) :
    pagePath P.text name = pagePath P.text name' ↔ name = name' := by
  refine ⟨fun he => ?_, fun he => by rw [he]⟩
  obtain ⟨ns, n, hparts, hall, hpath⟩ := pagePath_eq_text hP h
  obtain ⟨ns', n', hparts', hall', hpath'⟩ := pagePath_eq_text hP h'
  rw [hpath, hpath'] at he
  have hpaths := congrArg Path.parse he
  rw [Path.parse_text (hP.append hall).spelled, Path.parse_text (hP.append hall').spelled,
    Path.mk.injEq] at hpaths
  obtain ⟨hns, hn⟩ := List.append_inj' (List.append_cancel_left hpaths.2) rfl
  have hlast : n = n' := by simpa using hn
  rw [← join_splitOn '/' name, ← join_splitOn '/' name', ← slashParts, ← slashParts, hparts, hparts',
    hns, hlast]

end Page

section Outputs

variable {found : Found} (hshown : ∀ name ∈ found.map (·.2), IsShown name)
variable {output : List Char} {index : Option (List Char)} {s s' : Source}
include hshown

omit hshown in
theorem mem_mapOutputs (hs : s ∈ mapOutputs found output index) :
    s.name ∈ found.map (·.2) ∧ s.outputPath = pagePath output s.relativeName ∧
      s.relativeName = if s.isIndex then "index".toList
        else shortName s.name (commonDirectory (found.map (·.2))) := by
  obtain ⟨f, hf, rfl⟩ := List.mem_map.mp hs
  refine ⟨List.mem_map_of_mem hf, rfl, ?_⟩
  simp [ofFound]

theorem isName_of_mem_relativeName (hs : s ∈ mapOutputs found output index) :
    ∀ m ∈ slashParts s.relativeName, IsName m := by
  obtain ⟨hname, -, hrel⟩ := mem_mapOutputs hs
  rw [hrel]
  split
  · intro m hm
    rw [slashParts_of_no_slash (by decide), List.mem_singleton] at hm
    rw [hm]
    exact ⟨⟨by decide, by decide, by decide⟩, by decide⟩
  · exact isName_of_mem_shortName hshown hname

theorem relativeName_eq_iff (hs : s ∈ mapOutputs found output index)
    (hs' : s' ∈ mapOutputs found output index) (hi : s.isIndex = false) (hi' : s'.isIndex = false) :
    s.relativeName = s'.relativeName ↔
      (Path.cutExtension s.name).1 = (Path.cutExtension s'.name).1 := by
  obtain ⟨hname, -, hrel⟩ := mem_mapOutputs hs
  obtain ⟨hname', -, hrel'⟩ := mem_mapOutputs hs'
  rw [hrel, hrel', hi, hi']
  exact shortName_eq_iff hshown hname hname'

end Outputs

/-- Every page lies at its relative name, which is made of proper names, below the output directory. Two
sources share a page when they share their relative name: sources other than the index when their names
differ in nothing but their extensions, the index and another one when that one is called so too. -/
theorem outputPath_eq_iff {t : FileTree} (ht : t.WellFormed) {paths : List (List Char)} {recursive : Bool}
    {found : Found} (hwalk : walk t paths recursive = .ok found) {output : List Char}
    (hroot : output.head? = some '/') (hnormal : Path.normal output = output)
    (index : Option (List Char)) :
    (∀ s ∈ mapOutputs found output index, (∀ m ∈ slashParts s.relativeName, IsName m) ∧
      s.outputPath = Path.joined output (s.relativeName ++ ".html".toList) ∧
      ∃ ns n, slashParts s.relativeName = ns ++ [n] ∧
        Path.parse s.outputPath = ⟨(Path.parse output).root,
          (Path.parse output).segments ++ (ns ++ [n ++ ".html".toList])⟩) ∧
    ∀ s ∈ mapOutputs found output index, ∀ s' ∈ mapOutputs found output index,
      (s.outputPath = s'.outputPath ↔ s.relativeName = s'.relativeName) ∧
      (s.isIndex = false → s'.isIndex = false → (s.relativeName = s'.relativeName ↔
        (Path.cutExtension s.name).1 = (Path.cutExtension s'.name).1)) ∧
      (s.isIndex = true → (s.relativeName = s'.relativeName ↔ s'.relativeName = "index".toList)) := by
  have hshown : ∀ name ∈ found.map (·.2), IsShown name := by
    simpa using fun a b hf => isShown_of_walk ht hwalk (b, a) hf
  have hP : (Path.parse output).collapse.Rooted :=
    Path.rooted_collapse (Path.rootOf_ne_none_iff.mpr hroot) (Path.spelled_parse output)
  have hparse : Path.parse output = (Path.parse output).collapse := by
    rw [← Path.parse_normal, hnormal]
  have htext : output = (Path.parse output).collapse.text := hnormal.symm
  rw [hparse]
  -- the output directory counts only as a path in its shortest spelling
  generalize (Path.parse output).collapse = P at hP hparse htext
  subst htext
  refine ⟨fun s hs => ?_, fun s hs s' hs' => ⟨?_, relativeName_eq_iff hshown hs hs', ?_⟩⟩
  · have hnames := isName_of_mem_relativeName hshown hs
    obtain ⟨-, hpage, -⟩ := mem_mapOutputs hs
    obtain ⟨ns, n, hparts, hall, htext⟩ := pagePath_eq_text hP hnames
    refine ⟨hnames, hpage.trans (pagePath_eq_joined hP hnames), ns, n, hparts, ?_⟩
    rw [hpage, htext, Path.parse_text (hP.append hall).spelled]
  · rw [(mem_mapOutputs hs).2.1, (mem_mapOutputs hs').2.1]
    exact pagePath_inj hP (isName_of_mem_relativeName hshown hs) (isName_of_mem_relativeName hshown hs')
  · intro hi
    have hrel := (mem_mapOutputs hs).2.2
    rw [hi, if_pos rfl] at hrel
    rw [hrel, eq_comm]

/-- A directory with a dot in its name, and in it two files that differ in their extensions and one that
has nothing but what looks like an extension. -/
def dottedTree : FileTree where
  cwd := ["d".toList]
  entries := [(["d".toList], .dir), (["d".toList, "v.1".toList], .dir),
    (["d".toList, "v.1".toList, "x.js".toList], .file .empty),
    (["d".toList, "v.1".toList, "x.md".toList], .file .empty),
    (["d".toList, "v.1".toList, ".rc".toList], .file .empty)]

def dottedFound : Found :=
  [("/d/v.1/.rc".toList, "v.1/.rc".toList), ("/d/v.1/x.js".toList, "v.1/x.js".toList),
    ("/d/v.1/x.md".toList, "v.1/x.md".toList)]

theorem outputPath_dottedTree :
    walk dottedTree [".".toList] true = .ok dottedFound ∧
      (mapOutputs dottedFound "/o".toList none).map (·.outputPath) =
        ["/o/.rc.html".toList, "/o/x.html".toList, "/o/x.html".toList] ∧
      ∀ s ∈ mapOutputs dottedFound "/o".toList none, ∀ s' ∈ mapOutputs dottedFound "/o".toList none,
        s.outputPath = s'.outputPath ↔ (Path.cutExtension s.name).1 = (Path.cutExtension s'.name).1 := by
  have ht : dottedTree.WellFormed := FileTree.wellFormed_of_check (by decide)
  have hd : dottedTree.Lists ["d".toList] ["v.1".toList] := ht.lists_of (by cbv)
  have hv : dottedTree.Lists ["d".toList, "v.1".toList] [".rc".toList, "x.js".toList, "x.md".toList] :=
    ht.lists_of (by cbv)
  have hroot : dottedTree.stat "/d".toList = .ok (["d".toList], .dir) := by cbv
  have hdir : dottedTree.stat "/d/v.1".toList = .ok (["d".toList, "v.1".toList], .dir) := by cbv
  have hrc : dottedTree.stat "/d/v.1/.rc".toList =
      .ok (["d".toList, "v.1".toList, ".rc".toList], .file .empty) := by cbv
  have hjs : dottedTree.stat "/d/v.1/x.js".toList =
      .ok (["d".toList, "v.1".toList, "x.js".toList], .file .empty) := by cbv
  have hmd : dottedTree.stat "/d/v.1/x.md".toList =
      .ok (["d".toList, "v.1".toList, "x.md".toList], .file .empty) := by cbv
  have htour : Tour dottedTree true ([".".toList].map Stop.ofArgument) _ :=
    .enter hroot (Or.inl rfl) (by decide) hd
      (.enter hdir (Or.inr rfl) (by decide) hv (.file hrc (.file hjs (.file hmd .nil))) .nil) .nil
  have hwalk : walk dottedTree [".".toList] true = .ok dottedFound := walk_of_tour ht htour
  have hhead : "/o".toList.head? = some '/' := by decide
  have hpages := (outputPath_eq_iff ht hwalk hhead (by decide) none).2
  have hplain : ∀ s ∈ mapOutputs dottedFound "/o".toList none, s.isIndex = false := by decide
  refine ⟨hwalk, by decide, fun s hs s' hs' => ?_⟩
  obtain ⟨hpage, hrel, -⟩ := hpages s hs s' hs'
  rw [hpage, hrel (hplain s hs) (hplain s' hs')]

end Marginalia.Source
