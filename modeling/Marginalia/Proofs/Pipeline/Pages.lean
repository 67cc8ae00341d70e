import Marginalia.Proofs.FileTree.Below
import Marginalia.Proofs.Pipeline.Effects
import Marginalia.Proofs.Pipeline.Journal
import Marginalia.Proofs.Pipeline.Publish
import Marginalia.Proofs.Source.Collisions

/-! # The pages of a run

A run returns the sources it has a splitter and sections for. Pages are written in the order of the
sources, so a page holds what the last source with its path has to say; each source that is written over
is reported beside the next one.
-/
namespace Marginalia.Pipeline

open Text FileTree Source

section Kept

/-- A source with its sections, if its extension has a splitter and its file at least one section. -/
def documented? (splitters : Registry) (t : FileTree) (s : Source) : Option Source := do
  let extension := (Path.cutExtension s.fullPath).2
  let splitter ← if extension.isEmpty then none else splitters.load.registry.get? extension
  let content ← (t.read s.fullPath).toOption
  let sections ← (splitter.run (decodeLenient content)).toOption
  if sections.isEmpty then none else some { s with sections }

variable {splitters : Registry} {t : FileTree} {s : Source}

theorem documented?_of_sectionsIn {cut : Option (List Section)} (h : sectionsIn splitters t s = .ok cut) :
    documented? splitters t s = cut.bind fun sections =>
      if sections.isEmpty then none else some { s with sections } := by
  unfold sectionsIn splitterIn at h
  unfold documented?
  split at h
  · simp at h
  · next hnone =>
    cases h
    split at hnone
    · next he => simp [he]
    · next he =>
      split at hnone
      · simp at hnone
      · simp only [Except.ok.injEq] at hnone
        simp [he, hnone]
  · next splitter hsome =>
    split at hsome
    · simp at hsome
    · next he =>
      split at hsome
      · simp at hsome
      · simp only [Except.ok.injEq] at hsome
        split at h
        · simp at h
        · next content hread =>
          cases hrun : splitter.run (decodeLenient content) with
          | error failure => simp [hrun, Except.map] at h
          | ok sections =>
            simp only [hrun, Except.map, Except.ok.injEq] at h
            subst h
            simp [he, hsome, hread, hrun, Except.toOption]

/-- A run keeps the sources that are documented, in order. -/
theorem keptIn_eq_filterMap {sources kept : List Source} (h : keptIn splitters t sources = .ok kept) :
    kept = sources.filterMap (documented? splitters t) := by
  induction sources generalizing kept with
  | nil =>
    cases h
    rfl
  | cons s sources ih =>
    rw [keptIn] at h
    rw [List.filterMap_cons]
    split at h
    · simp at h
    · next hs =>
      rw [documented?_of_sectionsIn hs]
      exact ih h
    · next sections hs =>
      cases hl : keptIn splitters t sources with
      | error failure => simp [hl, Except.map] at h
      | ok later =>
        simp only [hl, Except.map, Except.ok.injEq] at h
        rw [documented?_of_sectionsIn hs, ← ih hl, ← h]
        cases sections <;> rfl

end Kept

section Prepared

/-- A run that was prepared, and may have taken steps since: it has the options it was prepared with, and
its sources have the pages they were given then. Its world may be another one. -/
def Prepared (p : Pipeline) : Prop :=
  ∃ layouts splitters paths options w first w', w.tree.WellFormed ∧
    (start layouts splitters paths options).run.run w = (.ok first, w') ∧ p.options = first.options ∧
    ∀ s ∈ p.sources, ∃ f ∈ first.sources, s.fullPath = f.fullPath ∧ s.outputPath = f.outputPath

theorem Prepared.beneath {p : Pipeline} (h : Prepared p) :
    ∃ P : Path, P.Rooted ∧ p.options.output = P.text ∧
      (∀ css, p.options.css = some css → IsName (Path.baseName css)) ∧
      ∀ s ∈ p.sources, Beneath P.text s.outputPath := by
  obtain ⟨layouts, splitters, paths, options, w, first, w', hw, hrun, hoptions, hsources⟩ := h
  obtain ⟨found, hstarted⟩ := started_of_run hrun
  obtain ⟨P, hP, hout, hcss, hbeneath⟩ := hstarted.beneath hw
  refine ⟨P, hP, hoptions ▸ hout, hoptions ▸ hcss, fun s hs => ?_⟩
  obtain ⟨f, hf, -, hpage⟩ := hsources s hs
  exact hpage ▸ hbeneath f hf

end Prepared

section Marked

variable {setup : Markdown.Setup} {kept : List Source}

/-- Sources of which the first ones are marked. -/
def markedTo (setup : Markdown.Setup) (kept : List Source) (n : Nat) : List Source :=
  (kept.take n).map (·.marked setup) ++ kept.drop n

theorem set_markedTo {i : Nat} {s : Source} (hs : kept[i]? = some s) :
    (markedTo setup kept i).set i (s.marked setup) = markedTo setup kept (i + 1) := by
  obtain ⟨hi, rfl⟩ := List.getElem?_eq_some_iff.mp hs
  have hlen : ((kept.take i).map (·.marked setup)).length = i := by simp; omega
  have hdrop : kept.drop i = kept[i] :: kept.drop (i + 1) := List.drop_eq_getElem_cons hi
  rw [markedTo, markedTo, List.set_append_right _ _ (by omega), hlen, Nat.sub_self, hdrop,
    List.set_cons_zero, List.take_succ_eq_append_getElem hi, List.map_append, List.append_assoc]
  rfl

end Marked

section Written

variable {c : Configuration} {setup : Markdown.Setup} {P : Path} {O : Place} {a b : View} {t t' : FileTree}
  {kept : List Source}

theorem AssetsCopied.below (h : Ready t P O) (hout : c.output = P.text) (hc : AssetsCopied c t t') :
    Edits (Below O) (Below O) t t' := by
  unfold AssetsCopied at hc
  split at hc
  · have hname : ∀ n ∈ [assetsName], IsName n := by simpa using isName_assetsName
    have hedits := copies_copyDirFrom P O FileTree.maxDepth t (Path.joined c.layout assetsName)
      [assetsName] h hname
    have htarget : Path.joined c.output assetsName = Path.below P.text [assetsName] := by
      rw [hout]
      rfl
    rwa [← copyDir, ← htarget, hc] at hedits
  · subst hc
    exact .refl

theorem StylesheetCopied.below (h : Ready t P O) (hout : c.output = P.text)
    (hcss : ∀ css, c.css = some css → IsName (Path.baseName css)) (hc : StylesheetCopied c t t') :
    Edits (Below O) (Below O) t t' := by
  unfold StylesheetCopied at hc
  split at hc
  · subst hc
    exact .refl
  · next css hsome =>
    have hname : ∀ n ∈ [Path.baseName css], IsName n := by simpa using hcss css hsome
    rw [hout] at hc
    exact h.edits_of_leadsTo hname (copyFile_edits h.wellFormed hc)

/-- A path shows a page, unless it leads to a pipe that stood there before: a pipe takes what is written
and holds none of it. -/
def Shows (before after : FileTree) (path : List Char) (page : List Char) : Prop :=
  ∃ place, after.stat path = .ok (place, .file (encode page)) ∨
    after.stat path = .ok (place, .pipe) ∧ before.get? place = some .pipe

theorem PageWritten.below {i : Nat} {s : Source} {ns : List Name} {n : Name} (hr : Ready a.tree P O)
    (hns : ∀ m ∈ ns ++ [n], IsName m) (hpath : s.outputPath = Path.below P.text (ns ++ [n]))
    (h : PageWritten c setup i s a b) :
    ∃ made markup, Edits Nowhere (Below O) a.tree made ∧ Edits (· = O ++ (ns ++ [n])) Nowhere made b.tree ∧
      Page.render made c setup b.sources i (s.marked setup) given = .ok markup ∧
      made.write s.outputPath (encode markup) = .ok b.tree ∧
      (b.tree.stat s.outputPath = .ok (O ++ (ns ++ [n]), .file (encode markup)) ∨
        b.tree.stat s.outputPath = .ok (O ++ (ns ++ [n]), .pipe) ∧
          made.get? (O ++ (ns ++ [n])) = some .pipe) := by
  obtain ⟨-, made, markup, hmade, hrender, hwrite⟩ := h
  have hdir : ∀ m ∈ ns, IsName m := fun m hm => hns m (by simp [hm])
  rw [hpath, makeDirs_directory hr.rooted hdir (hns n (by simp))] at hmade
  have hdirs : Edits Nowhere (Below O) a.tree made := by
    have hedits := hr.makeDirs_below hdir
    rw [hmade] at hedits
    refine hedits.imp (fun _ hq => hq) ?_
    rintro q - ⟨ks, -, rfl⟩
    exact List.prefix_append ..
  rw [hpath] at hwrite ⊢
  obtain ⟨hedits, hstat⟩ := (hr.of_edits hdirs).write_below hns hwrite
  exact ⟨made, markup, hdirs, hedits, hrender, hwrite, hstat⟩

theorem Edits.below_of_page {u v : FileTree} {ns : List Name} (h : Edits Nowhere (Below O) t u)
    (h' : Edits (· = O ++ ns) Nowhere u v) : Edits (Below O) (Below O) t v := by
  have hwrite : Edits (Below O) (Below O) u v := by
    refine h'.imp ?_ fun _ _ hq => hq.elim
    rintro q rfl
    exact List.prefix_append ..
  exact (h.imp (fun _ hq => hq.elim) fun _ _ hq => hq).trans hwrite

theorem PagesWritten.below {i : Nat} {rest : List Source} (hr : Ready a.tree P O)
    (hs : ∀ s ∈ rest, Beneath P.text s.outputPath) (h : PagesWritten c setup i rest a b) :
    Edits (Below O) (Below O) a.tree b.tree := by
  induction rest generalizing i a with
  | nil =>
    cases h
    exact .refl
  | cons s rest ih =>
    obtain ⟨v, hpage, hrest⟩ := h
    obtain ⟨ns, n, hns, hn, hpath⟩ := hs s List.mem_cons_self
    have hall : ∀ m ∈ ns ++ [n], IsName m := by simpa [or_imp, forall_and] using ⟨hns, hn⟩
    obtain ⟨made, markup, hdirs, hwrite, -⟩ := hpage.below hr hall hpath
    have hedits := Edits.below_of_page hdirs hwrite
    exact hedits.trans (ih (hr.of_edits hedits) (fun s' hs' => hs s' (List.mem_cons_of_mem _ hs')) hrest)

/-- What stands at a path is left while the pages of other paths are written. -/
theorem PagesWritten.left {i : Nat} {rest : List Source} {ns : List Name} {e : Entry}
    (hr : Ready a.tree P O) (hs : ∀ s ∈ rest, Beneath P.text s.outputPath)
    (hother : ∀ s ∈ rest, s.outputPath ≠ Path.below P.text ns) (he : a.tree.get? (O ++ ns) = some e)
    (h : PagesWritten c setup i rest a b) : b.tree.get? (O ++ ns) = some e := by
  induction rest generalizing i a with
  | nil =>
    cases h
    exact he
  | cons s rest ih =>
    obtain ⟨v, hpage, hrest⟩ := h
    obtain ⟨ms, n, hms, hn, hpath⟩ := hs s List.mem_cons_self
    have hall : ∀ m ∈ ms ++ [n], IsName m := by simpa [or_imp, forall_and] using ⟨hms, hn⟩
    obtain ⟨made, markup, hdirs, hwrite, -⟩ := hpage.below hr hall hpath
    have hne : ¬ O ++ ns = O ++ (ms ++ [n]) := by
      intro heq
      rw [List.append_cancel_left heq] at hother
      exact hother s List.mem_cons_self hpath
    have hv := hwrite.get?_of_some hne (hdirs.get?_of_some id he)
    refine ih (hr.of_edits (Edits.below_of_page hdirs hwrite))
      (fun s' hs' => hs s' (List.mem_cons_of_mem _ hs'))
      (fun s' hs' => hother s' (List.mem_cons_of_mem _ hs')) hv hrest

/-- The page of a source is written after the pages before it, and before those after it. -/
theorem PagesWritten.split {i j : Nat} {rest : List Source} {s : Source} (hget : rest[j]? = some s)
    (h : PagesWritten c setup i rest a b) :
    ∃ v w, PagesWritten c setup i (rest.take j) a v ∧ PageWritten c setup (i + j) s v w ∧
      PagesWritten c setup (i + j + 1) (rest.drop (j + 1)) w b := by
  induction j generalizing i rest a with
  | zero =>
    obtain ⟨rest, rfl⟩ : ∃ later, rest = s :: later := by
      cases rest with
      | nil => simp at hget
      | cons s₀ later => exact ⟨later, by simpa using hget⟩
    obtain ⟨w, hpage, hrest⟩ := h
    exact ⟨a, w, rfl, hpage, hrest⟩
  | succ j ih =>
    cases rest with
    | nil => simp at hget
    | cons s₀ rest =>
      obtain ⟨u, hfirst, hrest⟩ := h
      obtain ⟨v, w, hbefore, hpage, hafter⟩ := ih (by simpa using hget) hrest
      rw [show i + 1 + j = i + (j + 1) by omega] at hpage hafter
      exact ⟨v, w, ⟨u, hfirst, hbefore⟩, hpage, hafter⟩

theorem PagesWritten.sources {i : Nat} {rest later : List Source} (hkept : kept.drop i = rest ++ later)
    (ha : a.sources = markedTo setup kept i) (h : PagesWritten c setup i rest a b) :
    b.sources = markedTo setup kept (i + rest.length) := by
  induction rest generalizing i a with
  | nil =>
    cases h
    exact ha
  | cons s rest ih =>
    obtain ⟨v, hpage, hrest⟩ := h
    have hs : kept[i]? = some s := by
      rw [← Nat.add_zero i, ← List.getElem?_drop, hkept]
      rfl
    have hdrop : kept.drop (i + 1) = rest ++ later := by
      rw [← List.tail_drop, hkept]
      rfl
    rw [ih hdrop (by rw [hpage.1, ha, set_markedTo hs]) hrest, List.length_cons]
    congr 1
    omega

variable (hr : Ready a.tree P O) (ha : a.sources = kept) (hs : ∀ s ∈ kept, Beneath P.text s.outputPath)
  (h : PagesWritten c setup 0 kept a b) {j : Nat} {s : Source} (hget : kept[j]? = some s)
include hr ha hs h hget

theorem PagesWritten.page :
    ∃ v w, Edits (Below O) (Below O) a.tree v.tree ∧ PageWritten c setup j s v w ∧
      w.sources = markedTo setup kept (j + 1) ∧ PagesWritten c setup (j + 1) (kept.drop (j + 1)) w b := by
  obtain ⟨v, w, hbefore, hpage, hafter⟩ := h.split hget
  rw [Nat.zero_add] at hpage hafter
  have hlen : (kept.take j).length = j := by
    have := (List.getElem?_eq_some_iff.mp hget).1
    simp
    omega
  have hsources : v.sources = markedTo setup kept j := by
    have hparts : kept.drop 0 = kept.take j ++ kept.drop j := by simp
    have hmarked := hbefore.sources hparts (by simp [ha, markedTo])
    rwa [hlen, Nat.zero_add] at hmarked
  exact ⟨v, w, hbefore.below hr fun s' hs' => hs s' (List.mem_of_mem_take hs'), hpage,
    by rw [hpage.1, hsources, set_markedTo hget], hafter⟩

/-- The last source with a path has its page there in the end. -/
theorem PagesWritten.shows (hlast : LastAt kept j) :
    ∃ t markup, Edits (Below O) (Below O) a.tree t ∧ Grows t b.tree ∧
      Page.render t c setup (markedTo setup kept (j + 1)) j (s.marked setup) given = .ok markup ∧
      Shows a.tree b.tree s.outputPath markup := by
  obtain ⟨v, w, hbefore, hpage, hsources, hafter⟩ := h.page hr ha hs hget
  obtain ⟨ns, n, hns, hn, hpath⟩ := hs s (List.mem_of_getElem? hget)
  have hall : ∀ m ∈ ns ++ [n], IsName m := by simpa [or_imp, forall_and] using ⟨hns, hn⟩
  have hv := hr.of_edits hbefore
  obtain ⟨made, markup, hdirs, hwrite, hrender, -, hstat⟩ := hpage.below hv hall hpath
  have hw := hv.of_edits (Edits.below_of_page hdirs hwrite)
  have hlater : ∀ s' ∈ kept.drop (j + 1), Beneath P.text s'.outputPath :=
    fun s' hs' => hs s' (List.mem_of_mem_drop hs')
  have hedits := hafter.below hw hlater
  -- the sources after the last one with a path write other paths
  have hother : ∀ s' ∈ kept.drop (j + 1), s'.outputPath ≠ Path.below P.text (ns ++ [n]) := by
    intro s' hmem heq
    obtain ⟨k, hk⟩ := List.getElem?_of_mem hmem
    rw [List.getElem?_drop] at hk
    refine hlast.after (j + 1 + k) (by omega) ?_
    simp [pageAt, hk, hget, heq, hpath]
  have hleft : ∀ e, w.tree.stat s.outputPath = .ok (O ++ (ns ++ [n]), e) →
      b.tree.stat s.outputPath = .ok (O ++ (ns ++ [n]), e) := fun e he =>
    stat_of_left hw.wellFormed (hedits.wellFormed hw.wellFormed) hedits.grows he
      (hafter.left hw hlater hother (get?_of_stat hw.wellFormed he))
  have hmade : Edits (Below O) (Below O) a.tree made :=
    hbefore.trans (hdirs.imp (fun _ hq => hq.elim) fun _ _ hq => hq)
  refine ⟨made, markup, hmade, hwrite.grows.trans hedits.grows, hsources ▸ hrender, O ++ (ns ++ [n]), ?_⟩
  rcases hstat with hfile | ⟨hpipe, hbefore'⟩
  · exact Or.inl (hleft _ hfile)
  · exact Or.inr ⟨hleft _ hpipe, hmade.grows.pipe_of_pipe hbefore'⟩

end Written

section Run

variable {p q : Pipeline} {P : Path} {kept : List Source} {v : View}

/-- How a run fills its output directory: it copies the assets and the stylesheet, which changes nothing
beside the directory, and writes the pages. -/
structure Filled (c : Configuration) (setup : Markdown.Setup) (kept : List Source) (O : Place)
    (made t₁ t₂ : FileTree) (v : View) : Prop where
  assets : if c.assets then AssetsCopied c made t₁ else t₁ = made
  edits : Edits (Below O) (Below O) made t₁
  stylesheet : StylesheetCopied c t₁ t₂
  edits' : Edits (Below O) (Below O) t₁ t₂
  pages : PagesWritten c setup 0 kept ⟨kept, t₂⟩ v

/-- What a run leaves that keeps sources: a directory for the output that is ready, then what is
published into it. -/
theorem Outcome.ready {c : Configuration} {setup : Markdown.Setup} {t : FileTree} (ht : t.WellFormed)
    (hP : P.Rooted) (hout : c.output = P.text)
    (hcss : ∀ css, c.css = some css → IsName (Path.baseName css))
    (hfree : ∀ O, t.LeadsTo P.text O → t.LinkFree O) (hne : kept ≠ [])
    (h : Outcome c setup t kept v) :
    ∃ O made t₁ t₂, t.LeadsTo P.text O ∧ t.makeDirs P.text = ⟨made, none⟩ ∧ Ready made P O ∧
      Filled c setup kept O made t₁ t₂ v := by
  rw [Outcome, if_neg hne, hout] at h
  obtain ⟨made, hmade, t₁, t₂, hassets, hstyle, hpages⟩ := h
  obtain ⟨O, hO, hready⟩ := ready_of_makeDirs ht hP (congrArg Changed.fault hmade) hfree
  rw [hmade] at hready
  have hassets' : Edits (Below O) (Below O) made t₁ := by
    split at hassets
    · exact hassets.below hready hout
    · subst hassets
      exact .refl
  have hstyle' := hstyle.below (hready.of_edits hassets') hout hcss
  exact ⟨O, made, t₁, t₂, hO, hmade, hready, hassets, hassets', hstyle, hstyle', hpages⟩

/-- After a run the path of each source shows the page of the last source with this path. -/
theorem Outcome.shows {c : Configuration} {setup : Markdown.Setup} {t : FileTree} (ht : t.WellFormed)
    (hP : P.Rooted) (hout : c.output = P.text)
    (hcss : ∀ css, c.css = some css → IsName (Path.baseName css))
    (hfree : ∀ O, t.LeadsTo P.text O → t.LinkFree O) (h : Outcome c setup t kept v)
    (hs : ∀ s ∈ kept, Beneath P.text s.outputPath) {j : Nat} {s : Source} (hlast : LastAt kept j)
    (hget : kept[j]? = some s) :
    ∃ t' markup, Confined P.text t t' ∧ Grows t' v.tree ∧
      Page.render t' c setup (markedTo setup kept (j + 1)) j (s.marked setup) given = .ok markup ∧
      Shows t v.tree s.outputPath markup := by
  have hne : kept ≠ [] := List.ne_nil_of_mem (List.mem_of_getElem? hget)
  obtain ⟨O, made, t₁, t₂, hO, hmade, hready, hfilled⟩ := h.ready ht hP hout hcss hfree hne
  have hcopied := hfilled.edits.trans hfilled.edits'
  have hconfined := confined_makeDirs ht hP
  have hgrows := (FileTree.makeDirs_edits ht hP).grows
  rw [hmade] at hconfined hgrows
  obtain ⟨t', markup, hedits, hlate, hrender, place, hshown⟩ :=
    PagesWritten.shows (a := ⟨kept, t₂⟩) (hready.of_edits hcopied) rfl hs hfilled.pages hget
      hlast
  refine ⟨t', markup, hconfined.edits hO (hcopied.trans hedits), hlate, hrender, place, ?_⟩
  rcases hshown with hfile | ⟨hpipe, hbefore⟩
  · exact Or.inl hfile
  · exact Or.inr ⟨hpipe, (hgrows.trans hcopied.grows).pipe_of_pipe hbefore⟩

end Run

section Sample

theorem outcome_sample {setup : Markdown.Setup} {s : Source} {t₀ made dirs t : FileTree}
    (hmade : t₀.makeDirs "/w/docs".toList = ⟨made, none⟩)
    (hassets : made.isDir "/l/public".toList = false)
    (hdirs : made.makeDirs (Path.directory s.outputPath) = ⟨dirs, none⟩)
    (hwrite : dirs.write s.outputPath (encode "x".toList) = .ok t) :
    Outcome sampleConfiguration setup t₀ [s] ⟨[s.marked setup], t⟩ := by
  have hcopied : AssetsCopied sampleConfiguration made made := by
    have hpath : Path.joined sampleConfiguration.layout assetsName = "/l/public".toList := by decide
    simp only [AssetsCopied, hpath, hassets, Bool.false_eq_true, ↓reduceIte]
  have hpages : PagesWritten sampleConfiguration setup 0 [s] ⟨[s], made⟩ ⟨[s.marked setup], t⟩ :=
    ⟨_, ⟨rfl, dirs, "x".toList, hdirs, rfl, hwrite⟩, rfl⟩
  exact (if_neg (by simp)).mpr ⟨made, hmade, made, made, (if_pos rfl).mpr hcopied, rfl, hpages⟩

/-- Two sources with one page. -/
def sharedFiles : List (Place × Entry) :=
  [(["w".toList, "a.md".toList], .file ⟨#[104]⟩), (["w".toList, "a.markdown".toList], .file ⟨#[105]⟩)]

def sharedFound : Found :=
  [("/w/a.markdown".toList, "a.markdown".toList), ("/w/a.md".toList, "a.md".toList)]

def sharedSource (name docs : String) : Source where
  fullPath := "/w/".toList ++ name.toList
  name := name.toList
  relativeName := "a".toList
  outputPath := "/w/docs/a.html".toList
  sections := [{ docs := docs.toList, code := [] }]

def sharedSources : List Source :=
  [sharedSource "a.markdown" "i", sharedSource "a.md" "h"]

theorem sampled_shared : Sampled sharedFiles sharedFound := by
  have ht : (sampleTree sharedFiles).WellFormed := wellFormed_of_check (by decide)
  have hw : (sampleTree sharedFiles).Lists ["w".toList] ["a.markdown".toList, "a.md".toList] :=
    ht.lists_of (by cbv)
  have hroot : (sampleTree sharedFiles).stat "/w".toList = .ok (["w".toList], .dir) := by cbv
  have hfirst : (sampleTree sharedFiles).stat "/w/a.markdown".toList =
      .ok (["w".toList, "a.markdown".toList], .file ⟨#[105]⟩) := by cbv
  have hsecond : (sampleTree sharedFiles).stat "/w/a.md".toList =
      .ok (["w".toList, "a.md".toList], .file ⟨#[104]⟩) := by cbv
  have htour : Source.Tour (sampleTree sharedFiles) true ([".".toList].map Source.Stop.ofArgument) _ :=
    .enter hroot (Or.inl rfl) (by decide) hw (.file hfirst (.file hsecond .nil)) .nil
  exact ⟨ht, by cbv, Source.walk_of_tour ht htour, by simp [sharedFound]⟩

/-- The tree with the output directory, and with more. -/
def sharedTree (files : List (Place × Entry)) : FileTree :=
  sampleTree (sharedFiles ++ (["w".toList, "docs".toList], .dir) :: files)

theorem outcome_shared (setup : Markdown.Setup) :
    ∃ v, Outcome sampleConfiguration setup (sampleTree sharedFiles) sharedSources v := by
  have hmade : (sampleTree sharedFiles).makeDirs "/w/docs".toList = ⟨sharedTree [], none⟩ := by cbv
  have hpath : Path.joined sampleConfiguration.layout assetsName = "/l/public".toList := by decide
  have hassets : AssetsCopied sampleConfiguration (sharedTree []) (sharedTree []) := by
    have hnone : (sharedTree []).isDir "/l/public".toList = false := by cbv
    simp only [AssetsCopied, hpath, hnone, Bool.false_eq_true, ↓reduceIte]
  have hdirs : (sharedTree []).makeDirs (Path.directory "/w/docs/a.html".toList) =
      ⟨sharedTree [], none⟩ := by cbv
  have hwrite : (sharedTree []).write "/w/docs/a.html".toList (encode "x".toList) =
      .ok (sharedTree [(["w".toList, "docs".toList, "a.html".toList], .file ⟨#[120]⟩)]) := by cbv
  have hdirs' : (sharedTree [(["w".toList, "docs".toList, "a.html".toList], .file ⟨#[120]⟩)]).makeDirs
      (Path.directory "/w/docs/a.html".toList) =
        ⟨sharedTree [(["w".toList, "docs".toList, "a.html".toList], .file ⟨#[120]⟩)], none⟩ := by cbv
  have hwrite' : (sharedTree [(["w".toList, "docs".toList, "a.html".toList], .file ⟨#[120]⟩)]).write
      "/w/docs/a.html".toList (encode "x".toList) =
        .ok (sharedTree [(["w".toList, "docs".toList, "a.html".toList], .file ⟨#[120]⟩)]) := by cbv
  have hpages : ∃ v, PagesWritten sampleConfiguration setup 0 sharedSources
      ⟨sharedSources, sharedTree []⟩ v :=
    ⟨_, ⟨_, _⟩, ⟨rfl, _, "x".toList, hdirs, rfl, hwrite⟩,
      ⟨_, _⟩, ⟨rfl, _, "x".toList, hdirs', rfl, hwrite'⟩, rfl⟩
  obtain ⟨v, hpages⟩ := hpages
  exact ⟨v, (if_neg (by simp [sharedSources])).mpr ⟨_, hmade, _, _, (if_pos rfl).mpr hassets, rfl, hpages⟩⟩

end Sample

end Marginalia.Pipeline
