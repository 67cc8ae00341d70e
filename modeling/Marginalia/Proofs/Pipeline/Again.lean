import Marginalia.Proofs.Configuration.Growth
import Marginalia.Proofs.FileTree.Replay
import Marginalia.Proofs.Page.Reads
import Marginalia.Proofs.Pipeline.Pages
import Marginalia.Proofs.Source.Growth

/-! # A run made again

A run that is made a second time finds its own pages beside its sources. It repeats itself as long as
what it reads was left alone, and as long as the files it finds anew have nothing to say and no part in
the names of the others.
-/
namespace Marginalia.Pipeline

open Text FileTree

section Edits

variable {c : Configuration} {setup : Markdown.Setup} {t t' : FileTree} {a b : View} {kept : List Source}

theorem AssetsCopied.edits (ht : t.WellFormed) (h : AssetsCopied c t t') :
    Edits Anywhere Anywhere t t' := by
  unfold AssetsCopied at h
  split at h
  · have hedits := copyDirFrom_anywhere maxDepth t (Path.joined c.layout assetsName)
      (Path.joined c.output assetsName) ht
    rwa [← copyDir, h] at hedits
  · subst h
    exact .refl

theorem StylesheetCopied.edits (ht : t.WellFormed) (h : StylesheetCopied c t t') :
    Edits Anywhere Anywhere t t' := by
  unfold StylesheetCopied at h
  split at h
  · subst h
    exact .refl
  · exact (copyFile_edits ht h).anywhere

theorem makeDirs_anywhere (ht : t.WellFormed) {path : List Char} (h : t.makeDirs path = ⟨t', none⟩) :
    Edits Anywhere Anywhere t t' := by
  have hedits := makeDirsFrom_anywhere ht (Path.parse path).root (Path.parse path).segments.reverse
  rwa [← makeDirs, h] at hedits

theorem PageWritten.edits {i : Nat} {s : Source} (ha : a.tree.WellFormed)
    (h : PageWritten c setup i s a b) : Edits Anywhere Anywhere a.tree b.tree := by
  obtain ⟨-, made, markup, hmade, -, hwrite⟩ := h
  have hdirs := makeDirs_anywhere ha hmade
  exact hdirs.trans (write_edits (hdirs.wellFormed ha) hwrite).anywhere

theorem PagesWritten.edits {i : Nat} (ha : a.tree.WellFormed) (h : PagesWritten c setup i kept a b) :
    Edits Anywhere Anywhere a.tree b.tree := by
  induction kept generalizing i a with
  | nil =>
    cases h
    exact .refl
  | cons s kept ih =>
    obtain ⟨v, hpage, hrest⟩ := h
    have hedits := hpage.edits ha
    exact hedits.trans (ih (hedits.wellFormed ha) hrest)

theorem Outcome.edits {v : View} (ht : t.WellFormed) (h : Outcome c setup t kept v) :
    Edits Anywhere Anywhere t v.tree := by
  unfold Outcome at h
  split at h
  · subst h
    exact .refl
  · obtain ⟨made, hmade, t₁, t₂, hassets, hcss, hpages⟩ := h
    have hdirs := makeDirs_anywhere ht hmade
    have hmade' := hdirs.wellFormed ht
    have hcopied : Edits Anywhere Anywhere made t₁ := by
      split at hassets
      · exact hassets.edits hmade'
      · subst hassets
        exact .refl
    have ht₁ := hcopied.wellFormed hmade'
    have hstyled := hcss.edits ht₁
    exact ((hdirs.trans hcopied).trans hstyled).trans (hpages.edits (hstyled.wellFormed ht₁))

end Edits

section Replay

/-- What the pages of a run are made with is as it was: the assets, the template, the templates that it asks
for by name, and the stylesheet. No copy is a file that the user may not write. -/
structure Undisturbed (c : Configuration) (asked : List (List Char)) (w v : FileTree) : Prop where
  assets : c.assets = true → w.SteadyBelow v (Path.joined c.layout assetsName)
  templates : ∀ name ∈ c.templateFile :: asked, w.Agrees v (Template.pathIn c.template.dir name)
  css : ∀ css, c.css = some css → w.Agrees v css
  locked : v.locked = w.locked

/-- Pages that are written from an index on ask for templates of certain names only. -/
def PagesAskFor (c : Configuration) (setup : Markdown.Setup) (asked : List (List Char)) :
    Nat → List Source → View → Prop
  | _, [], _ => True
  | i, s :: rest, a => ∀ b, PageWritten c setup i s a b →
    (∀ made, a.tree.makeDirs (Path.directory s.outputPath) = ⟨made, none⟩ →
      c.template.AsksFor asked made (Page.scope made c setup b.sources i (s.marked setup) given)) ∧
    PagesAskFor c setup asked (i + 1) rest b

/-- The pages of a run ask for templates of certain names only. -/
def AsksFor (c : Configuration) (setup : Markdown.Setup) (asked : List (List Char)) (t : FileTree)
    (kept : List Source) : Prop :=
  ∀ made t₁ t₂, t.makeDirs c.output = ⟨made, none⟩ →
    (if c.assets then AssetsCopied c made t₁ else t₁ = made) → StylesheetCopied c t₁ t₂ →
      PagesAskFor c setup asked 0 kept ⟨kept, t₂⟩

variable {c : Configuration} {setup : Markdown.Setup} {w v t t' u : FileTree} {P : Path}
  {kept : List Source} {asked : List (List Char)}

theorem AssetsCopied.again (h : Replay w v t u)
    (hs : w.SteadyBelow v (Path.joined c.layout assetsName)) (hP : P.Rooted) (hout : c.output = P.text)
    (hcopied : AssetsCopied c t t') (hlate : Grows t' v) :
    ∃ u', AssetsCopied c u u' ∧ Replay w v t' u' := by
  unfold AssetsCopied at hcopied ⊢
  rw [h.isDir_eq hs.self.stat, hout, Path.joined_text hP isName_assetsName]
  rw [hout, Path.joined_text hP isName_assetsName] at hcopied
  split at hcopied
  · next hdir =>
    have hrooted : Path.Rooted ⟨P.root, P.segments ++ [assetsName]⟩ :=
      hP.append (by simpa using isName_assetsName)
    simp only [hdir, ↓reduceIte]
    exact Replay.copiesAgain_copyDirFrom maxDepth h hs hrooted hcopied hlate
  · next hdir =>
    subst hcopied
    simp only [hdir, Bool.false_eq_true, ↓reduceIte]
    exact ⟨u, rfl, h⟩

theorem StylesheetCopied.again (h : Replay w v t u)
    (hs : ∀ css, c.css = some css → w.Agrees v css) (hcopied : StylesheetCopied c t t')
    (hlate : Grows t' v) : ∃ u', StylesheetCopied c u u' ∧ Replay w v t' u' := by
  unfold StylesheetCopied at hcopied ⊢
  cases hcss : c.css with
  | none =>
    rw [hcss] at hcopied
    subst hcopied
    exact ⟨u, rfl, h⟩
  | some css =>
    rw [hcss] at hcopied
    exact h.copyFile (hs css hcss) hcopied hlate

/-- The page of a source is written again. -/
theorem PageWritten.again {a a' b : View} {i : Nat} {s : Source} (h : Replay w v a.tree a'.tree)
    (hsources : a'.sources = a.sources)
    (hs : ∀ name ∈ asked, w.Agrees v (Template.pathIn c.template.dir name)) (hP : P.Rooted)
    (hpage : Source.Beneath P.text s.outputPath) (hwritten : PageWritten c setup i s a b)
    (hasks : ∀ made, a.tree.makeDirs (Path.directory s.outputPath) = ⟨made, none⟩ →
      c.template.AsksFor asked made (Page.scope made c setup b.sources i (s.marked setup) given))
    (hlate : Grows b.tree v) :
    ∃ b', PageWritten c setup i s a' b' ∧ b'.sources = b.sources ∧ Replay w v b.tree b'.tree := by
  obtain ⟨ns, n, hns, hn, hpath⟩ := hpage
  obtain ⟨hset, made, markup, hmade, hrender, hwrite⟩ := hwritten
  have hrooted := hP.append hns
  have hdirs : made.WellFormed := (makeDirs_anywhere h.first hmade).wellFormed h.first
  have hmade' : a.tree.makeDirs (Path.text ⟨P.root, P.segments ++ ns⟩) = ⟨made, none⟩ := by
    rw [← Path.below_text hP hns, ← makeDirs_directory hP hns hn, ← hpath, hmade]
  have hgrows : Grows made v := (write_edits hdirs hwrite).grows.trans hlate
  obtain ⟨hfound, hreplay⟩ := h.makeDirs hrooted (congrArg Changed.fault hmade')
    (by rwa [hmade'])
  rw [hmade'] at hreplay
  obtain ⟨u', hu', hend⟩ := hreplay.write hwrite hlate
  have hagree : ∀ name ∈ asked, made.Agrees a'.tree (Template.pathIn c.template.dir name) :=
    fun name hname => hreplay.agrees (hs name hname)
  have hcwd : a'.tree.cwd = made.cwd := (hreplay.late.trans hreplay.ahead).cwd
  refine ⟨⟨b.sources, u'⟩, ⟨?_, a'.tree, markup, ?_, ?_, hu'⟩, rfl, hend⟩
  · rw [hsources, hset]
  · rw [hpath, makeDirs_directory hP hns hn, Path.below_text hP hns, hfound]
  · rw [Page.render_congr hcwd (hasks made hmade) hagree, hrender]

theorem PagesWritten.again {a a' b : View} {i : Nat} (h : Replay w v a.tree a'.tree)
    (hsources : a'.sources = a.sources)
    (hs : ∀ name ∈ asked, w.Agrees v (Template.pathIn c.template.dir name)) (hP : P.Rooted)
    (hpages : ∀ k ∈ kept, Source.Beneath P.text k.outputPath) (hwritten : PagesWritten c setup i kept a b)
    (hasks : PagesAskFor c setup asked i kept a) (hlate : Grows b.tree v) :
    ∃ b', PagesWritten c setup i kept a' b' ∧ Replay w v b.tree b'.tree := by
  induction kept generalizing i a a' with
  | nil =>
    cases hwritten
    exact ⟨a', rfl, h⟩
  | cons s kept ih =>
    obtain ⟨x, hpage, hrest⟩ := hwritten
    obtain ⟨hask, hasks⟩ := hasks x hpage
    have hx := (hpage.edits h.first).wellFormed h.first
    have hgrows := (hrest.edits hx).grows.trans hlate
    obtain ⟨x', hpage', hsources', hreplay⟩ := hpage.again h hsources hs hP (hpages s List.mem_cons_self)
      hask hgrows
    obtain ⟨b', hrest', hend⟩ := ih hreplay hsources' (fun k hk => hpages k (List.mem_cons_of_mem _ hk))
      hrest hasks
    exact ⟨b', ⟨x', hpage', hrest'⟩, hend⟩

/-- A run that keeps the same sources leaves every file as it finds it the second time. -/
theorem Outcome.again {b : View} (hw : w.WellFormed) (hb : Outcome c setup w kept b)
    (hc : Undisturbed c asked w b.tree) (hasks : AsksFor c setup asked w kept) (hP : P.Rooted)
    (hout : c.output = P.text) (hpages : ∀ k ∈ kept, Source.Beneath P.text k.outputPath) :
    ∃ b', Outcome c setup b.tree kept b' ∧ ∀ q, b'.tree.get? q = b.tree.get? q := by
  have hedits := hb.edits hw
  have hstart := Replay.start hw (hedits.wellFormed hw) hedits.grows hc.locked
  unfold Outcome at hb ⊢
  split at hb
  · next hnil =>
    simp only [hnil, ↓reduceIte]
    exact ⟨⟨[], b.tree⟩, rfl, fun q => rfl⟩
  · next hne =>
    simp only [hne, ↓reduceIte]
    obtain ⟨made, hmade, t₁, t₂, hassets, hcss, hwritten⟩ := hb
    have hdirs := makeDirs_anywhere hw hmade
    have hmade' := hdirs.wellFormed hw
    have hcopied : Edits Anywhere Anywhere made t₁ := by
      split at hassets
      · exact hassets.edits hmade'
      · subst hassets
        exact .refl
    have hwf := hcopied.wellFormed hmade'
    have hstyled := hcss.edits hwf
    have hlate₂ := (hwritten.edits (hstyled.wellFormed hwf)).grows
    have hlate₁ := hstyled.grows.trans hlate₂
    have hasks := hasks made t₁ t₂ hmade hassets hcss
    have htemplates : ∀ name ∈ asked, w.Agrees b.tree (Template.pathIn c.template.dir name) :=
      fun name hname => hc.templates name (List.mem_cons_of_mem _ hname)
    rw [hout] at hmade ⊢
    -- from here on each step of the second pass goes beside that of the first one
    obtain ⟨hfound, hreplay⟩ := hstart.makeDirs hP (congrArg Changed.fault hmade)
      (by
        rw [hmade]
        exact hcopied.grows.trans hlate₁)
    rw [hmade] at hreplay
    obtain ⟨u₁, hassets', hreplay₁⟩ : ∃ u₁,
        (if c.assets then AssetsCopied c b.tree u₁ else u₁ = b.tree) ∧ Replay w b.tree t₁ u₁ := by
      split at hassets
      · next hwanted =>
        simp only [hwanted, ↓reduceIte]
        exact hassets.again hreplay (hc.assets hwanted) hP hout hlate₁
      · next hwanted =>
        subst hassets
        simp only [hwanted, Bool.false_eq_true, ↓reduceIte]
        exact ⟨b.tree, rfl, hreplay⟩
    obtain ⟨u₂, hcss', hreplay₂⟩ := hcss.again hreplay₁ hc.css hlate₂
    have hsame : (View.mk kept u₂).sources = (View.mk kept t₂).sources := rfl
    obtain ⟨b', hwritten', hend⟩ := PagesWritten.again hreplay₂ hsame htemplates hP hpages hwritten hasks
      (Grows.refl _)
    exact ⟨b', ⟨b.tree, hfound, u₁, u₂, hassets', hcss', hwritten'⟩, hend.get?_eq_of_end⟩

end Replay

section Sources

variable {splitters : Registry} {t u : FileTree}

end Sources

section Again

variable {layouts : Layouts} {splitters splitters' : Registry} {paths options : Value} {w w' : World}
  {kept : List Source} {c : Configuration} {ps : List (List Char)} {found found' : Found}

/-- A run that is prepared, prepared again from what it left. -/
theorem Started.again {p : Pipeline} (splitters' : Registry) (hw : w.tree.WellFormed)
    (hg : w.tree.Grows w'.tree) (hhome : w'.home = w.home) (h : Started layouts splitters paths options w found p)
    (hlayouts : layouts.looked w'.tree = layouts.looked w.tree)
    (htemplate : w.tree.Agrees w'.tree (Template.pathIn p.options.template.dir p.options.templateFile))
    (hps : pathsOf paths = .ok ps)
    (hwalk : Source.walk w'.tree ps p.options.recursive = .ok found') (hne : found' ≠ []) :
    Started layouts splitters' paths options w' found' ⟨w'.report (countRecord found'), p.options,
      splitters', .resolved, Source.mapOutputs found' p.options.output p.options.index, p.setup⟩ := by
  obtain ⟨es, hes, hres⟩ := Configuration.resolve_eq_ok_iff.mp h.options
  have hres' := hres.of_grows hw hg hlayouts htemplate
  exact {
    options := Configuration.resolve_eq_ok_iff.mpr ⟨es, hes, hhome ▸ hres'⟩
    walked := ⟨ps, hps, hwalk⟩
    ne_nil := hne
    setup := h.setup
    sources := rfl
    splitters := rfl
    stage := rfl
    world := rfl }

end Again

section Sample

/-- What a run adds that writes the page `a.html`. -/
def addedFiles : List (Place × Entry) :=
  [(["w".toList, "docs".toList], .dir), (["w".toList, "docs".toList, "a.html".toList], .file ⟨#[120]⟩)]

/-- One source, beside its output directory. -/
def flatFiles : List (Place × Entry) :=
  [(["w".toList, "a.md".toList], .file ⟨#[104]⟩)]

def flatSource : Source where
  fullPath := "/w/a.md".toList
  name := "a.md".toList
  relativeName := "a".toList
  outputPath := "/w/docs/a.html".toList
  sections := [{ docs := "h".toList, code := [] }]

/-- The tree after the run. -/
def addedTree (files : List (Place × Entry)) : FileTree := sampleTree (files ++ addedFiles)

theorem sampled_flat : Sampled flatFiles [("/w/a.md".toList, "a.md".toList)] := by
  have ht : (sampleTree flatFiles).WellFormed := wellFormed_of_check (by decide)
  have hw : (sampleTree flatFiles).Lists ["w".toList] ["a.md".toList] := ht.lists_of (by cbv)
  have hroot : (sampleTree flatFiles).stat "/w".toList = .ok (["w".toList], .dir) := by cbv
  have hfile : (sampleTree flatFiles).stat "/w/a.md".toList =
      .ok (["w".toList, "a.md".toList], .file ⟨#[104]⟩) := by cbv
  have htour : Source.Tour (sampleTree flatFiles) true ([".".toList].map Source.Stop.ofArgument) _ :=
    .enter hroot (Or.inl rfl) (by decide) hw (.file hfile .nil) .nil
  exact ⟨ht, by cbv, Source.walk_of_tour ht htour, by simp⟩

theorem outcome_flat (setup : Markdown.Setup) :
    keptIn .standard (sampleTree flatFiles) (Source.mapOutputs
      [("/w/a.md".toList, "a.md".toList)] "/w/docs".toList none) = .ok [flatSource] ∧
    Outcome sampleConfiguration setup (sampleTree flatFiles) [flatSource]
      ⟨[flatSource.marked setup], addedTree flatFiles⟩ := by
  have hmade : (sampleTree flatFiles).makeDirs "/w/docs".toList =
      ⟨sampleTree (flatFiles ++ [(["w".toList, "docs".toList], .dir)]), none⟩ := by cbv
  have hdirs : (sampleTree (flatFiles ++ [(["w".toList, "docs".toList], .dir)])).makeDirs
      (Path.directory flatSource.outputPath) =
        ⟨sampleTree (flatFiles ++ [(["w".toList, "docs".toList], .dir)]), none⟩ := by cbv
  have hwrite : (sampleTree (flatFiles ++ [(["w".toList, "docs".toList], .dir)])).write
      flatSource.outputPath (encode "x".toList) = .ok (addedTree flatFiles) := by cbv
  exact ⟨by cbv, outcome_sample hmade (by cbv) hdirs hwrite⟩

end Sample

end Marginalia.Pipeline
