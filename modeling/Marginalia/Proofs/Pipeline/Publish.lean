import Marginalia.Proofs.Pipeline.Parse
import Marginalia.Proofs.Pipeline.Start

/-! # What a run publishes

A run that succeeds, seen as a chain of changes of its sources and files: assets, stylesheet and pages,
one after the other. The chain says exactly when a run succeeds and what it leaves.
-/
namespace Marginalia.Pipeline

open Text

/-- What the steps of a run change. -/
structure View where
  sources : List Source
  tree : FileTree

def view (p : Pipeline) : View := ⟨p.sources, p.world.tree⟩

/-- A run after some steps. -/
structure Follows (p q : Pipeline) : Prop where
  options : q.options = p.options
  setup : q.setup = p.setup
  home : q.world.home = p.world.home
  copy : q.world.copy = none

/-- A step succeeds at a run exactly with given results. -/
structure Yields {α : Type} (p : Pipeline) (x : Work α) (out : α → View → Prop) : Prop where
  sound : ∀ {a q}, x.run.run p = (.ok a, q) → Follows p q ∧ out a q.view
  complete : ∀ {a v}, out a v → ∃ q, x.run.run p = (.ok a, q) ∧ q.view = v

section Yields

variable {α β : Type} {p : Pipeline}

theorem Follows.trans {p q r : Pipeline} (h : Follows p q) (h' : Follows q r) : Follows p r :=
  ⟨h'.options.trans h.options, h'.setup.trans h.setup, h'.home.trans h.home, h'.copy⟩

theorem Yields.imp {x : Work α} {r s : α → View → Prop} (h : Yields p x r)
    (hrs : ∀ a v, r a v ↔ s a v) : Yields p x s := by
  constructor
  · intro a q hrun
    obtain ⟨hf, hr⟩ := h.sound hrun
    exact ⟨hf, (hrs a _).mp hr⟩
  · intro a v hs
    exact h.complete ((hrs a v).mpr hs)

theorem yields_throw (e : Failure) : Yields p (throw e : Work α) fun _ _ => False := by
  constructor
  · intro a q h
    cases h
  · exact fun h => h.elim

theorem yields_bind {x : Work α} {f : α → Work β} {r : α → View → Prop}
    {s : α → View → β → View → Prop} (hx : Yields p x r)
    (hf : ∀ a q, Follows p q → r a q.view → Yields q (f a) (s a q.view)) :
    Yields p (x >>= f) fun b v => ∃ a u, r a u ∧ s a u b v := by
  constructor
  · intro b q h
    rw [run_bind] at h
    cases hrun : x.run.run p with
    | mk out p₁ =>
      rw [hrun] at h
      cases out with
      | error failure => cases h
      | ok a =>
        obtain ⟨hfollows, hr⟩ := hx.sound hrun
        obtain ⟨hfollows', hs⟩ := (hf a p₁ hfollows hr).sound h
        exact ⟨hfollows.trans hfollows', a, p₁.view, hr, hs⟩
  · rintro b v ⟨a, u, hr, hs⟩
    obtain ⟨p₁, hrun, rfl⟩ := hx.complete hr
    obtain ⟨q, hq, rfl⟩ := (hf a p₁ (hx.sound hrun).1 hr).complete hs
    refine ⟨q, ?_, rfl⟩
    rw [run_bind, hrun]
    exact hq

/-- A step that always succeeds, and another one after it. -/
theorem yields_then {x : Work Unit} {f : Unit → Work β} {u : View} {r : β → View → Prop}
    (hx : Yields p x fun _ v => v = u) (hf : ∀ q, Follows p q → q.view = u → Yields q (f ()) r) :
    Yields p (x >>= f) r := by
  refine (yields_bind (s := fun _ _ => r) hx fun _ q hq hu => hf q hq hu).imp fun b v => ?_
  simp

theorem yields_check_bind {task : Task} {fault : Option FileFault} {f : Unit → Work β}
    {r : β → View → Prop} (hf : fault = none → Yields p (f ()) r) :
    Yields p (check task fault >>= f) fun b v => fault = none ∧ r b v := by
  cases fault with
  | none =>
    have h : Yields p (check task none >>= f) r := ⟨(hf rfl).sound, (hf rfl).complete⟩
    exact h.imp fun b v => by simp
  | some fault =>
    have h : Yields p (check task (some fault) >>= f) fun _ _ => False := by
      constructor
      · intro a q h
        cases h
      · exact fun h => h.elim
    exact h.imp fun b v => by simp

theorem yields_get_bind {f : Pipeline → Work α} {r : α → View → Prop} (h : Yields p (f p) r) :
    Yields p (get >>= f) r :=
  ⟨h.sound, h.complete⟩

theorem yields_modify {f : Pipeline → Pipeline} (hf : Follows p (f p)) :
    Yields p (modify f : Work Unit) fun _ v => v = (f p).view := by
  constructor
  · intro a q h
    cases h
    exact ⟨hf, rfl⟩
  · rintro a v rfl
    exact ⟨f p, rfl, rfl⟩

variable (hp : p.world.copy = none) {u : View} (hu : p.view = u)
include hp hu

theorem yields_pure (a : α) : Yields p (pure a : Work α) fun b v => b = a ∧ v = u := by
  constructor
  · intro b q h
    cases h
    exact ⟨⟨rfl, rfl, rfl, hp⟩, rfl, hu⟩
  · rintro b v ⟨rfl, rfl⟩
    exact ⟨p, rfl, hu⟩

theorem yields_check (task : Task) (fault : Option FileFault) :
    Yields p (check task fault) fun _ v => fault = none ∧ v = u := by
  cases fault with
  | none => exact (yields_pure hp hu ()).imp fun _ _ => by simp
  | some fault => exact (yields_throw _).imp fun _ _ => by simp

theorem yields_report (rs : List Record) : Yields p (report rs) fun _ v => v = u := by
  have hcopy := reportAll_of_copy hp rs
  have hview : view { p with world := p.world.reportAll rs } = u := by
    simp only [← hu, view, hcopy.2]
  exact hview ▸ yields_modify ⟨rfl, rfl, home_reportAll _ _, hcopy.1⟩

theorem yields_enter (stage : Stage) : Yields p (enter stage) fun _ v => v = u :=
  hu ▸ yields_modify ⟨rfl, rfl, rfl, hp⟩

theorem yields_setTree (t : FileTree) : Yields p (setTree t) fun _ v => v = ⟨u.sources, t⟩ :=
  hu ▸ yields_modify ⟨rfl, rfl, rfl, hp⟩

end Yields

section Publish

/-- Assets are copied as a whole. -/
def AssetsCopied (c : Configuration) (t t' : FileTree) : Prop :=
  if t.isDir (Path.joined c.layout assetsName) then
    t.copyDir (Path.joined c.layout assetsName) (Path.joined c.output assetsName) = ⟨t', none, []⟩
  else t' = t

/-- The stylesheet is copied under its own name. -/
def StylesheetCopied (c : Configuration) (t t' : FileTree) : Prop :=
  match c.css with
  | none => t' = t
  | some css => t.copyFile css (Path.joined c.output (Path.baseName css)) = .ok t'

/-- The page of the source at an index is written; the source is marked on the way. -/
def PageWritten (c : Configuration) (setup : Markdown.Setup) (i : Nat) (s : Source) (a b : View) : Prop :=
  b.sources = a.sources.set i (s.marked setup) ∧
  ∃ made markup, a.tree.makeDirs (Path.directory s.outputPath) = ⟨made, none⟩ ∧
    Page.render made c setup b.sources i (s.marked setup) given = .ok markup ∧
    made.write s.outputPath (encode markup) = .ok b.tree

/-- The pages of sources are written from an index on. -/
def PagesWritten (c : Configuration) (setup : Markdown.Setup) : Nat → List Source → View → View → Prop
  | _, [], a, b => b = a
  | i, s :: rest, a, b =>
    ∃ v, PageWritten c setup i s a v ∧ PagesWritten c setup (i + 1) rest v b

variable {p : Pipeline} (hp : p.world.copy = none)
include hp

theorem yields_copyAssets : Yields p copyAssets fun _ v =>
    v.sources = p.sources ∧ AssetsCopied p.options p.world.tree v.tree := by
  refine yields_get_bind ?_
  dsimp only
  split
  · next hdir =>
    generalize hc : p.world.tree.copyDir (Path.joined p.options.layout assetsName)
      (Path.joined p.options.output assetsName) = copied
    -- faults below the directory end the step only once all has been copied
    have hrest : ∀ q, Follows p q → q.view = ⟨p.sources, copied.tree⟩ →
        Yields q (if (!copied.faults.isEmpty) = true then do
            throw (.failed (.copyAssets (Path.joined p.options.output assetsName))
              (FileTree.copyMessage copied.faults))
            report (p.options.log ("Copied layout assets to ".toList ++
              p.shown (Path.joined p.options.output assetsName)))
          else report (p.options.log ("Copied layout assets to ".toList ++
            p.shown (Path.joined p.options.output assetsName))))
          fun _ v => copied.faults = [] ∧ v = ⟨p.sources, copied.tree⟩ := by
      intro q hq hview
      cases hfaults : copied.faults with
      | nil =>
        exact (yields_report hq.copy hview _).imp fun _ v => by simp
      | cons fault faults =>
        refine (yields_bind (s := fun _ _ _ _ => False) (yields_throw _) fun _ _ _ h => h.elim).imp ?_
        simp
    refine (yields_then (yields_setTree hp rfl _) fun q hq hview =>
      yields_check_bind fun _ => hrest q hq hview).imp fun _ v => ?_
    obtain ⟨tree, fault, faults⟩ := copied
    obtain ⟨sources, t⟩ := v
    simp only [AssetsCopied, hdir, ↓reduceIte, hc, View.mk.injEq, FileTree.Copied.mk.injEq]
    tauto
  · next hdir =>
    refine (yields_pure hp rfl ()).imp fun _ v => ?_
    obtain ⟨sources, t⟩ := v
    simp [AssetsCopied, hdir, view]

theorem yields_copyStylesheet : Yields p copyStylesheet fun _ v =>
    v.sources = p.sources ∧ StylesheetCopied p.options p.world.tree v.tree := by
  refine yields_get_bind ?_
  unfold StylesheetCopied
  cases hcss : p.options.css with
  | none =>
    refine (yields_pure hp rfl ()).imp fun _ v => ?_
    obtain ⟨sources, t⟩ := v
    simp [view]
  | some css =>
    dsimp only
    cases hcopy : p.world.tree.copyFile css (Path.joined p.options.output (Path.baseName css)) with
    | error fault => exact (yields_throw _).imp fun _ v => by simp
    | ok tree =>
      refine (yields_then (yields_setTree hp rfl _) fun q hq hview =>
        yields_report hq.copy hview _).imp fun _ v => ?_
      obtain ⟨sources, t⟩ := v
      simp [view, eq_comm]

theorem yields_page (i : Nat) (s : Source) : Yields p (page i s) fun out v =>
    v = ⟨p.sources.set i (s.marked p.setup), p.world.tree⟩ ∧
      out = Page.render p.world.tree p.options p.setup v.sources i (s.marked p.setup) given := by
  constructor
  · intro a q h
    cases h
    exact ⟨⟨rfl, rfl, rfl, hp⟩, rfl, rfl⟩
  · rintro a v ⟨rfl, rfl⟩
    exact ⟨_, rfl, rfl⟩

theorem yields_write (i : Nat) (s : Source) : Yields p (write i s) fun _ v =>
    PageWritten p.options p.setup i s p.view v := by
  refine yields_get_bind ?_
  dsimp only
  generalize hmade : p.world.tree.makeDirs (Path.directory s.outputPath) = made
  refine (yields_then (yields_setTree hp rfl _) fun q hq hview =>
    yields_check_bind (r := fun _ v => v.sources = p.sources.set i (s.marked p.setup) ∧
      ∃ markup, Page.render made.tree p.options p.setup v.sources i (s.marked p.setup) given =
        .ok markup ∧ made.tree.write s.outputPath (encode markup) = .ok v.tree) fun _ => ?_).imp
    fun _ v => ?_
  · obtain ⟨hsources, htree⟩ : q.sources = p.sources ∧ q.world.tree = made.tree := by
      simpa [view] using hview
    have hpage := yields_page hq.copy i s
    rw [hsources, htree, hq.options, hq.setup] at hpage
    refine (yields_bind (s := fun out u _ v => ∃ markup, out = .ok markup ∧
      v.sources = u.sources ∧ u.tree.write s.outputPath (encode markup) = .ok v.tree) hpage ?_).imp
      fun _ v => ?_
    · intro out r hr _
      cases out with
      -- a missing template and any other fault differ in their failure only
      | error fault =>
        dsimp only
        split
        · exact (yields_throw _).imp fun _ v => by simp
        · exact (yields_throw _).imp fun _ v => by simp
      | ok markup =>
        refine yields_get_bind ?_
        cases hwrite : r.world.tree.write s.outputPath (encode markup) with
        | error fault => exact (yields_throw _).imp fun _ v => by simp [view, hwrite]
        | ok tree =>
          refine (yields_then (yields_setTree hr.copy rfl _) fun r' hr' hview' =>
            yields_report hr'.copy hview' _).imp fun _ v => ?_
          obtain ⟨sources, t⟩ := v
          simp [view, hwrite, eq_comm]
    · constructor
      · rintro ⟨out, u, ⟨rfl, rfl⟩, markup, hmarkup, hsources, hwrite⟩
        exact ⟨hsources, markup, hsources ▸ hmarkup, hwrite⟩
      · rintro ⟨hsources, markup, hmarkup, hwrite⟩
        exact ⟨_, _, ⟨rfl, rfl⟩, markup, hsources ▸ hmarkup, hsources, hwrite⟩
  · obtain ⟨tree, fault⟩ := made
    simp only [PageWritten, hmade, view, FileTree.Changed.mk.injEq]
    constructor
    · rintro ⟨rfl, hsources, markup, hmarkup, hwrite⟩
      exact ⟨hsources, tree, markup, ⟨rfl, rfl⟩, hmarkup, hwrite⟩
    · rintro ⟨hsources, made, markup, ⟨rfl, rfl⟩, hmarkup, hwrite⟩
      exact ⟨rfl, hsources, markup, hmarkup, hwrite⟩

theorem yields_writeFrom (i : Nat) (sources : List Source) : Yields p (writeFrom i sources) fun _ v =>
    PagesWritten p.options p.setup i sources p.view v := by
  induction sources generalizing i p with
  | nil => exact (yields_pure hp rfl ()).imp fun _ v => by simp [PagesWritten]
  | cons s sources ih =>
    refine (yields_bind (s := fun _ u _ v => PagesWritten p.options p.setup (i + 1) sources u v)
      (yields_write hp i s) fun _ q hq _ => ?_).imp fun _ v => ?_
    · have hrest := ih hq.copy (i + 1)
      rwa [hq.options, hq.setup] at hrest
    · simp [PagesWritten]

theorem yields_finish (sources : List Source) : Yields p (do
      copyStylesheet
      enter .assetsCopied
      writeFrom 0 sources
      enter .written
      let p ← get
      report (p.options.log ("Documented ".toList ++ natText sources.length ++
        " file(s) into ".toList ++ p.shown p.options.output))
      enter .done) fun _ v =>
    ∃ t, StylesheetCopied p.options p.world.tree t ∧
      PagesWritten p.options p.setup 0 sources ⟨p.sources, t⟩ v := by
  refine (yields_bind (s := fun _ u _ v => PagesWritten p.options p.setup 0 sources u v)
    (yields_copyStylesheet hp) fun _ q hq _ => ?_).imp fun _ v => ?_
  · refine yields_then (yields_enter hq.copy rfl _) fun q₁ hq₁ hview => ?_
    have hpages := yields_writeFrom hq₁.copy 0 sources
    rw [hview, hq₁.options, hq₁.setup, hq.options, hq.setup] at hpages
    refine (yields_bind (s := fun _ u _ v => v = u) hpages fun _ q₂ hq₂ _ => ?_).imp fun _ v => ?_
    · refine yields_then (yields_enter hq₂.copy rfl _) fun q₃ hq₃ hview₃ => ?_
      refine yields_get_bind (yields_then (yields_report hq₃.copy hview₃ _) fun q₄ hq₄ hview₄ => ?_)
      exact yields_enter hq₄.copy hview₄ _
    · simp
  · constructor
    · rintro ⟨_, ⟨sources', t⟩, ⟨rfl, hcss⟩, hpages⟩
      exact ⟨t, hcss, hpages⟩
    · rintro ⟨t, hcss, hpages⟩
      exact ⟨(), ⟨p.sources, t⟩, ⟨rfl, hcss⟩, hpages⟩

/-- What is published once the output directory is made. -/
def Published (c : Configuration) (setup : Markdown.Setup) (sources : List Source) (t : FileTree)
    (v : View) : Prop :=
  ∃ t₁ t₂, (if c.assets then AssetsCopied c t t₁ else t₁ = t) ∧ StylesheetCopied c t₁ t₂ ∧
    PagesWritten c setup 0 sources ⟨sources, t₂⟩ v

theorem yields_publish {sources : List Source} (hs : p.sources = sources) :
    Yields p (publish sources) fun _ v =>
      Published p.options p.setup sources p.world.tree v := by
  refine yields_then (yields_enter hp rfl _) fun q hq hview => yields_get_bind ?_
  obtain ⟨hsources, htree⟩ : q.sources = sources ∧ q.world.tree = p.world.tree := by
    simpa [view, hs] using hview
  unfold Published
  rw [← hq.options, ← hq.setup, ← htree]
  split
  · refine (yields_bind (s := fun _ u _ v => ∃ t, StylesheetCopied q.options u.tree t ∧
      PagesWritten q.options q.setup 0 sources ⟨sources, t⟩ v)
      (yields_copyAssets hq.copy) fun _ r hr hu => ?_).imp fun _ v => ?_
    · have hfinish := yields_finish hr.copy sources
      rwa [hr.options, hr.setup, show r.sources = sources from hu.1.trans hsources] at hfinish
    · constructor
      · rintro ⟨_, u, ⟨-, hassets⟩, t, hcss, hpages⟩
        exact ⟨u.tree, t, hassets, hcss, hpages⟩
      · rintro ⟨t₁, t₂, hassets, hcss, hpages⟩
        exact ⟨(), ⟨q.sources, t₁⟩, ⟨rfl, hassets⟩, t₂, hcss, hpages⟩
  · refine (yields_finish hq.copy sources).imp fun _ v => ?_
    rw [hsources]
    simp

end Publish

section Run

variable {p : Pipeline} (hp : p.world.copy = none)
include hp

theorem yields_parse : Yields p parse fun kept v =>
    keptIn p.splitters p.world.tree p.sources = .ok kept ∧ v = ⟨kept, p.world.tree⟩ := by
  have hparse := parse_run hp
  have hcalm := calm_parse p
  constructor
  · intro kept q h
    have hsources := sources_parse h
    rw [h] at hparse hcalm
    refine ⟨⟨hcalm.options, hcalm.setup, hcalm.home, hcalm.copy hp⟩, hparse.symm, ?_⟩
    rw [view, hsources, hcalm.tree hp]
  · rintro kept v ⟨hkept, rfl⟩
    cases h : parse.run.run p with
    | mk out q =>
      rw [h] at hparse hcalm
      obtain rfl : out = .ok kept := hparse.trans hkept
      exact ⟨q, rfl, by rw [view, sources_parse h, hcalm.tree hp]⟩

theorem yields_makeOutput : Yields p makeOutput fun _ v =>
    ∃ made, p.world.tree.makeDirs p.options.output = ⟨made, none⟩ ∧ v = ⟨p.sources, made⟩ := by
  refine yields_get_bind ?_
  dsimp only
  generalize p.world.tree.makeDirs p.options.output = made
  refine (yields_then (yields_setTree hp rfl _) fun q hq hview =>
    yields_check hq.copy hview _ _).imp fun _ v => ?_
  obtain ⟨tree, fault⟩ := made
  simp only [FileTree.Changed.mk.injEq]
  constructor
  · rintro ⟨rfl, rfl⟩
    exact ⟨tree, ⟨rfl, rfl⟩, rfl⟩
  · rintro ⟨made, ⟨rfl, rfl⟩, rfl⟩
    exact ⟨rfl, rfl⟩

/-- What a run leaves that keeps given sources. -/
def Outcome (c : Configuration) (setup : Markdown.Setup) (t : FileTree) (kept : List Source) (v : View) :
    Prop :=
  if kept = [] then v = ⟨[], t⟩
  else ∃ made, t.makeDirs c.output = ⟨made, none⟩ ∧ Published c setup kept made v

theorem yields_run : Yields p run fun kept v =>
    keptIn p.splitters p.world.tree p.sources = .ok kept ∧
      Outcome p.options p.setup p.world.tree kept v := by
  refine (yields_bind (s := fun kept u out v => out = kept ∧ Outcome p.options p.setup u.tree kept v)
    (yields_parse hp) fun kept q hq hu => ?_).imp fun kept v => ?_
  · obtain ⟨hsources, htree⟩ : q.sources = kept ∧ q.world.tree = p.world.tree := by
      simpa [view] using hu.2
    unfold Outcome
    cases kept with
    -- a run that keeps nothing makes no directory
    | nil =>
      refine (yields_then (yields_report hq.copy rfl _) fun q₁ hq₁ hview₁ =>
        yields_then (yields_enter hq₁.copy hview₁ _) fun q₂ hq₂ hview₂ =>
          yields_pure hq₂.copy hview₂ ([] : List Source)).imp fun out v => ?_
      simp [view, hsources]
    | cons s kept =>
      refine (yields_bind (s := fun _ u out v => out = s :: kept ∧
        Published q.options q.setup (s :: kept) u.tree v) (yields_makeOutput hq.copy)
        fun _ q₁ hq₁ hmade => ?_).imp fun out v => ?_
      · obtain ⟨made, -, hview⟩ := hmade
        have hsources₁ : q₁.sources = s :: kept := by
          have : q₁.view.sources = q.sources := by rw [hview]
          exact this.trans hsources
        have hpublish := yields_publish hq₁.copy hsources₁
        rw [hq₁.options, hq₁.setup] at hpublish
        refine (yields_bind (s := fun _ u out v => out = s :: kept ∧ v = u) hpublish
          fun _ q₂ hq₂ _ => yields_pure hq₂.copy rfl _).imp fun out v => ?_
        simp only [view]
        constructor
        · rintro ⟨_, u, hu, rfl, rfl⟩
          exact ⟨rfl, hu⟩
        · rintro ⟨rfl, hu⟩
          exact ⟨(), v, hu, rfl, rfl⟩
      · rw [hq.options, hq.setup, htree]
        simp only [view, htree]
        constructor
        · rintro ⟨_, u, ⟨made, hmade, rfl⟩, rfl, hpub⟩
          exact ⟨rfl, by simpa using ⟨made, hmade, hpub⟩⟩
        · rintro ⟨rfl, hout⟩
          obtain ⟨made, hmade, hpub⟩ : ∃ made, p.world.tree.makeDirs p.options.output = ⟨made, none⟩ ∧
              Published p.options p.setup (s :: kept) made v := by simpa using hout
          exact ⟨(), ⟨q.sources, made⟩, ⟨made, hmade, rfl⟩, rfl, hpub⟩
  · constructor
    · rintro ⟨kept', u, ⟨hkept, rfl⟩, rfl, hout⟩
      exact ⟨hkept, hout⟩
    · rintro ⟨hkept, hout⟩
      exact ⟨kept, _, ⟨hkept, rfl⟩, rfl, hout⟩

end Run

section Document

variable {layouts : Layouts} {splitters : Registry} {paths options : Value} {w w' : World}
  {kept : List Source}

/-- A whole run that succeeds, from the world it starts in. -/
structure Documented (layouts : Layouts) (splitters : Registry) (paths options : Value) (w : World)
    (kept : List Source) (p : Pipeline) (found : Found) (t : FileTree) : Prop where
  started : Started layouts splitters paths options w found p
  parsed : keptIn splitters w.tree p.sources = .ok kept
  outcome : ∃ v, Outcome p.options p.setup w.tree kept v ∧ t = v.tree

theorem Documented.document {p : Pipeline} {found : Found} {t : FileTree} (hw : w.copy = none)
    (h : Documented layouts splitters paths options w kept p found t) :
    ∃ w', document layouts splitters paths options w = (.ok kept, w') ∧ w'.tree = t := by
  obtain ⟨hcopy, htree⟩ := h.started.copy hw
  obtain ⟨v, hout, rfl⟩ := h.outcome
  have hkept := h.parsed
  rw [← htree, ← h.started.splitters] at hkept
  rw [← htree] at hout
  obtain ⟨q, hq, rfl⟩ := (yields_run hcopy).complete ⟨hkept, hout⟩
  refine ⟨q.world, ?_, rfl⟩
  rw [Marginalia.document, h.started.run]
  simp only [hq]

end Document

end Marginalia.Pipeline
