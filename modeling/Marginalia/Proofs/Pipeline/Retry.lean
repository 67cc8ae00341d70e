import Marginalia.Proofs.Pipeline.Links
import Marginalia.Proofs.Pipeline.Stages

/-! # A run that is tried again

Cutting sources drops some of them and fills the others, and a run that fails stops in the midst of it.
What a source has to say is settled by the content of its file alone, so a run that succeeds in the end
keeps and writes what a new run would.
-/
namespace Marginalia.Pipeline

open Text FileTree Source Layouts

section Told

/-- A source as it is found, without sections. -/
def bare (s : Source) : Source := { s with sections := [] }

/-- A source with its sections, cut from a content by the splitter of its file type; nothing when there is
no such splitter or no section. -/
def told? (splitters : Registry) (content : List Char → ByteArray) (s : Source) : Option Source :=
  match splitterIn splitters (Path.cutExtension s.fullPath).2 with
  | .ok (some splitter) =>
    match splitter.run (decodeLenient (content s.fullPath)) with
    | .ok (part :: parts) => some { s with sections := part :: parts }
    | _ => none
  | _ => none

/-- Sources that can be read in a tree have given contents there. -/
def Legible (content : List Char → ByteArray) (sources : List Source) (t : FileTree) : Prop :=
  ∀ s ∈ sources, ∀ bytes, t.read s.fullPath = .ok bytes → bytes = content s.fullPath

variable {splitters splitters' : Registry} {content : List Char → ByteArray} {t : FileTree} {s k : Source}
  {sources sources' kept : List Source}

theorem told?_told (h : told? splitters content s = some k) : told? splitters content k = some k := by
  have hcut : ∃ sections, k = { s with sections } := by
    unfold told? at h
    split at h
    · split at h
      · exact ⟨_, (Option.some.inj h).symm⟩
      · simp at h
    · simp at h
  obtain ⟨sections, rfl⟩ := hcut
  exact h

theorem filterMap_told_of_bare (h : sources.map bare = sources'.map bare) :
    sources.filterMap (told? splitters content) = sources'.filterMap (told? splitters content) := by
  have hmap : ∀ l : List Source, l.filterMap (told? splitters content) =
      (l.map bare).filterMap (told? splitters content) := by
    intro l
    rw [List.filterMap_map]
    rfl
  rw [hmap, h, ← hmap]

theorem filterMap_told_filterMap :
    (sources.filterMap (told? splitters content)).filterMap (told? splitters content) =
      sources.filterMap (told? splitters content) := by
  rw [List.filterMap_filterMap]
  apply List.filterMap_congr
  intro s _
  cases h : told? splitters content s with
  | none => rfl
  | some k => exact told?_told h

theorem Legible.of_cutFrom (h : Legible content sources t) (hs : ∀ s ∈ sources', CutFrom sources s) :
    Legible content sources' t := by
  intro k hk bytes hread
  obtain ⟨s, hmem, sections, rfl⟩ := hs k hk
  exact h s hmem bytes hread

theorem told?_of_sectionsIn {cut : Option (List Section)}
    (hread : ∀ bytes, t.read s.fullPath = .ok bytes → bytes = content s.fullPath)
    (h : sectionsIn splitters t s = .ok cut) :
    told? splitters content s = cut.bind fun sections =>
      if sections.isEmpty then none else some { s with sections } := by
  unfold sectionsIn at h
  unfold told?
  split at h
  · simp at h
  · next hnone =>
    cases h
    simp only [hnone, Option.bind_none]
  · next splitter hsome =>
    simp only [hsome]
    split at h
    · simp at h
    · next bytes hbytes =>
      rw [hread bytes hbytes] at h
      cases hrun : splitter.run (decodeLenient (content s.fullPath)) with
      | error failure => simp [hrun, Except.map] at h
      | ok sections =>
        simp only [hrun, Except.map, Except.ok.injEq] at h
        subst h
        cases sections <;> rfl

theorem exists_sectionsIn (h : keptIn splitters t sources = .ok kept) :
    ∀ s ∈ sources, ∃ cut, sectionsIn splitters t s = .ok cut := by
  induction sources generalizing kept with
  | nil => simp
  | cons s sources ih =>
    rw [keptIn] at h
    have hrest : ∃ later, keptIn splitters t sources = .ok later := by
      cases hl : keptIn splitters t sources with
      | ok later => exact ⟨later, rfl⟩
      | error failure =>
        rw [hl] at h
        split at h <;> simp [Except.map] at h
    obtain ⟨later, hlater⟩ := hrest
    intro s' hs'
    rcases List.mem_cons.mp hs' with rfl | hs'
    · cases hcut : sectionsIn splitters t s' with
      | ok cut => exact ⟨cut, rfl⟩
      | error failure => simp [hcut] at h
    · exact ih hlater s' hs'

theorem keptIn_eq_told (hl : Legible content sources t) (h : keptIn splitters t sources = .ok kept) :
    kept = sources.filterMap (told? splitters content) := by
  rw [keptIn_eq_filterMap h]
  apply List.filterMap_congr
  intro s hs
  obtain ⟨cut, hcut⟩ := exists_sectionsIn h s hs
  rw [documented?_of_sectionsIn hcut, told?_of_sectionsIn (hl s hs) hcut]

theorem exists_keptIn_standard (h : ∀ s ∈ sources, ∃ bytes, t.read s.fullPath = .ok bytes) :
    ∃ kept, keptIn .standard t sources = .ok kept := by
  induction sources with
  | nil => exact ⟨[], rfl⟩
  | cons s sources ih =>
    obtain ⟨kept, hkept⟩ := ih fun s' hs' => h s' (List.mem_cons_of_mem _ hs')
    obtain ⟨bytes, hread⟩ := h s List.mem_cons_self
    have hcut : ∃ cut, sectionsIn .standard t s = .ok cut := by
      unfold sectionsIn splitterIn
      split
      · next hsplitter =>
        split at hsplitter
        · simp at hsplitter
        · cases hsplitter
      · exact ⟨none, rfl⟩
      · next splitter hsplitter =>
        split at hsplitter
        · simp at hsplitter
        · have hcall := Registry.isCallable_of_standard (Except.ok.inj hsplitter)
          obtain ⟨cut, hcut⟩ := Option.isSome_iff_exists.mp hcall
          simp only [hread, Splitter.run, hcut]
          exact ⟨_, rfl⟩
    obtain ⟨cut, hcut⟩ := hcut
    rw [keptIn, hcut, hkept]
    cases cut with
    | none => exact ⟨kept, rfl⟩
    | some sections => exact ⟨_, rfl⟩

end Told

section Plain

/-- A run without a journal file whose sources are given ones but for their sections. -/
structure Plain (plain : List Source) (p : Pipeline) : Prop where
  sources : p.sources.map bare = plain
  copy : p.world.copy = none

def plainly (plain : List Source) : Lasting where
  Rel p q := Plain plain p → Plain plain q
  refl _ h := h
  trans h h' hp := h' (h hp)

variable {α : Type} {p : Pipeline} {plain : List Source}

theorem plainly_report (rs : List Record) : Keeps (plainly plain) (report rs) :=
  fun _ hp => ⟨hp.sources, (reportAll_of_copy hp.copy rs).1⟩

theorem plainly_enter (stage : Stage) : Keeps (plainly plain) (enter stage) :=
  fun _ hp => ⟨hp.sources, hp.copy⟩

theorem plainly_setTree (t : FileTree) :
    (plainly plain).Rel p { p with world := { p.world with tree := t } } :=
  fun hp => ⟨hp.sources, hp.copy⟩

theorem plainly_splitterFor (extension : List Char) : Keeps (plainly plain) (splitterFor extension) := by
  refine keeps_ite (keeps_pure _) (keeps_bind keeps_get fun p => ?_)
  refine keeps_bind (fun _ hp => ⟨hp.sources, hp.copy⟩) fun _ => ?_
  refine keeps_bind (plainly_report _) fun _ => ?_
  split
  · exact keeps_throw _
  · exact keeps_pure _

theorem plainly_sectionsOf (s : Source) : Keeps (plainly plain) (sectionsOf s) := by
  refine keeps_bind (plainly_splitterFor _) fun splitter => ?_
  cases splitter with
  | none =>
    refine keeps_bind keeps_get fun p => ?_
    exact keeps_bind (plainly_report _) fun _ => keeps_pure _
  | some splitter =>
    refine keeps_bind keeps_get fun p => ?_
    split
    · exact keeps_throw _
    · refine keeps_bind (keeps_lift _) fun sections => keeps_bind keeps_get fun p => ?_
      exact keeps_ite (keeps_bind (plainly_report _) fun _ => keeps_pure _) (keeps_pure _)

/-- Cutting fills sources one after the other and drops none, until it is at its end. -/
theorem plainly_parseFrom {before sources : List Source} (h : (before ++ sources).map bare = plain) :
    Keeps (plainly plain) (parseFrom before sources) := by
  induction sources generalizing before with
  | nil => exact keeps_pure _
  | cons s sources ih =>
    have hrest : ∀ s', bare s' = bare s → (before ++ [s'] ++ sources).map bare = plain := by
      intro s' hs'
      rw [← h]
      simp [hs']
    refine keeps_bind (plainly_sectionsOf s) fun sections? => ?_
    cases sections? with
    | none => exact ih (hrest s rfl)
    | some sections =>
      have hfilled := hrest { s with sections } rfl
      refine keeps_bind (fun p hp => ⟨?_, hp.copy⟩) fun _ => ?_
      · rw [← hfilled, List.append_assoc]
        rfl
      · exact keeps_bind (ih hfilled) fun kept => keeps_pure _

theorem plainly_makeOutput : Keeps (plainly plain) makeOutput :=
  keeps_get_bind fun _ => setTree_bind (plainly_setTree _) (keeps_check _ _)

theorem plainly_copyAssets : Keeps (plainly plain) copyAssets := by
  refine keeps_get_bind fun p => ?_
  dsimp only
  split
  · refine setTree_bind (plainly_setTree _) (keeps_bind (keeps_check _ _) fun _ => ?_)
    split
    · exact keeps_bind (keeps_throw _) fun _ => plainly_report _
    · exact plainly_report _
  · exact keeps_pure () p

theorem plainly_copyStylesheet : Keeps (plainly plain) copyStylesheet := by
  refine keeps_get_bind fun p => ?_
  split
  · exact keeps_pure () p
  · dsimp only
    split
    · exact keeps_throw _ p
    · exact setTree_bind (plainly_setTree _) (plainly_report _)

theorem plainly_page {i : Nat} {s : Source} (h : plain[i]? = some (bare s)) :
    Keeps (plainly plain) (page i s) := by
  intro p hp
  obtain ⟨hi, hget⟩ := List.getElem?_eq_some_iff.mp h
  refine ⟨?_, hp.copy⟩
  have hset : (p.sources.set i (s.marked p.setup)).map bare = plain.set i (bare s) := by
    rw [List.map_set, hp.sources]
    rfl
  exact hset.trans (hget ▸ List.set_getElem_self hi)

theorem plainly_write {i : Nat} {s : Source} (h : plain[i]? = some (bare s)) :
    Keeps (plainly plain) (write i s) := by
  refine keeps_get_bind fun p => setTree_bind (plainly_setTree _) ?_
  refine keeps_bind (keeps_check _ _) fun _ => keeps_bind (plainly_page h) fun out => ?_
  cases out with
  | error fault => exact keeps_ite (keeps_throw _) (keeps_throw _)
  | ok markup =>
    refine keeps_get_bind fun p => ?_
    split
    · exact keeps_throw _ p
    · exact setTree_bind (plainly_setTree _) (plainly_report _)

theorem plainly_writeFrom {i : Nat} {sources : List Source} (h : plain.drop i = sources.map bare) :
    Keeps (plainly plain) (writeFrom i sources) := by
  induction sources generalizing i with
  | nil => exact keeps_pure ()
  | cons s sources ih =>
    have hfirst : plain[i]? = some (bare s) := by
      rw [← Nat.add_zero i, ← List.getElem?_drop, h]
      rfl
    have hrest : plain.drop (i + 1) = sources.map bare := by
      rw [← List.tail_drop, h]
      rfl
    exact keeps_bind (plainly_write hfirst) fun _ => ih hrest

theorem plainly_copies : Keeps (plainly plain) copies := by
  refine keeps_bind (plainly_enter _) fun _ => keeps_bind keeps_get fun p => ?_
  split
  · exact keeps_bind plainly_copyAssets fun _ => plainly_copyStylesheet
  · exact plainly_copyStylesheet

theorem plainly_pages {sources : List Source} (h : plain = sources.map bare) :
    Keeps (plainly plain) (pages sources) := by
  refine keeps_bind (plainly_enter _) fun _ => keeps_bind (plainly_writeFrom h) fun _ => ?_
  refine keeps_bind (plainly_enter _) fun _ => keeps_bind keeps_get fun p => ?_
  exact keeps_bind (plainly_report _) fun _ => plainly_enter _

/-- The sources of a run after they were cut: those kept, or all of them when cutting failed. -/
def leftOver (p : Pipeline) : List Source :=
  match (parse.run.run p).1 with
  | .ok kept => kept
  | .error _ => p.sources

theorem plain_parse (hcopy : p.world.copy = none) :
    Plain ((leftOver p).map bare) (parse.run.run p).2 := by
  unfold leftOver
  cases h : parse.run.run p with
  | mk out q =>
    cases out with
    | ok kept =>
      have hcalm := calm_parse p
      rw [h] at hcalm
      exact ⟨by rw [sources_parse h], hcalm.copy hcopy⟩
    | error e =>
      have hkeeps : Keeps (plainly (p.sources.map bare)) (parseFrom [] p.sources) := plainly_parseFrom rfl
      have hfrom := hkeeps p ⟨rfl, hcopy⟩
      unfold parse at h
      simp only [run_bind, run_get] at h
      cases hrun : (parseFrom [] p.sources).run.run p with
      | mk out p₁ =>
        rw [hrun] at h hfrom
        cases out with
        | ok kept => cases h
        | error e' =>
          cases h
          exact hfrom

theorem plain_run (hcopy : p.world.copy = none) : Plain ((leftOver p).map bare) (run.run.run p).2 := by
  have hparse := plain_parse hcopy
  unfold leftOver at hparse ⊢
  unfold run
  rw [run_bind]
  cases h : parse.run.run p with
  | mk out q =>
    rw [h] at hparse
    cases out with
    | error e => exact hparse
    | ok kept =>
      have hrest : Keeps (plainly (kept.map bare)) (if kept.isEmpty then do
          report [⟨.debug, .pipeline, "Nothing to document".toList⟩]
          enter .done
          return []
        else do
          makeOutput
          publish kept
          return kept) := by
        refine keeps_ite ?_ ?_
        · exact keeps_bind (plainly_report _) fun _ => keeps_bind (plainly_enter _) fun _ => keeps_pure _
        · rw [publish_eq]
          refine keeps_bind plainly_makeOutput fun _ => keeps_bind ?_ fun _ => keeps_pure _
          exact keeps_bind plainly_copies fun _ => plainly_pages rfl
      exact hrest q hparse

end Plain

section Retried

/-- Whether an act cuts the sources anew or leaves the run alone. -/
def Act.isRetry : Act → Bool
  | run | parse | change _ => true
  | _ => false

/-- A run after it was tried: its sources tell what they told before. -/
structure Retried (content : List Char → ByteArray) (p q : Pipeline) : Prop where
  staged : Staged q.stage p q
  copy : q.world.copy = none
  sources : ∀ s ∈ q.sources, CutFrom p.sources s
  told : q.sources.filterMap (told? p.splitters content) = p.sources.filterMap (told? p.splitters content)

variable {content : List Char → ByteArray} {p q : Pipeline}

theorem Retried.refl (hcopy : p.world.copy = none) : Retried content p p :=
  ⟨.refl p, hcopy, fun s hs => ⟨s, hs, s.sections, rfl⟩, rfl⟩

theorem Retried.keptIn (h : Retried content p q) (hload : p.splitters.load.failure = none) (t : FileTree) :
    keptIn q.splitters t q.sources = Pipeline.keptIn p.splitters t q.sources :=
  (h.staged.load hload).keptIn t _

theorem Retried.kept (h : Retried content p q) (hload : p.splitters.load.failure = none) {t : FileTree}
    (hl : Legible content p.sources t) {kept : List Source}
    (hkept : Pipeline.keptIn q.splitters t q.sources = .ok kept) :
    kept = p.sources.filterMap (told? p.splitters content) := by
  rw [h.keptIn hload] at hkept
  rw [keptIn_eq_told (hl.of_cutFrom h.sources) hkept, h.told]

/-- Once all sources can be read, a run that was tried keeps what their contents tell. -/
theorem Retried.keptIn_of_read (h : Retried content p q) (hs : p.splitters = .standard) {t : FileTree}
    (hl : Legible content p.sources t) (hread : ∀ s ∈ p.sources, ∃ bytes, t.read s.fullPath = .ok bytes) :
    Pipeline.keptIn q.splitters t q.sources = .ok (p.sources.filterMap (told? p.splitters content)) := by
  have hload : p.splitters.load.failure = none := by
    rw [hs]
    rfl
  obtain ⟨kept, hkept⟩ : ∃ kept, Pipeline.keptIn .standard t q.sources = .ok kept := by
    apply exists_keptIn_standard
    intro k hk
    obtain ⟨s, hmem, sections, rfl⟩ := h.sources k hk
    exact hread s hmem
  rw [← hs, ← h.keptIn hload] at hkept
  rw [hkept, h.kept hload hl hkept]

theorem cutFrom_of_bare {sources sources' : List Source} (h : sources'.map bare = sources.map bare) :
    ∀ s ∈ sources', CutFrom sources s := by
  intro k hk
  obtain ⟨s, hs, hbare⟩ := List.mem_map.mp (h ▸ List.mem_map_of_mem hk)
  exact ⟨s, hs, k.sections, congrArg (fun x : Source => { x with sections := k.sections }) hbare.symm⟩

/-- The sources that a try leaves tell what they told before. -/
theorem Retried.cut (h : Retried content p q) (hload : p.splitters.load.failure = none)
    (hl : Legible content p.sources q.world.tree) {r : Pipeline} (hstaged : Staged r.stage q r)
    (hr : Plain ((leftOver q).map bare) r) : Retried content p r := by
  have hparse := parse_run h.copy
  have hleft : (∀ s ∈ leftOver q, CutFrom p.sources s) ∧
      (leftOver q).filterMap (told? p.splitters content) =
        p.sources.filterMap (told? p.splitters content) := by
    unfold leftOver
    cases hout : (parse.run.run q).1 with
    | error e => exact ⟨h.sources, h.told⟩
    | ok kept =>
      rw [hout] at hparse
      constructor
      · intro k hk
        obtain ⟨s, hs, sections, rfl⟩ := mem_of_mem_keptIn hparse.symm k hk
        obtain ⟨s₀, hs₀, sections₀, rfl⟩ := h.sources s hs
        exact ⟨s₀, hs₀, sections, rfl⟩
      · rw [h.kept hload hl hparse.symm, filterMap_told_filterMap]
  refine ⟨h.staged.trans hstaged, hr.copy, fun k hk => ?_, ?_⟩
  · obtain ⟨s, hs, sections, rfl⟩ := cutFrom_of_bare hr.sources k hk
    obtain ⟨s₀, hs₀, sections₀, rfl⟩ := hleft.1 s hs
    exact ⟨s₀, hs₀, sections, rfl⟩
  · rw [filterMap_told_of_bare hr.sources, hleft.2]

theorem Retried.act (h : Retried content p q) (hload : p.splitters.load.failure = none) {a : Act}
    (ha : a.isRetry = true) (hl : Legible content p.sources q.world.tree) :
    Retried content p (a.after q) := by
  have hstaged : Staged (a.after q).stage q (a.after q) :=
    (staged_after q a).stage ▸ staged_after q a
  cases a with
  | run => exact h.cut hload hl hstaged (plain_run h.copy)
  | parse => exact h.cut hload hl hstaged (plain_parse h.copy)
  | change tree => exact ⟨h.staged.trans hstaged, h.copy, h.sources, h.told⟩
  | _ => simp [Act.isRetry] at ha

/-- Tries leave a run whose sources tell what they told before. -/
theorem retried_after (hcopy : p.world.copy = none) (hload : p.splitters.load.failure = none)
    {acts : List Act} (hacts : ∀ a ∈ acts, a.isRetry = true)
    (hl : ∀ past, past <+: acts → Legible content p.sources (after p past).world.tree) :
    Retried content p (after p acts) := by
  induction acts using List.reverseRecOn with
  | nil => exact .refl hcopy
  | append_singleton acts a ih =>
    have hbefore : Retried content p (after p acts) := by
      refine ih (fun b hb => hacts b (by simp [hb])) fun past hpast => ?_
      exact hl past (hpast.trans (List.prefix_append ..))
    have hstep : after p (acts ++ [a]) = a.after (after p acts) := by simp [after]
    rw [hstep]
    exact hbefore.act hload (hacts a (by simp)) (hl acts (List.prefix_append ..))

end Retried

section Stored

/-- Texts are written to paths in order, each into its directory. -/
def Stored : List (List Char × List Char) → FileTree → FileTree → Prop
  | [], t, t' => t' = t
  | (path, text) :: rest, t, t' => ∃ made u, t.makeDirs (Path.directory path) = ⟨made, none⟩ ∧
      made.write path (encode text) = .ok u ∧ Stored rest u t'

/-- What a run does to the files that writes given texts: nothing without a text. -/
def Leaves (c : Configuration) (texts : List (List Char × List Char)) (t t' : FileTree) : Prop :=
  if texts = [] then t' = t
  else ∃ made t₁ t₂, t.makeDirs c.output = ⟨made, none⟩ ∧
    (if c.assets then AssetsCopied c made t₁ else t₁ = made) ∧ StylesheetCopied c t₁ t₂ ∧ Stored texts t₂ t'

/-- The paths and the texts of the pages of sources that stand from an index on, made in a tree. -/
def textsFrom (t : FileTree) (c : Configuration) (setup : Markdown.Setup) (kept : List Source) :
    Nat → List Source → List (List Char × List Char)
  | _, [] => []
  | i, s :: rest =>
    (s.outputPath, (Page.render t c setup (markedTo setup kept (i + 1)) i (s.marked setup) given).toOption.getD [])
      :: textsFrom t c setup kept (i + 1) rest

variable {c : Configuration} {setup : Markdown.Setup} {kept : List Source} {u : FileTree}

theorem map_fst_textsFrom (i : Nat) (rest : List Source) :
    (textsFrom u c setup kept i rest).map (·.1) = rest.map (·.outputPath) := by
  induction rest generalizing i with
  | nil => rfl
  | cons s rest ih => simp [textsFrom, ih]

/-- The page of each source is the same in every tree. -/
def Portable (c : Configuration) (setup : Markdown.Setup) (kept : List Source) : Prop :=
  ∀ t u sources i, ∀ s ∈ kept, ∀ markup, Page.render t c setup sources i (s.marked setup) given = .ok markup →
    Page.render u c setup sources i (s.marked setup) given = .ok markup

theorem portable_of_used {t : FileTree} {name : Name} {L P : Path} {place : Place}
    (hused : Used t c name L place) (hP : P.Rooted) (hout : c.output = P.text)
    (hs : ∀ s ∈ kept, Beneath P.text s.outputPath) : Portable c setup kept := by
  intro t u sources i s hmem markup h
  refine Page.render_of_link hused.asksOnlyAll ?_ h
  rw [hout]
  exact Page.link_eq hP (hs s hmem) t u

theorem PagesWritten.stored (hsame : Portable c setup kept) {i : Nat} {rest : List Source} {a b : View}
    (hrest : kept.drop i = rest) (ha : a.sources = markedTo setup kept i)
    (h : PagesWritten c setup i rest a b) : Stored (textsFrom u c setup kept i rest) a.tree b.tree := by
  induction rest generalizing i a with
  | nil =>
    cases h
    rfl
  | cons s rest ih =>
    obtain ⟨v, ⟨hsources, made, markup, hmade, hrender, hwrite⟩, hlater⟩ := h
    have hget : kept[i]? = some s := by
      rw [← Nat.add_zero i, ← List.getElem?_drop, hrest]
      rfl
    have hdrop : kept.drop (i + 1) = rest := by
      rw [← List.tail_drop, hrest]
      rfl
    rw [ha, set_markedTo hget] at hsources
    rw [hsources] at hrender
    have hu := hsame made u _ _ s (List.mem_of_getElem? hget) markup hrender
    refine ⟨made, v.tree, hmade, ?_, ih hdrop hsources hlater⟩
    rw [hu]
    exact hwrite

theorem Outcome.leaves (hsame : Portable c setup kept) {t : FileTree} {v : View}
    (h : Outcome c setup t kept v) : Leaves c (textsFrom u c setup kept 0 kept) t v.tree := by
  unfold Outcome at h
  unfold Leaves
  cases kept with
  | nil =>
    simp only [↓reduceIte] at h
    simp [textsFrom, h]
  | cons s rest =>
    simp only [reduceCtorEq, ↓reduceIte, textsFrom] at h ⊢
    obtain ⟨made, hmade, t₁, t₂, hassets, hcss, hpages⟩ := h
    exact ⟨made, t₁, t₂, hmade, hassets, hcss, hpages.stored hsame rfl rfl⟩

end Stored

section Run

variable {layouts layouts' : Layouts} {paths paths' options options' : Value} {w w' : World}
  {p f q : Pipeline} {content : List Char → ByteArray} {acts : List Act} {kept : List Source}

/-- A run can be repeated. Whatever earlier tries did to it, a run that succeeds keeps the sources of a
new run with the same options and the same entries, in the same order and with the same sections, and both
write the same texts to the same paths in the same order, provided that the files of its sources had the
same content whenever they could be read. The new run succeeds too in the files of the first, and leaves
the same files, when it can read all sources there. -/
theorem run_repeats (hw : w.tree.WellFormed) (hcopy : w.copy = none)
    (hp : (start layouts .standard paths options).run.run w = (.ok p, p.world))
    (hlayout : ∃ name L place, Used w.tree p.options name L place)
    (hacts : ∀ a ∈ acts, a.isRetry = true)
    (hl : ∀ past, past <+: acts → Legible content p.sources (after p past).world.tree)
    (hrun : run.run.run (after p acts) = (.ok kept, q)) (hcopy' : w'.copy = none)
    (hf : (start layouts' .standard paths' options').run.run w' = (.ok f, f.world))
    (hsources : f.sources = p.sources) (hoptions : f.options = p.options)
    (hl' : Legible content p.sources f.world.tree) :
    (∀ kept' q', run.run.run f = (.ok kept', q') → kept' = kept ∧ ∃ texts : List (List Char × List Char),
      texts.map (·.1) = kept.map (·.outputPath) ∧
      Leaves p.options texts (after p acts).world.tree q.world.tree ∧
      Leaves p.options texts f.world.tree q'.world.tree) ∧
    (f.world.tree = (after p acts).world.tree →
      (∀ s ∈ p.sources, ∃ bytes, f.world.tree.read s.fullPath = .ok bytes) →
      ∃ q', run.run.run f = (.ok kept, q') ∧ q'.world.tree = q.world.tree) := by
  obtain ⟨found, hs⟩ := started_of_run hp
  obtain ⟨found', hs'⟩ := started_of_run hf
  have hload : p.splitters.load.failure = none := by
    rw [hs.splitters]
    rfl
  have hsetup : f.setup = p.setup := by
    have hsame := hs'.setup
    rw [hoptions, hs.setup] at hsame
    exact (Except.ok.inj hsame).symm
  -- the run that was tried before
  have hretried := retried_after (hs.copy hcopy).1 hload hacts hl
  obtain ⟨-, hkept, hout⟩ := (yields_run hretried.copy).sound hrun
  rw [hretried.staged.options, hretried.staged.setup] at hout
  have htold := hretried.kept hload (hl acts List.prefix_rfl) hkept
  -- the new one
  have hcopied := (hs'.copy hcopy').1
  have hnew : ∀ {kept'}, keptIn f.splitters f.world.tree f.sources = .ok kept' → kept' = kept := by
    intro kept' hkept'
    rw [hs'.splitters, ← hs.splitters, hsources] at hkept'
    rw [keptIn_eq_told hl' hkept', htold]
  constructor
  · intro kept' q' hrun'
    obtain ⟨-, hkept', hout'⟩ := (yields_run hcopied).sound hrun'
    obtain rfl := hnew hkept'
    rw [hoptions, hsetup] at hout'
    obtain ⟨P, hP, houtput, -, hbeneath⟩ := hs.beneath hw
    obtain ⟨name, L, place, hused⟩ := hlayout
    have hpages : ∀ s ∈ kept', Beneath P.text s.outputPath := by
      intro k hk
      obtain ⟨s, hmem, sections, rfl⟩ := mem_of_mem_keptIn hkept' k hk
      exact hbeneath s (hsources ▸ hmem)
    have hsame : Portable p.options p.setup kept' := portable_of_used hused hP houtput hpages
    exact ⟨rfl, textsFrom w.tree p.options p.setup kept' 0 kept', map_fst_textsFrom 0 kept', hout.leaves hsame,
      hout'.leaves hsame⟩
  · intro htree hread
    obtain ⟨kept', hkept'⟩ := exists_keptIn_standard hread
    rw [← hsources, ← hs'.splitters] at hkept'
    obtain rfl := hnew hkept'
    rw [← hoptions, ← hsetup, ← htree] at hout
    obtain ⟨q', hrun', hview⟩ := (yields_run hcopied).complete ⟨hkept', hout⟩
    exact ⟨q', hrun', congrArg View.tree hview⟩

end Run

section Sample

variable (page style : ByteArray)

/-- The tree with a directory in the place of the second source. -/
def blockedTree : FileTree :=
  (linkedTree page style []).put ["w".toList, "d".toList, "b.md".toList] .dir

def linkedContent (path : List Char) : ByteArray :=
  ((linkedTree page style []).read path).toOption.getD .empty

theorem legible_linked (sources : List Source) :
    Legible (linkedContent page style) sources (linkedTree page style []) := by
  intro s _ bytes hread
  simp [linkedContent, hread, Except.toOption]

theorem fullPath_linked : ∀ s ∈ mapOutputs linkedFound "/w/docs".toList none,
    s.fullPath = "/w/a.md".toList ∨ s.fullPath = "/w/d/b.md".toList ∨ s.fullPath = "/w/s.css".toList := by
  have hpaths : (mapOutputs linkedFound "/w/docs".toList none).map (·.fullPath) = linkedFound.map (·.1) := by
    rw [mapOutputs, List.map_map]
    rfl
  intro s hs
  have hpath : s.fullPath ∈ linkedFound.map (·.1) := hpaths ▸ List.mem_map_of_mem hs
  simpa [linkedFound] using hpath

theorem read_linked (t : FileTree)
    (ht : t = linkedTree page style [] ∨ t = blockedTree page style) :
    t.read "/w/a.md".toList = .ok ⟨#[104]⟩ ∧ t.read "/w/s.css".toList = .ok .empty := by
  rcases ht with rfl | rfl
  · exact ⟨by cbv, by cbv⟩
  · exact ⟨by cbv, by cbv⟩

theorem read_second : (linkedTree page style []).read "/w/d/b.md".toList = .ok ⟨#[105]⟩ := by
  cbv

theorem read_blocked : (blockedTree page style).read "/w/d/b.md".toList =
    .error (.refused .isDirectory "/w/d/b.md".toList) := by
  cbv

theorem legible_blocked : Legible (linkedContent page style) (mapOutputs linkedFound "/w/docs".toList none)
    (blockedTree page style) := by
  obtain ⟨hfirst, hstyle⟩ := read_linked page style _ (Or.inl rfl)
  obtain ⟨hfirst', hstyle'⟩ := read_linked page style _ (Or.inr rfl)
  intro s hs bytes hread
  rw [linkedContent]
  rcases fullPath_linked s hs with h | h | h
  · rw [h, hfirst'] at hread
    rw [h, hfirst]
    exact (Except.ok.inj hread).symm
  · rw [h, read_blocked] at hread
    simp at hread
  · rw [h, hstyle'] at hread
    rw [h, hstyle]
    exact (Except.ok.inj hread).symm

theorem keptIn_blocked (kept : List Source) : keptIn .standard (blockedTree page style)
    (mapOutputs linkedFound "/w/docs".toList none) ≠ .ok kept := by
  intro h
  obtain ⟨s, hs, hpath⟩ : ∃ s ∈ mapOutputs linkedFound "/w/docs".toList none,
      s.fullPath = "/w/d/b.md".toList := ⟨_, List.mem_of_getElem? (i := 1) rfl, rfl⟩
  obtain ⟨cut, hcut⟩ := exists_sectionsIn h s hs
  have hsplitter : splitterIn .standard (Path.cutExtension "/w/d/b.md".toList).2 = .ok (some .markup) := by
    cbv
  simp only [sectionsIn, hpath, hsplitter, read_blocked, reduceCtorEq] at hcut

theorem told_linked : (mapOutputs linkedFound "/w/docs".toList none).filterMap
    (told? .standard (linkedContent page style)) = linkedSources :=
  (keptIn_eq_told (legible_linked page style _) (keptIn_linked page style)).symm

/-- The second source cannot be read, and then can. -/
def blockedActs : List Act :=
  [.change (blockedTree page style), .run, .change (linkedTree page style [])]

theorem failing_blocked {p : Pipeline} (hcopy : p.world.copy = none) (hsplitters : p.splitters = .standard)
    (hsources : p.sources = mapOutputs linkedFound "/w/docs".toList none) :
    failing (Act.after p (.change (blockedTree page style))) = some .cutting ∧
      (after p [.change (blockedTree page style), .run]).world.tree = blockedTree page style := by
  have hcopy' : (Act.after p (.change (blockedTree page style))).world.copy = none := hcopy
  have hparse : (parse.run.run (Act.after p (.change (blockedTree page style)))).1 =
      keptIn .standard (blockedTree page style) (mapOutputs linkedFound "/w/docs".toList none) := by
    rw [parse_run hcopy', ← hsplitters, ← hsources]
    rfl
  have hnot : ∀ kept, (parse.run.run (Act.after p (.change (blockedTree page style)))).1 ≠ .ok kept := by
    intro kept hkept
    exact keptIn_blocked page style kept (hparse.symm.trans hkept)
  constructor
  · cases hout : (parse.run.run (Act.after p (.change (blockedTree page style)))).1 with
    | ok kept => exact absurd hout (hnot kept)
    | error e => exact (failing_of_parse hout).2
  · exact tree_run_of_not_kept hcopy' fun s kept => hnot (s :: kept)

theorem legible_acts {p : Pipeline} (hcopy : p.world.copy = none) (hsplitters : p.splitters = .standard)
    (hsources : p.sources = mapOutputs linkedFound "/w/docs".toList none)
    (htree : p.world.tree = linkedTree page style []) : ∀ past, past <+: blockedActs page style →
      Legible (linkedContent page style) p.sources (after p past).world.tree := by
  intro past hpast
  have hmem := (List.mem_inits _ _).mpr hpast
  simp only [blockedActs, List.inits, List.map_cons, List.map_nil, List.mem_cons, List.not_mem_nil,
    or_false] at hmem
  rw [hsources]
  rcases hmem with rfl | rfl | rfl | rfl
  · exact htree ▸ legible_linked page style _
  · exact legible_blocked page style
  · rw [(failing_blocked page style hcopy hsplitters hsources).2]
    exact legible_blocked page style
  · exact legible_linked page style _

/-- A run that cannot read its second source, and then can, does what it would have done at first. -/
theorem run_repeats_blocked :
    ∃ page style p q q' texts,
      (start linkedLayouts .standard (.text ".".toList) (.map linkedEntries)).run.run
        (linkedWorld page style) = (.ok p, p.world) ∧
      failing (after p [.change (blockedTree page style)]) = some .cutting ∧
      run.run.run (after p (blockedActs page style)) = (.ok linkedSources, q) ∧
      run.run.run p = (.ok linkedSources, q') ∧ texts.map (·.1) = linkedSources.map (·.outputPath) ∧
      Leaves p.options texts (linkedTree page style []) q.world.tree ∧
      Leaves p.options texts (linkedTree page style []) q'.world.tree := by
  obtain ⟨page, style, nodes, -, -, hused, v, hout⟩ := exists_linked
  have hstarted := started_linked page style hused.template
  obtain ⟨hcopy, htree⟩ := hstarted.copy rfl
  replace htree : (linkedPipeline page style ⟨nodes, "/l/linear".toList⟩).world.tree =
    linkedTree page style [] := htree
  have hl := legible_acts page style hcopy rfl rfl htree
  have hacts : ∀ a ∈ blockedActs page style, a.isRetry = true := by simp [blockedActs, Act.isRetry]
  -- the run after the tries
  have hretried := retried_after hcopy rfl hacts hl
  have hkept := hretried.keptIn_of_read rfl (legible_linked page style _) fun s hs => by
    obtain ⟨hfirst, hstyle⟩ := read_linked page style _ (Or.inl rfl)
    rcases fullPath_linked s hs with h | h | h
    · exact ⟨_, h ▸ hfirst⟩
    · exact ⟨_, h ▸ read_second page style⟩
    · exact ⟨_, h ▸ hstyle⟩
  have hkept' := hkept.trans (congrArg Except.ok (told_linked page style))
  have hout' := hout
  rw [← show _ = linkedSetup from hretried.staged.setup] at hout'
  obtain ⟨q, hrun, -⟩ := (yields_run hretried.copy).complete (a := linkedSources) (v := v)
    ⟨hkept', hretried.staged.options ▸ hout'⟩
  -- the new run
  obtain ⟨q', hrun', -⟩ := (yields_run hcopy).complete (a := linkedSources) (v := v)
    ⟨htree ▸ keptIn_linked page style, htree ▸ hout⟩
  obtain ⟨hsame, -⟩ := run_repeats (wellFormed_linked page style) rfl hstarted.run ⟨_, _, _, hused⟩ hacts hl
    hrun rfl hstarted.run rfl rfl (htree ▸ legible_linked page style _)
  obtain ⟨-, texts, hpaths, hleaves, hleaves'⟩ := hsame linkedSources q' hrun'
  exact ⟨page, style, _, q, q', texts, hstarted.run, (failing_blocked page style hcopy rfl rfl).1, hrun, hrun',
    hpaths, hleaves, htree ▸ hleaves'⟩

end Sample

end Marginalia.Pipeline
