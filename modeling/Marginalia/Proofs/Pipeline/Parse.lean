import Mathlib
import Marginalia.Proofs.Pipeline.Steps
import Marginalia.Proofs.Splitter.Lookup

/-! # Cutting sources

Which sources a run keeps is settled by its splitters and by the files as they are before the run
changes any of them.
-/
namespace Marginalia.Pipeline

open Text

/-- The splitter for an extension, once plugins are loaded. -/
def splitterIn (splitters : Registry) (extension : List Char) : Except Failure (Option Splitter) :=
  if extension.isEmpty then .ok none
  else match splitters.load.failure with
    | some failure => .error failure
    | none => .ok (splitters.load.registry.get? extension)

/-- The sections of a source, cut from the files of a tree; nothing when its file type has no
splitter. -/
def sectionsIn (splitters : Registry) (t : FileTree) (s : Source) :
    Except Failure (Option (List Section)) :=
  match splitterIn splitters (Path.cutExtension s.fullPath).2 with
  | .error failure => .error failure
  | .ok none => .ok none
  | .ok (some splitter) =>
    match t.read s.fullPath with
    | .error fault => .error (.during (.read s.fullPath) fault)
    | .ok content => (splitter.run (decodeLenient content)).map some

/-- The sources that have sections, cut from the files of a tree. -/
def keptIn (splitters : Registry) (t : FileTree) : List Source → Except Failure (List Source)
  | [] => .ok []
  | s :: rest =>
    match sectionsIn splitters t s with
    | .error failure => .error failure
    | .ok none => keptIn splitters t rest
    | .ok (some sections) => (keptIn splitters t rest).map fun kept =>
      if sections.isEmpty then kept else { s with sections } :: kept

theorem mem_of_mem_keptIn {splitters : Registry} {t : FileTree} {sources kept : List Source}
    (h : keptIn splitters t sources = .ok kept) :
    ∀ k ∈ kept, ∃ s ∈ sources, ∃ sections, k = { s with sections } := by
  induction sources generalizing kept with
  | nil =>
    cases h
    simp
  | cons s sources ih =>
    -- the later sources are sources of the run
    have hlater : ∀ {later}, keptIn splitters t sources = .ok later →
        ∀ k ∈ later, ∃ s' ∈ s :: sources, ∃ sections, k = { s' with sections } := by
      intro later hl k hk
      obtain ⟨s', hs', hk⟩ := ih hl k hk
      exact ⟨s', List.mem_cons_of_mem _ hs', hk⟩
    rw [keptIn] at h
    split at h
    · simp at h
    · exact hlater h
    · next sections _ =>
      cases hl : keptIn splitters t sources with
      | error failure => simp [hl, Except.map] at h
      | ok later =>
        simp only [hl, Except.map, Except.ok.injEq] at h
        subst h
        intro k hk
        split at hk
        · exact hlater hl k hk
        · rcases List.mem_cons.mp hk with rfl | hk
          · exact ⟨s, List.mem_cons_self, sections, rfl⟩
          · exact hlater hl k hk

/-- Two registries that load the same splitters. -/
def SameLoad (a b : Registry) : Prop :=
  b.load.registry = a.load.registry ∧ b.load.failure = a.load.failure

theorem sameLoad_load {r : Registry} (h : r.load.failure = none) : SameLoad r r.load.registry := by
  have hw : r.load.registry.waiting = [] := Registry.waiting_loadAll rfl _
  have hload : r.load.registry.load = ⟨r.load.registry, [], none⟩ := by
    rw [Registry.load, hw, Registry.loadAll]
    rw [← hw]
  exact ⟨by rw [hload], by rw [hload, h]⟩

section Run

variable {p q : Pipeline}

theorem splitterFor_run {extension : List Char} {out : Except Failure (Option Splitter)}
    (h : (splitterFor extension).run.run p = (out, q)) :
    out = splitterIn p.splitters extension ∧
      ∀ a, out = .ok a → SameLoad p.splitters q.splitters := by
  unfold splitterFor at h
  unfold splitterIn
  by_cases he : extension.isEmpty = true
  · simp only [he, ↓reduceIte] at h ⊢
    cases h
    exact ⟨rfl, fun _ _ => ⟨rfl, rfl⟩⟩
  · simp only [he, Bool.false_eq_true, ↓reduceIte, run_bind, run_get, run_modify, report] at h ⊢
    cases hf : p.splitters.load.failure with
    | some failure =>
      simp only [hf, run_throw] at h
      cases h
      exact ⟨rfl, by simp⟩
    | none =>
      simp only [hf, run_pure] at h
      cases h
      exact ⟨rfl, fun _ _ => sameLoad_load hf⟩

theorem sectionsOf_run (hp : p.world.copy = none) {s : Source}
    {out : Except Failure (Option (List Section))} (h : (sectionsOf s).run.run p = (out, q)) :
    out = sectionsIn p.splitters p.world.tree s ∧
      ∀ a, out = .ok a → SameLoad p.splitters q.splitters := by
  have hcalm := calm_splitterFor (Path.cutExtension s.fullPath).2 p
  unfold sectionsOf at h
  unfold sectionsIn
  rw [run_bind] at h
  cases hs : (splitterFor (Path.cutExtension s.fullPath).2).run.run p with
  | mk found p₁ =>
    obtain ⟨hfound, hload⟩ := splitterFor_run hs
    rw [hs] at h hcalm
    have htree : p₁.world.tree = p.world.tree := hcalm.tree hp
    rw [← hfound]
    cases found with
    | error failure =>
      cases h
      exact ⟨rfl, by simp⟩
    | ok splitter =>
      have hsame := hload splitter rfl
      cases splitter with
      | none =>
        cases h
        exact ⟨rfl, fun _ _ => hsame⟩
      | some splitter =>
        simp only [run_bind, run_get, htree] at h
        cases hread : p.world.tree.read s.fullPath with
        | error fault =>
          simp only [hread, run_throw] at h
          cases h
          exact ⟨rfl, by simp⟩
        | ok content =>
          simp only [hread, run_bind, run_lift] at h
          cases hrun : splitter.run (decodeLenient content) with
          | error failure =>
            simp only [hrun] at h
            cases h
            exact ⟨by simp [hrun, Except.map], by simp⟩
          | ok sections =>
            simp only [hrun, run_get] at h
            -- a report on sections or on their absence changes neither result nor splitters
            have hq : out = .ok (some sections) ∧ q.splitters = p₁.splitters := by
              split at h <;> cases h <;> exact ⟨rfl, rfl⟩
            obtain ⟨rfl, hq⟩ := hq
            exact ⟨by simp [hrun, Except.map], fun _ _ => hq ▸ hsame⟩

theorem SameLoad.trans {a b c : Registry} (h : SameLoad a b) (h' : SameLoad b c) : SameLoad a c :=
  ⟨h'.1.trans h.1, h'.2.trans h.2⟩

theorem SameLoad.sectionsIn {a b : Registry} (h : SameLoad a b) (t : FileTree) (s : Source) :
    sectionsIn b t s = sectionsIn a t s := by
  simp only [Pipeline.sectionsIn, splitterIn, h.1, h.2]

theorem SameLoad.keptIn {a b : Registry} (h : SameLoad a b) (t : FileTree) (sources : List Source) :
    keptIn b t sources = keptIn a t sources := by
  induction sources with
  | nil => rfl
  | cons s sources ih => simp only [Pipeline.keptIn, h.sectionsIn, ih]

theorem parseFrom_run (hp : p.world.copy = none) {before sources : List Source}
    {out : Except Failure (List Source)} (h : (parseFrom before sources).run.run p = (out, q)) :
    out = keptIn p.splitters p.world.tree sources := by
  induction sources generalizing before p q out with
  | nil =>
    cases h
    rfl
  | cons s sources ih =>
    have hcalm := calm_sectionsOf s p
    unfold parseFrom at h
    rw [run_bind] at h
    cases hs : (sectionsOf s).run.run p with
    | mk cut p₁ =>
      obtain ⟨hcut, hload⟩ := sectionsOf_run hp hs
      rw [hs] at h hcalm
      have htree : p₁.world.tree = p.world.tree := hcalm.tree hp
      have hcopy : p₁.world.copy = none := hcalm.copy hp
      rw [keptIn, ← hcut]
      cases cut with
      | error failure =>
        cases h
        rfl
      | ok sections =>
        have hsame := hload sections rfl
        cases sections with
        -- a source without a splitter is dropped
        | none => rw [ih hcopy h, htree, hsame.keptIn]
        | some sections =>
          simp only [run_bind, run_modify] at h
          -- the sections are put into the run, which the later sources do not look at
          generalize hp₂ : Pipeline.mk p₁.world p₁.options p₁.splitters p₁.stage
            (before ++ { s with sections } :: sources) p₁.setup = p₂ at h
          cases hrest : (parseFrom (before ++ [{ s with sections }]) sources).run.run p₂ with
          | mk rest p₃ =>
            have hkept : rest = keptIn p₂.splitters p₂.world.tree sources :=
              ih (hp₂ ▸ hcopy) hrest
            subst hp₂
            rw [htree, hsame.keptIn] at hkept
            rw [hrest] at h
            rw [← hkept]
            cases rest with
            | error failure =>
              cases h
              rfl
            | ok kept =>
              cases h
              rfl

/-- A run keeps the sources that have sections in the files it starts with. -/
theorem parse_run (hp : p.world.copy = none) :
    (parse.run.run p).1 = keptIn p.splitters p.world.tree p.sources := by
  unfold parse
  simp only [run_bind, run_get]
  cases hs : (parseFrom [] p.sources).run.run p with
  | mk out q =>
    have hkept := parseFrom_run hp hs
    rw [← hkept]
    cases out with
    | error failure => rfl
    | ok kept => rfl

theorem sources_parse {kept : List Source} (h : parse.run.run p = (.ok kept, q)) : q.sources = kept := by
  unfold parse at h
  simp only [run_bind, run_get] at h
  cases hs : (parseFrom [] p.sources).run.run p with
  | mk out p₁ =>
    rw [hs] at h
    cases out with
    | error failure => cases h
    | ok kept' =>
      cases h
      rfl

end Run

end Marginalia.Pipeline
