import Marginalia.Proofs.Configuration.Resolve
import Marginalia.Proofs.Pipeline.Steps
import Marginalia.Proofs.Source.Pages

/-! # Preparing a run

A run is prepared exactly when its options are resolved, its arguments lead to files and its Markdown
setup is known. Every page of a run that is prepared lies below its output directory.
-/
namespace Marginalia.Pipeline

open Text

variable {layouts : Layouts} {splitters : Registry} {paths options : Value} {w w' : World} {p : Pipeline}

/-- What a run that was prepared holds. -/
structure Started (layouts : Layouts) (splitters : Registry) (paths options : Value) (w : World)
    (found : Found) (p : Pipeline) : Prop where
  options : Configuration.resolve w.tree w.home layouts options = .ok p.options
  walked : ∃ ps, pathsOf paths = .ok ps ∧ Source.walk w.tree ps p.options.recursive = .ok found
  ne_nil : found ≠ []
  setup : p.options.markdown.setup = .ok p.setup
  sources : p.sources = Source.mapOutputs found p.options.output p.options.index
  splitters : p.splitters = splitters
  stage : p.stage = .resolved
  world : p.world = w.report (countRecord found)

theorem Started.run {found : Found} (h : Started layouts splitters paths options w found p) :
    (start layouts splitters paths options).run.run w = (.ok p, p.world) := by
  obtain ⟨ps, hpaths, hwalk⟩ := h.walked
  have hne : ¬ found.isEmpty = true := by simpa using h.ne_nil
  unfold start
  simp only [run_bind, run_get, run_lift, run_modify, run_pure, h.options, hpaths, hwalk, hne, ↓reduceIte,
    h.setup, Bool.false_eq_true]
  rw [← h.sources, ← h.stage, ← h.world, ← h.splitters]

/-- Why a run is not prepared. -/
inductive StartFault (layouts : Layouts) (paths options : Value) (w : World) : Failure → Prop where
  | options {f : Failure} (h : Configuration.resolve w.tree w.home layouts options = .error f) :
      StartFault layouts paths options w f
  | paths {f : Failure} (h : pathsOf paths = .error f) : StartFault layouts paths options w f
  | walk {c : Configuration} {ps : List (List Char)} {f : Failure}
      (hc : Configuration.resolve w.tree w.home layouts options = .ok c) (hps : pathsOf paths = .ok ps)
      (h : Source.walk w.tree ps c.recursive = .error f) : StartFault layouts paths options w f
  | noSources : StartFault layouts paths options w .noSources
  | setup {c : Configuration} {f : Failure}
      (hc : Configuration.resolve w.tree w.home layouts options = .ok c) (h : c.markdown.setup = .error f) :
      StartFault layouts paths options w f

theorem start_run :
    (∃ p found, (start layouts splitters paths options).run.run w = (.ok p, p.world) ∧
      Started layouts splitters paths options w found p) ∨
    ∃ failure w', (start layouts splitters paths options).run.run w = (.error failure, w') ∧
      (w' = w ∨ ∃ found, w' = w.report (countRecord found)) ∧
      StartFault layouts paths options w failure := by
  unfold start
  simp only [run_bind, run_get, run_lift, run_modify]
  cases hoptions : Configuration.resolve w.tree w.home layouts options with
  | error failure => exact Or.inr ⟨failure, w, rfl, Or.inl rfl, .options hoptions⟩
  | ok c =>
    dsimp only
    cases hpaths : pathsOf paths with
    | error failure => exact Or.inr ⟨failure, w, rfl, Or.inl rfl, .paths hpaths⟩
    | ok ps =>
      dsimp only
      cases hfound : Source.walk w.tree ps c.recursive with
      | error failure => exact Or.inr ⟨failure, w, rfl, Or.inl rfl, .walk hoptions hpaths hfound⟩
      | ok found =>
        dsimp only
        by_cases hnil : found = []
        · subst hnil
          exact Or.inr ⟨.noSources, _, rfl, Or.inr ⟨[], rfl⟩, .noSources⟩
        · rw [if_neg (by simpa using hnil)]
          simp only [run_bind, run_lift, run_get, run_pure]
          cases hsetup : c.markdown.setup with
          | error failure => exact Or.inr ⟨failure, _, rfl, Or.inr ⟨found, rfl⟩, .setup hoptions hsetup⟩
          | ok setup =>
            exact Or.inl ⟨_, found, rfl, hoptions, ⟨ps, hpaths, hfound⟩, hnil, hsetup, rfl, rfl, rfl, rfl⟩

theorem started_of_run (h : (start layouts splitters paths options).run.run w = (.ok p, w')) :
    ∃ found, Started layouts splitters paths options w found p := by
  rcases @start_run layouts splitters paths options w with
    ⟨p', found, hrun, hp⟩ | ⟨failure, w₁, hrun, -⟩
  · rw [hrun] at h
    cases h
    exact ⟨found, hp⟩
  · rw [hrun] at h
    cases h

theorem Started.copy {found : Found} (h : Started layouts splitters paths options w found p)
    (hcopy : w.copy = none) : p.world.copy = none ∧ p.world.tree = w.tree := by
  rw [h.world]
  exact reportAll_of_copy hcopy [countRecord found]

theorem Started.beneath {found : Found} (h : Started layouts splitters paths options w found p)
    (ht : w.tree.WellFormed) :
    ∃ P : Path, P.Rooted ∧ p.options.output = P.text ∧
      (∀ css, p.options.css = some css → IsName (Path.baseName css)) ∧
      ∀ s ∈ p.sources, Source.Beneath P.text s.outputPath := by
  obtain ⟨es, -, hres⟩ := Configuration.resolve_eq_ok_iff.mp h.options
  obtain ⟨P, hP, hout⟩ := Configuration.rooted_of_absolutePath ht hres.output
  obtain ⟨ps, -, hwalk⟩ := h.walked
  refine ⟨P, hP, hout, fun css hcss => ?_, ?_⟩
  · exact Configuration.isName_of_stylesheet ht (hcss ▸ hres.css)
  · rw [h.sources, hout]
    exact Source.beneath_of_mem_mapOutputs hP (Source.isShown_of_walk ht hwalk) _

end Marginalia.Pipeline
