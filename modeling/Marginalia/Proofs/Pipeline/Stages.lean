import Marginalia.Proofs.Pipeline.Again
import Marginalia.Proofs.Pipeline.Failures

/-! # What the stage of a run tells

A run goes through its parts in order, and the stage in which it stays tells the part that failed. A run
that fails while it cuts its sources is the exception: it stays in the stage in which it was found, so
the stage is then that of an earlier call.
-/
namespace Marginalia.Pipeline

open Text

variable {p q : Pipeline}

section Parts

/-- The parts of a run, in order. -/
inductive Part where
  | cutting
  | making
  | copying
  | writing
deriving DecidableEq

/-- The stage of a run that failed in a part. There is none for the first part, which leaves the stage
alone. -/
def Part.stage? : Part → Option Stage
  | cutting => none
  | making => some .filtered
  | copying => some .outputReady
  | writing => some .assetsCopied

/-- The failures of a part. -/
inductive Part.Fails (p : Pipeline) : Part → Failure → Prop where
  | cutting {e : Failure} (h : CutFault p.splitters p.sources e) : Fails p .cutting e
  | making {e : Failure} (h : Failure.Blames (.create p.options.output) [p.options.output] e) :
      Fails p .making e
  | assets {e : Failure} (hasked : p.options.assets = true)
      (h : Failure.Blames (.copyAssets (Path.joined p.options.output assetsName))
        [Path.joined p.options.output assetsName] e) : Fails p .copying e
  | stylesheet {e : Failure} {css : List Char} (hcss : p.options.css = some css)
      (h : Failure.Blames (.copyStylesheet (Path.joined p.options.output (Path.baseName css)))
        [css, Path.joined p.options.output (Path.baseName css)] e) : Fails p .copying e
  | writing {s : Source} {e : Failure} (hs : CutFrom p.sources s)
      (h : PageFault p.options p.setup s e) : Fails p .writing e

/-- Copies what the pages need. -/
def copies : Work Unit := do
  enter .outputReady
  if (← get).options.assets then copyAssets
  copyStylesheet

/-- Writes the pages and comes to an end. -/
def pages (sources : List Source) : Work Unit := do
  enter .assetsCopied
  writeFrom 0 sources
  enter .written
  let p ← get
  report (p.options.log ("Documented ".toList ++ natText sources.length ++ " file(s) into ".toList ++
    p.shown p.options.output))
  enter .done

/-- The part in which a run fails that has cut its sources. -/
def failingAfter (kept : List Source) (p : Pipeline) : Option Part :=
  match makeOutput.run.run p with
  | (.error _, _) => some .making
  | (.ok _, p) =>
    match copies.run.run p with
    | (.error _, _) => some .copying
    | (.ok _, p) =>
      match (pages kept).run.run p with
      | (.error _, _) => some .writing
      | (.ok _, _) => none

/-- The part in which a run fails. -/
def failing (p : Pipeline) : Option Part :=
  match parse.run.run p with
  | (.error _, _) => some .cutting
  | (.ok [], _) => none
  | (.ok kept, p) => failingAfter kept p

theorem publish_eq (sources : List Source) : publish sources = (do copies; pages sources) := by
  unfold publish copies pages
  simp only [bind_assoc]
  congr 1
  funext _
  congr 1
  funext p
  split <;> simp

theorem copies_ends : Ends p copies (fun _ q => Staged .outputReady p q)
    (fun e q => Staged .outputReady p q ∧ Part.Fails p .copying e) := by
  have hcss : ∀ {q}, Staged .outputReady p q → Ends q copyStylesheet
      (fun _ r => Staged .outputReady p r) (fun e r => Staged .outputReady p r ∧ Part.Fails p .copying e) := by
    intro q hq
    refine copyStylesheet_ends.imp (fun _ r hr => hq.fixed hr) ?_
    rintro e r ⟨hr, css, hcss, hblames⟩
    rw [hq.options] at hcss hblames
    exact ⟨hq.fixed hr, .stylesheet hcss hblames⟩
  refine ends_bind (enter_ends _) fun _ q hq => ends_get_bind ?_
  split
  · next hasked =>
    refine ends_bind (copyAssets_ends.imp (fun _ r hr => hq.fixed hr) ?_) fun _ r hr => hcss hr
    rintro e r ⟨hr, hblames⟩
    rw [hq.options] at hasked hblames
    exact ⟨hq.fixed hr, .assets hasked hblames⟩
  · exact hcss hq

theorem pages_ends (sources : List Source) : Ends p (pages sources) (fun _ q => Staged .done p q)
    (fun e q => Staged .assetsCopied p q ∧ ∃ s ∈ sources, PageFault p.options p.setup s e) := by
  refine ends_bind (enter_ends _) fun _ q hq => ?_
  refine ends_bind ((writeFrom_ends 0 sources).imp (fun _ r hr => hq.fixed hr) ?_) fun _ r hr => ?_
  · rintro e r ⟨hr, hfault⟩
    rw [hq.options, hq.setup] at hfault
    exact ⟨hq.fixed hr, hfault⟩
  · refine ends_bind (enter_ends _) fun _ r₁ hr₁ => ends_get_bind ?_
    refine ends_bind (fixed_report (hr.trans hr₁) _) fun _ r₂ hr₂ => ?_
    exact (enter_ends _).imp (fun _ _ h => hr₂.1.trans h) fun _ _ h => h

theorem Part.Fails.copying_of_options {e : Failure} (hq : q.options = p.options)
    (h : Fails q .copying e) : Fails p .copying e := by
  cases h with
  | assets hasked hblames => exact .assets (hq ▸ hasked) (hq ▸ hblames)
  | stylesheet hcss hblames => exact .stylesheet (hq ▸ hcss) (hq ▸ hblames)

/-- What is done once sources are cut succeeds, or fails in one of the later parts. -/
theorem publish_stage {kept : List Source} (hq : Staged .filtered p q)
    (hkept : ∀ k ∈ kept, CutFrom p.sources k) :
    match (do makeOutput; publish kept : Work Unit).run.run q with
    | (.ok _, r) => failingAfter kept q = none ∧ Staged .done p r
    | (.error e, r) => ∃ part, failingAfter kept q = some part ∧ part.Fails p e ∧
        Staged (part.stage?.getD p.stage) p r := by
  unfold failingAfter
  simp only [publish_eq, run_bind]
  cases hmade : makeOutput.run.run q with
  | mk out q₁ =>
    cases out with
    | error e =>
      obtain ⟨hq₁, hblames⟩ := makeOutput_ends.of_error hmade
      rw [hq.options] at hblames
      exact ⟨.making, rfl, .making hblames, hq.fixed hq₁⟩
    | ok u =>
      have hq₁ := hq.fixed (makeOutput_ends.of_ok hmade)
      dsimp only
      cases hcopied : copies.run.run q₁ with
      | mk out q₂ =>
        cases out with
        | error e =>
          obtain ⟨hq₂, hfails⟩ := copies_ends.of_error hcopied
          exact ⟨.copying, rfl, hfails.copying_of_options hq₁.options, hq₁.trans hq₂⟩
        | ok u =>
          have hq₂ := hq₁.trans (copies_ends.of_ok hcopied)
          dsimp only
          cases hwritten : (pages kept).run.run q₂ with
          | mk out q₃ =>
            cases out with
            | error e =>
              -- the options and the setup are those the run started with
              obtain ⟨hq₃, s, hs, hfault⟩ := (pages_ends _).of_error hwritten
              rw [hq₂.options, hq₂.setup] at hfault
              exact ⟨.writing, rfl, .writing (hkept s hs) hfault, hq₂.trans hq₃⟩
            | ok u => exact ⟨rfl, hq₂.trans ((pages_ends _).of_ok hwritten)⟩

/-- A run that succeeds is done. One that fails does so in one of its parts and stays in the stage of
this part, or in the stage in which it was when it fails in the first one. -/
theorem run_stage (p : Pipeline) :
    match run.run.run p with
    | (.ok _, q) => failing p = none ∧ Staged .done p q
    | (.error e, q) => ∃ part, failing p = some part ∧ part.Fails p e ∧
        Staged (part.stage?.getD p.stage) p q := by
  unfold run failing
  rw [run_bind]
  cases hparse : parse.run.run p with
  | mk out q =>
    cases out with
    | error e =>
      obtain ⟨hq, hfault⟩ := parse_ends.of_error hparse
      exact ⟨.cutting, rfl, .cutting hfault, hq⟩
    | ok kept =>
      obtain ⟨hq, hkept⟩ := parse_ends.of_ok hparse
      cases kept with
      | nil => exact ⟨rfl, hq.trans ⟨rfl, rfl, rfl, fun _ => ⟨rfl, rfl⟩⟩⟩
      | cons s kept =>
        have hrest := publish_stage hq hkept
        simp only [List.isEmpty_cons, Bool.false_eq_true, ↓reduceIte]
        rw [← bind_assoc, run_bind]
        generalize (do makeOutput; publish (s :: kept) : Work Unit).run.run q = ended at hrest
        obtain ⟨out, r⟩ := ended
        cases out with
        | error e => exact hrest
        | ok u => exact hrest

theorem failing_of_parse {e : Failure} (h : (parse.run.run p).1 = .error e) :
    (run.run.run p).1 = .error e ∧ failing p = some .cutting := by
  unfold run failing
  rw [run_bind]
  cases hparse : parse.run.run p with
  | mk out q =>
    rw [hparse] at h
    subst h
    exact ⟨rfl, rfl⟩

end Parts

section History

/-- A call on a run, or a change of the files between calls. -/
inductive Act where
  | run
  | parse
  | copyAssets
  | copyStylesheet
  | format (i : Nat) (s : Source)
  | write (i : Nat) (s : Source)
  | change (tree : FileTree)

/-- The run after an act, which may have failed. -/
def Act.after (p : Pipeline) : Act → Pipeline
  | run => (Pipeline.run.run.run p).2
  | parse => (Pipeline.parse.run.run p).2
  | copyAssets => (Pipeline.copyAssets.run.run p).2
  | copyStylesheet => (Pipeline.copyStylesheet.run.run p).2
  | format i s => ((Pipeline.format i s).run.run p).2
  | write i s => ((Pipeline.write i s).run.run p).2
  | change tree => { p with world := { p.world with tree } }

/-- The stage that an act enters: only cutting and what comes after it enter one. -/
def Act.enters (p : Pipeline) : Act → Option Stage
  | run =>
    match failing p with
    | none => some .done
    | some part => part.stage?
  | parse => if (Pipeline.parse.run.run p).1.isOk then some .filtered else none
  | _ => none

/-- The run after acts. -/
def after (p : Pipeline) (acts : List Act) : Pipeline :=
  acts.foldl Act.after p

/-- The stages that acts enter. -/
def entered : Pipeline → List Act → List Stage
  | _, [] => []
  | p, a :: acts => (a.enters p).toList ++ entered (a.after p) acts

theorem Ends.fixed {α : Type} {x : Work α} {bad : Failure → Prop}
    (h : Ends p x (fun _ q => Fixed p q) (fun e q => Fixed p q ∧ bad e)) : Fixed p (x.run.run p).2 := by
  cases hrun : x.run.run p with
  | mk out q =>
    cases out with
    | ok a => exact h.of_ok hrun
    | error e => exact (h.of_error hrun).1

theorem format_ends (i : Nat) (s : Source) : Ends p (format i s) (fun _ q => Fixed p q)
    (fun _ q => Fixed p q ∧ True) := by
  refine ends_bind ((page_ends i s).imp (fun _ _ h => h) fun _ _ h => h.elim) ?_
  rintro out q ⟨hq, -⟩
  cases out with
  | ok markup => exact ends_pure hq
  | error fault => exact ends_throw ⟨hq, trivial⟩

theorem staged_after (p : Pipeline) (a : Act) : Staged ((a.enters p).getD p.stage) p (a.after p) := by
  cases a with
  | run =>
    have h := run_stage p
    unfold Act.after Act.enters
    generalize Pipeline.run.run.run p = ended at h
    obtain ⟨out, q⟩ := ended
    cases out with
    | ok kept =>
      obtain ⟨hnone, hq⟩ := h
      rw [hnone]
      exact hq
    | error e =>
      obtain ⟨part, hpart, -, hq⟩ := h
      rw [hpart]
      exact hq
  | parse =>
    unfold Act.after Act.enters
    cases hparse : Pipeline.parse.run.run p with
    | mk out q =>
      cases out with
      | ok kept => exact (parse_ends.of_ok hparse).1
      | error e => exact (parse_ends.of_error hparse).1
  | copyAssets => exact copyAssets_ends.fixed
  | copyStylesheet => exact copyStylesheet_ends.fixed
  | format i s => exact (format_ends i s).fixed
  | write i s => exact (write_ends i s).fixed
  | change tree => exact Fixed.of_eq rfl rfl rfl rfl

/-- After acts a run is in the last stage that they entered. -/
theorem stage_after (p : Pipeline) (acts : List Act) :
    (after p acts).stage = (entered p acts).getLast?.getD p.stage := by
  induction acts generalizing p with
  | nil => rfl
  | cons a acts ih =>
    have ha := (staged_after p a).stage
    rw [after, List.foldl_cons, ← after, ih, ha, entered]
    cases a.enters p with
    | none => rfl
    | some stage =>
      cases entered (a.after p) acts with
      | nil => rfl
      | cons stage' stages => simp [List.getLast?_cons]

variable {layouts : Layouts} {splitters : Registry} {paths options : Value} {w w' : World}

/-- What the stage tells of a run, whatever was done with it before. A run that succeeds is done. One that
fails stays in the stage of the part that failed, unless this is the first part: then it stays in the last
stage that an earlier call entered. So a run that failed is done when an earlier one was and the sources
could not be cut. -/
theorem stage_tells_part (h : (start layouts splitters paths options).run.run w = (.ok p, w'))
    (acts : List Act) :
    (after p acts).stage = (entered p acts).getLast?.getD .resolved ∧
    match run.run.run (after p acts) with
    | (.ok _, q) => failing (after p acts) = none ∧ q.stage = .done
    | (.error e, q) => ∃ part, failing (after p acts) = some part ∧ part.Fails (after p acts) e ∧
        q.stage = part.stage?.getD ((entered p acts).getLast?.getD .resolved) ∧
        (q.stage = .done ↔ part = .cutting ∧ (entered p acts).getLast? = some .done) := by
  obtain ⟨found, hstarted⟩ := started_of_run h
  have hstage := stage_after p acts
  rw [hstarted.stage] at hstage
  refine ⟨hstage, ?_⟩
  have hrun := run_stage (after p acts)
  generalize run.run.run (after p acts) = ended at hrun
  obtain ⟨out, q⟩ := ended
  cases out with
  | ok kept => exact ⟨hrun.1, hrun.2.stage⟩
  | error e =>
    obtain ⟨part, hpart, hfails, hq⟩ := hrun
    have hq := hq.stage
    rw [hstage] at hq
    refine ⟨part, hpart, hfails, hq, ?_⟩
    rw [hq]
    cases part with
    | cutting => cases (entered p acts).getLast? <;> simp [Part.stage?]
    | _ => simp [Part.stage?]

end History

section Sample

/-- The tree after the run of a source that is made a directory. -/
def staleTree : FileTree :=
  sampleTree ((["w".toList, "a.md".toList], .dir) :: addedFiles)

theorem read_stale : staleTree.read flatSource.fullPath = .error (.refused .isDirectory "/w/a.md".toList) := by
  cbv

theorem keptIn_stale (sections : List Section) : ∃ e,
    keptIn .standard staleTree [{ flatSource with sections }] = .error e := by
  have hsplitter : splitterIn .standard (Path.cutExtension flatSource.fullPath).2 = .ok (some .markup) := by
    cbv
  simp only [keptIn, sectionsIn, hsplitter, read_stale]
  exact ⟨_, rfl⟩

def flatPipeline : Pipeline :=
  samplePipeline (sampleWorld flatFiles) [("/w/a.md".toList, "a.md".toList)]

theorem started_flat : Started sampleLayouts .standard (.text ".".toList) sampleOptions
    (sampleWorld flatFiles) [("/w/a.md".toList, "a.md".toList)] flatPipeline :=
  sampled_flat.started rfl rfl

theorem run_flat : ∃ q, run.run.run flatPipeline = (.ok [flatSource], q) ∧ q.world.copy = none ∧
    q.sources = [flatSource.marked q.setup] := by
  have hcopy : flatPipeline.world.copy = none := rfl
  obtain ⟨q, hrun, hview⟩ := (yields_run hcopy).complete (v := ⟨_, addedTree flatFiles⟩)
    (outcome_flat _)
  obtain ⟨hfollows, -⟩ := (yields_run hcopy).sound hrun
  refine ⟨q, hrun, hfollows.copy, ?_⟩
  rw [hfollows.setup]
  exact congrArg View.sources hview

/-- A run that cannot read its source is done, because the run before it was. -/
theorem stage_tells_part_stale :
    ∃ p q e, (start sampleLayouts .standard (.text ".".toList) sampleOptions).run.run
        (sampleWorld flatFiles) = (.ok p, p.world) ∧
      failing p = none ∧ run.run.run (after p [.run, .change staleTree]) = (.error e, q) ∧
      failing (after p [.run, .change staleTree]) = some .cutting ∧ q.stage = .done := by
  have htold := stage_tells_part started_flat.run [.run, .change staleTree]
  -- the first run
  obtain ⟨p, hrun, hcopy, hsources⟩ := run_flat
  obtain ⟨hnone, hdone⟩ : failing flatPipeline = none ∧ Staged .done flatPipeline p := by
    have hfirst := run_stage flatPipeline
    rwa [hrun] at hfirst
  -- the second one, in the tree that was changed
  obtain ⟨e, hcut⟩ := keptIn_stale (flatSource.marked p.setup).sections
  have hfailed : (parse.run.run (Act.after p (.change staleTree))).1 = .error e := by
    have hcopy' : (Act.after p (.change staleTree)).world.copy = none := hcopy
    rw [parse_run hcopy', Act.after, hsources]
    exact ((hdone.load rfl).keptIn _ _).trans hcut
  obtain ⟨hrun', hcutting⟩ := failing_of_parse hfailed
  have hafter : after flatPipeline [.run, .change staleTree] = Act.after p (.change staleTree) := by
    simp only [after, List.foldl_cons, List.foldl_nil, Act.after, hrun]
  have hentered : (entered flatPipeline [.run, .change staleTree]).getLast? = some .done := by
    simp [entered, Act.enters, hnone]
  rw [hentered, hafter] at htold
  refine ⟨_, _, e, started_flat.run, hnone, Prod.ext (hafter ▸ hrun') rfl, hafter ▸ hcutting, ?_⟩
  rw [hafter]
  generalize run.run.run (Act.after p (.change staleTree)) = ended at hrun' htold
  obtain ⟨out, q⟩ := ended
  subst hrun'
  obtain ⟨-, part, hpart, -, -, hstale⟩ := htold
  exact hstale.mpr ⟨Option.some.inj (hpart.symm.trans hcutting), rfl⟩

end Sample

end Marginalia.Pipeline
