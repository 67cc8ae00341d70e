import Marginalia.Proofs.Configuration.Silent
import Marginalia.Proofs.Pipeline.Journal
import Marginalia.Proofs.Pipeline.Pages

/-! # Silent runs

Two runs that differ in silence only go side by side: each step does the same to both, whether it fails or
not, and what the silent one reports is what the other reports with less noise. One rule for each way to
put steps together carries this from the steps to the whole run.
-/
namespace Marginalia

open Text

/-- What is left of a record in a silent run: its own progress goes unreported, and its warnings are
reported less loudly. -/
def Record.hushed (r : Record) : Option Record :=
  match r.writer, r.level with
  | .run, .info => none
  | .run, .warning => some { r with level := .debug }
  | _, _ => some r

theorem filterMap_hushed_of_writer {rs : List Record} (h : ∀ r ∈ rs, r.writer ≠ .run) :
    rs.filterMap Record.hushed = rs := by
  induction rs with
  | nil => rfl
  | cons r rs ih =>
    have hr : r.hushed = some r := by
      have hne := h r List.mem_cons_self
      unfold Record.hushed
      split <;> simp_all
    rw [List.filterMap_cons, hr, ih fun x hx => h x (List.mem_cons_of_mem _ hx)]

namespace Pipeline

variable {α β : Type} {p q : Pipeline}

/-- The run made silent, with another journal. -/
def hush (p : Pipeline) (journal : List Record) : Pipeline :=
  { p with options := { p.options with silent := true }, world := { p.world with journal } }

/-- A run beside its silent counterpart. Both have reported since they had a journal in common. -/
structure Hushed (base : List Record) (p q : Pipeline) : Prop where
  loud : p.options.silent = false
  copy : p.world.copy = none
  journal : ∃ rs, p.world.journal = base ++ rs ∧ q = p.hush (base ++ rs.filterMap Record.hushed)

theorem Hushed.eq_hush {base : List Record} (h : Hushed base p q) : ∃ js, q = p.hush js := by
  obtain ⟨rs, -, hq⟩ := h.journal
  exact ⟨_, hq⟩

theorem Hushed.shown {base : List Record} (h : Hushed base p q) (path : List Char) :
    q.shown path = p.shown path := by
  obtain ⟨js, rfl⟩ := h.eq_hush
  rfl

/-- Steps that end alike in a run and in its silent counterpart, and leave them side by side. -/
def Alike (base : List Record) (x y : Work α) : Prop :=
  ∀ p q, Hushed base p q → (y.run.run q).1 = (x.run.run p).1 ∧
    Hushed base (x.run.run p).2 (y.run.run q).2

theorem reportAll_eq {w : World} (hcopy : w.copy = none) (rs : List Record) :
    w.reportAll rs = { w with journal := w.journal ++ rs } := by
  induction rs generalizing w with
  | nil =>
    rw [List.append_nil]
    rfl
  | cons r rs ih =>
    have hreport : w.report r = { w with journal := w.journal ++ [r] } := by
      simp [World.report, hcopy]
    have hcopy' : (w.report r).copy = none := hcopy
    show (w.report r).reportAll rs = _
    rw [ih hcopy', hreport, List.append_assoc]
    rfl

section Rules

variable {base : List Record}

theorem alike_pure (a : α) : Alike base (pure a : Work α) (pure a) :=
  fun _ _ h => ⟨rfl, h⟩

theorem alike_throw (e : Failure) : Alike base (throw e : Work α) (throw e) :=
  fun _ _ h => ⟨rfl, h⟩

theorem alike_lift (x : Except Failure α) : Alike base (liftM x : Work α) (liftM x) := by
  intro p q h
  rw [run_lift, run_lift]
  exact ⟨rfl, h⟩

theorem alike_set (h : Hushed base p q) : Alike base (set p : Work Unit) (set q) :=
  fun _ _ _ => ⟨rfl, h⟩

theorem alike_bind {x y : Work α} {f g : α → Work β} (hx : Alike base x y)
    (hf : ∀ a, Alike base (f a) (g a)) : Alike base (x >>= f) (y >>= g) := by
  intro p q h
  obtain ⟨hout, hnext⟩ := hx p q h
  rw [run_bind, run_bind]
  generalize x.run.run p = step at hout hnext
  generalize y.run.run q = step' at hout hnext
  obtain ⟨out, p'⟩ := step
  obtain ⟨out', q'⟩ := step'
  cases hout
  cases out with
  | error e => exact ⟨rfl, hnext⟩
  | ok a => exact hf a p' q' hnext

theorem alike_get_bind {f g : Pipeline → Work β}
    (h : ∀ p q, Hushed base p q → Alike base (f p) (g q)) : Alike base (get >>= f) (get >>= g) := by
  intro p q hpq
  rw [run_bind, run_bind, run_get, run_get]
  exact h p q hpq p q hpq

theorem alike_ite {c : Prop} [Decidable c] {x x' y y' : Work α} (hx : Alike base x x')
    (hy : Alike base y y') : Alike base (if c then x else y) (if c then x' else y') := by
  split
  · exact hx
  · exact hy

/-- A change of a run that neither looks at its silence and journal nor touches them. -/
theorem alike_modify {f : Pipeline → Pipeline} (hhush : ∀ p js, f (p.hush js) = (f p).hush js)
    (hoptions : ∀ p, (f p).options = p.options) (hcopy : ∀ p, (f p).world.copy = p.world.copy)
    (hjournal : ∀ p, (f p).world.journal = p.world.journal) :
    Alike base (modify f : Work Unit) (modify f) := by
  rintro p q ⟨hloud, hnone, rs, hrs, rfl⟩
  rw [run_modify, run_modify, hhush]
  refine ⟨rfl, ?_, ?_, rs, ?_, rfl⟩
  · rw [hoptions, hloud]
  · rw [hcopy, hnone]
  · rw [hjournal, hrs]

theorem alike_enter (stage : Stage) : Alike base (enter stage) (enter stage) :=
  alike_modify (fun _ _ => rfl) (fun _ => rfl) (fun _ => rfl) fun _ => rfl

theorem alike_setTree (t : FileTree) : Alike base (setTree t) (setTree t) :=
  alike_modify (fun _ _ => rfl) (fun _ => rfl) (fun _ => rfl) fun _ => rfl

theorem alike_check (task : Task) (fault : Option FileFault) :
    Alike base (check task fault) (check task fault) := by
  cases fault with
  | none => exact alike_pure ()
  | some fault => exact alike_throw _

theorem alike_report {rs rs' : List Record} (h : rs' = rs.filterMap Record.hushed) :
    Alike base (report rs) (report rs') := by
  rintro p q ⟨hloud, hcopy, js, hjs, rfl⟩
  have hcopy' : (p.hush (base ++ js.filterMap Record.hushed)).world.copy = none := hcopy
  rw [report, report, run_modify, run_modify, reportAll_eq hcopy, reportAll_eq hcopy', h]
  refine ⟨rfl, hloud, hcopy, js ++ rs, ?_, ?_⟩
  · show p.world.journal ++ rs = _
    rw [hjs, List.append_assoc]
  · rw [List.filterMap_append, ← List.append_assoc]
    rfl

theorem alike_log (h : Hushed base p q) (message : List Char) :
    Alike base (report (p.options.log message)) (report (q.options.log message)) := by
  obtain ⟨hloud, -, rs, -, rfl⟩ := h
  apply alike_report
  simp [Configuration.log, hush, hloud, Record.hushed]

end Rules

section Steps

variable {base : List Record}

theorem alike_splitterFor (extension : List Char) :
    Alike base (splitterFor extension) (splitterFor extension) := by
  refine alike_ite (alike_pure _) (alike_get_bind fun p q h => ?_)
  obtain ⟨js, rfl⟩ := h.eq_hush
  refine alike_bind (alike_modify (fun _ _ => rfl) (fun _ => rfl) (fun _ => rfl) fun _ => rfl) fun _ => ?_
  refine alike_bind (alike_report ?_) fun _ => ?_
  · symm
    apply filterMap_hushed_of_writer
    intro r hr
    simp [Registry.writer_of_mem_loadAll r hr]
  · dsimp only [hush]
    split
    · exact alike_throw _
    · exact alike_pure _

theorem alike_sectionsOf (s : Source) : Alike base (sectionsOf s) (sectionsOf s) := by
  refine alike_bind (alike_splitterFor _) fun splitter => ?_
  cases splitter with
  | none =>
    refine alike_get_bind fun p q h => ?_
    rw [h.shown]
    exact alike_bind (alike_log h _) fun _ => alike_pure _
  | some splitter =>
    refine alike_get_bind fun p q h => ?_
    obtain ⟨js, rfl⟩ := h.eq_hush
    dsimp only [hush]
    split
    · exact alike_throw _
    · refine alike_bind (alike_lift _) fun sections => alike_get_bind fun p q h => ?_
      rw [h.shown]
      exact alike_ite (alike_bind (alike_log h _) fun _ => alike_pure _) (alike_pure _)

theorem alike_parseFrom (before sources : List Source) :
    Alike base (parseFrom before sources) (parseFrom before sources) := by
  induction sources generalizing before with
  | nil => exact alike_pure _
  | cons s sources ih =>
    refine alike_bind (alike_sectionsOf s) fun sections => ?_
    cases sections with
    | none => exact ih _
    | some sections =>
      refine alike_bind (alike_modify (fun _ _ => rfl) (fun _ => rfl) (fun _ => rfl) fun _ => rfl)
        fun _ => ?_
      exact alike_bind (ih _) fun kept => alike_pure _

theorem warn_hush (p : Pipeline) (js : List Record) (hloud : p.options.silent = false)
    (message : List Char) : (p.hush js).options.warn message =
      (p.options.warn message).filterMap Record.hushed := by
  simp [Configuration.warn, hush, hloud, Record.hushed]

theorem warnings_hush (p : Pipeline) (js : List Record) (hloud : p.options.silent = false)
    (kept : List Source) : (p.hush js).warnings kept = (p.warnings kept).filterMap Record.hushed := by
  rw [warnings, warnings, List.filterMap_flatMap]
  congr 1
  funext pair
  obtain ⟨a, b⟩ := pair
  exact warn_hush p js hloud _

theorem alike_parse : Alike base parse parse := by
  refine alike_get_bind fun p q h => ?_
  obtain ⟨js, rfl⟩ := h.eq_hush
  refine alike_bind (alike_parseFrom _ _) fun kept => alike_get_bind fun p q h => ?_
  obtain ⟨js, rfl⟩ := h.eq_hush
  refine alike_bind (alike_report (warnings_hush p js h.loud kept)) fun _ => ?_
  refine alike_bind (alike_modify (fun _ _ => rfl) (fun _ => rfl) (fun _ => rfl) fun _ => rfl) fun _ => ?_
  exact alike_pure _

theorem alike_makeOutput : Alike base makeOutput makeOutput := by
  refine alike_get_bind fun p q h => ?_
  obtain ⟨js, rfl⟩ := h.eq_hush
  exact alike_bind (alike_setTree _) fun _ => alike_check _ _

theorem alike_copyAssets : Alike base copyAssets copyAssets := by
  refine alike_get_bind fun p q h => ?_
  have hlog := fun message => alike_log h message
  obtain ⟨js, rfl⟩ := h.eq_hush
  refine alike_ite ?_ (alike_pure _)
  refine alike_bind (alike_setTree _) fun _ => alike_bind (alike_check _ _) fun _ => ?_
  exact alike_ite (alike_bind (alike_throw _) fun _ => hlog _) (hlog _)

theorem alike_copyStylesheet : Alike base copyStylesheet copyStylesheet := by
  refine alike_get_bind fun p q h => ?_
  have hlog := fun message => alike_log h message
  obtain ⟨js, rfl⟩ := h.eq_hush
  dsimp only [hush]
  split
  · exact alike_pure _
  · split
    · exact alike_throw _
    · exact alike_bind (alike_setTree _) fun _ => hlog _

/-- A page shows nothing of whether its run is silent. -/
theorem alike_page (i : Nat) (s : Source) : Alike base (page i s) (page i s) := by
  refine alike_get_bind fun p q h => ?_
  obtain ⟨hloud, hcopy, rs, hrs, rfl⟩ := h
  exact alike_bind (alike_set ⟨hloud, hcopy, rs, hrs, rfl⟩) fun _ => alike_pure _

theorem alike_write (i : Nat) (s : Source) : Alike base (write i s) (write i s) := by
  refine alike_get_bind fun p q h => ?_
  have hlog := fun message => alike_log h message
  obtain ⟨js, rfl⟩ := h.eq_hush
  refine alike_bind (alike_setTree _) fun _ => alike_bind (alike_check _ _) fun _ => ?_
  refine alike_bind (alike_page i s) fun out => ?_
  cases out with
  | error fault => exact alike_ite (alike_throw _) (alike_throw _)
  | ok markup =>
    refine alike_get_bind fun p' q' h' => ?_
    obtain ⟨js', rfl⟩ := h'.eq_hush
    dsimp only [hush]
    split
    · exact alike_throw _
    · exact alike_bind (alike_setTree _) fun _ => hlog _

theorem alike_writeFrom (i : Nat) (sources : List Source) :
    Alike base (writeFrom i sources) (writeFrom i sources) := by
  induction sources generalizing i with
  | nil => exact alike_pure _
  | cons s sources ih => exact alike_bind (alike_write i s) fun _ => ih (i + 1)

theorem alike_publish (sources : List Source) : Alike base (publish sources) (publish sources) := by
  refine alike_bind (alike_enter _) fun _ => alike_get_bind fun p q h => ?_
  obtain ⟨js, rfl⟩ := h.eq_hush
  have hlast : Alike base (do
      let p ← get
      report (p.options.log ("Documented ".toList ++ natText sources.length ++
        " file(s) into ".toList ++ p.shown p.options.output))
      enter .done) (do
      let p ← get
      report (p.options.log ("Documented ".toList ++ natText sources.length ++
        " file(s) into ".toList ++ p.shown p.options.output))
      enter .done) := by
    refine alike_get_bind fun p q h => ?_
    have hlog := fun message => alike_log h message
    obtain ⟨js, rfl⟩ := h.eq_hush
    exact alike_bind (hlog _) fun _ => alike_enter _
  have hrest := fun _ : Unit => alike_bind (@alike_copyStylesheet base) fun _ =>
    alike_bind (alike_enter .assetsCopied) fun _ =>
    alike_bind (alike_writeFrom 0 sources) fun _ => alike_bind (alike_enter .written) fun _ => hlast
  exact alike_ite (alike_bind alike_copyAssets hrest) (hrest ())

theorem alike_run : Alike base run run := by
  refine alike_bind alike_parse fun kept => alike_ite ?_ ?_
  · refine alike_bind (alike_report rfl) fun _ => ?_
    exact alike_bind (alike_enter _) fun _ => alike_pure _
  · refine alike_bind alike_makeOutput fun _ => ?_
    exact alike_bind (alike_publish kept) fun _ => alike_pure _

end Steps

section Start

variable {layouts : Layouts} {splitters : Registry} {paths : Value} {es : List (Value × Value)} {w : World}

/-- A run and its silent counterpart are prepared side by side, or fail alike. -/
theorem start_silenced (hcopy : w.copy = none) :
    (∃ f w', (start layouts splitters paths (Configuration.silenced false es)).run.run w = (.error f, w') ∧
      (start layouts splitters paths (Configuration.silenced true es)).run.run w = (.error f, w')) ∨
    ∃ p js, (start layouts splitters paths (Configuration.silenced false es)).run.run w = (.ok p, p.world) ∧
      (start layouts splitters paths (Configuration.silenced true es)).run.run w =
        (.ok (p.hush js), (p.hush js).world) ∧
      Hushed w.journal p (p.hush js) := by
  unfold start
  simp only [run_bind, run_get, run_lift, run_modify]
  rw [Configuration.resolve_silenced]
  cases hoptions : Configuration.resolve w.tree w.home layouts (Configuration.silenced false es) with
  | error failure => exact Or.inl ⟨failure, w, rfl, rfl⟩
  | ok c =>
    have hloud := Configuration.silent_of_resolve hoptions
    dsimp only [Functor.map, Except.map]
    cases hpaths : pathsOf paths with
    | error failure => exact Or.inl ⟨failure, w, rfl, rfl⟩
    | ok ps =>
      dsimp only
      cases hfound : Source.walk w.tree ps c.recursive with
      | error failure => exact Or.inl ⟨failure, w, rfl, rfl⟩
      | ok found =>
        dsimp only
        by_cases hnil : found.isEmpty = true
        · rw [if_pos hnil, if_pos hnil]
          exact Or.inl ⟨.noSources, _, rfl, rfl⟩
        · rw [if_neg hnil, if_neg hnil]
          simp only [run_bind, run_lift, run_get, run_pure]
          cases hsetup : c.markdown.setup with
          | error failure => exact Or.inl ⟨failure, _, rfl, rfl⟩
          | ok setup =>
            refine Or.inr ⟨_, w.journal ++ [countRecord found], rfl, rfl, hloud, hcopy,
              [countRecord found], rfl, rfl⟩

end Start

section Records

theorem quiet_of_parse_error {f : Failure} (h : (parse.run.run p).1 = .error f) :
    Warned [] p (run.run.run p).2 := by
  have hquiet := quiet_parseFrom [] p.sources p
  have hparse : parse.run.run p = (.error f, ((parseFrom [] p.sources).run.run p).2) := by
    unfold parse at h ⊢
    simp only [run_bind, run_get] at h ⊢
    cases hs : (parseFrom [] p.sources).run.run p with
    | mk out p₁ =>
      rw [hs] at h
      cases out with
      | error e =>
        cases h
        rfl
      | ok kept => cases h
  rw [run, run_bind, hparse]
  exact hquiet

/-- All that a run warns of are kept sources with one page. -/
theorem warnings_of_run (hcopy : p.world.copy = none) :
    ∃ rs, (run.run.run p).2.world.journal = p.world.journal ++ rs ∧
      ∀ r ∈ rs, r.isWarning = true → ∃ kept, (parse.run.run p).1 = .ok kept ∧ r ∈ p.warnings kept := by
  cases hparse : (parse.run.run p).1 with
  | error f =>
    obtain ⟨rs, hrs, hnone⟩ := quiet_of_parse_error hparse
    refine ⟨rs, hrs, fun r hr hwarning => ?_⟩
    have hmem : r ∈ rs.filter (·.isWarning) := List.mem_filter.mpr ⟨hr, hwarning⟩
    rw [hnone] at hmem
    cases hmem
  | ok kept =>
    obtain ⟨rs, hrs, hall⟩ := warned_run hcopy hparse
    refine ⟨rs, hrs, fun r hr hwarning => ⟨kept, rfl, ?_⟩⟩
    rw [← hall]
    exact List.mem_filter.mpr ⟨hr, hwarning⟩

theorem mem_warnings {r : Record} {kept : List Source} (hloud : p.options.silent = false)
    (h : r ∈ p.warnings kept) : ∃ pair ∈ Source.collisions kept,
      r = ⟨.warning, .run, p.collisionMessage pair.1 pair.2⟩ := by
  obtain ⟨pair, hpair, hr⟩ := List.mem_flatMap.mp h
  refine ⟨pair, hpair, ?_⟩
  simpa [Configuration.warn, hloud] using hr

end Records

/-- The run as it is left, once it was prepared. -/
def leftBy (layouts : Layouts) (splitters : Registry) (paths options : Value) (w : World) :
    Option Pipeline :=
  match (start layouts splitters paths options).run.run w with
  | (.error _, _) => none
  | (.ok p, _) => some (run.run.run p).2

section Left

variable {layouts : Layouts} {splitters : Registry} {paths options : Value} {w w' : World}

theorem document_of_start (h : (start layouts splitters paths options).run.run w = (.ok p, w')) :
    document layouts splitters paths options w = ((run.run.run p).1, (run.run.run p).2.world) := by
  rw [document, h]
  rfl

theorem leftBy_of_start (h : (start layouts splitters paths options).run.run w = (.ok p, w')) :
    leftBy layouts splitters paths options w = some (run.run.run p).2 := by
  rw [leftBy, h]

end Left

/-- Silence changes nothing but records. With it and without it, a run ends in the same way, is left in the
same state and leaves the same files. What it reports in silence is what it reports otherwise without its
progress, and with its warnings, which are all about sources with one page, less loud. -/
theorem document_silenced (layouts : Layouts) (splitters : Registry) (paths : Value)
    (es : List (Value × Value)) (w : World) (hcopy : w.copy = none) :
    let loud := document layouts splitters paths (Configuration.silenced false es) w
    let hushed := document layouts splitters paths (Configuration.silenced true es) w
    hushed.1 = loud.1 ∧
    leftBy layouts splitters paths (Configuration.silenced true es) w =
      (leftBy layouts splitters paths (Configuration.silenced false es) w).map (·.hush hushed.2.journal) ∧
    hushed.2 = { loud.2 with journal := hushed.2.journal } ∧
    ∃ rs, loud.2.journal = w.journal ++ rs ∧
      hushed.2.journal = w.journal ++ rs.filterMap Record.hushed ∧
      ∀ r ∈ rs, r.isWarning = true → ∃ p w' kept, ∃ pair ∈ Source.collisions kept,
        (start layouts splitters paths (Configuration.silenced false es)).run.run w = (.ok p, w') ∧
        (parse.run.run p).1 = .ok kept ∧
        r = ⟨.warning, .run, p.collisionMessage pair.1 pair.2⟩ := by
  have hcount : ∀ {found : Found} {r : Record}, r ∈ [countRecord found] → r.isWarning = false := by
    intro found r hr
    rw [List.mem_singleton.mp hr]
    rfl
  dsimp only
  rcases @start_silenced layouts splitters paths es w hcopy with
    ⟨f, w', hloud, hhushed⟩ | ⟨p, js, hloud, hhushed, hstart⟩
  · unfold document leftBy
    rw [hloud, hhushed]
    refine ⟨rfl, rfl, rfl, ?_⟩
    -- before a run is prepared only the number of files is reported
    rcases @start_run layouts splitters paths (Configuration.silenced false es) w with
      ⟨p, found, hrun, -⟩ | ⟨f', w₁, hrun, hw, -⟩
    · rw [hloud] at hrun
      cases hrun
    · rw [hloud] at hrun
      cases hrun
      rcases hw with rfl | ⟨found, rfl⟩
      · exact ⟨[], by simp, by simp, by simp⟩
      · refine ⟨[countRecord found], rfl, rfl, fun r hr hwarning => ?_⟩
        rw [hcount hr] at hwarning
        cases hwarning
  · obtain ⟨hout, hend⟩ := alike_run p (p.hush js) hstart
    obtain ⟨rs, hrs, hq⟩ := hend.journal
    rw [document_of_start hloud, document_of_start hhushed, leftBy_of_start hloud,
      leftBy_of_start hhushed, hq]
    refine ⟨hout, rfl, rfl, rs, hrs, rfl, fun r hr hwarning => ?_⟩
    obtain ⟨found, hstarted⟩ := started_of_run hloud
    obtain ⟨rs', hrs', hall⟩ := warnings_of_run hstart.copy
    have hsplit : w.journal ++ rs = w.journal ++ ([countRecord found] ++ rs') := by
      rw [← hrs, hrs', hstarted.world, ← List.append_assoc]
      rfl
    rw [List.append_cancel_left hsplit] at hr
    rcases List.mem_append.mp hr with hr | hr
    · rw [hcount hr] at hwarning
      cases hwarning
    · obtain ⟨kept, hkept, hmem⟩ := hall r hr hwarning
      obtain ⟨pair, hpair, hr⟩ := mem_warnings hstart.loud hmem
      exact ⟨p, _, kept, pair, hpair, hloud, hkept, hr⟩

section Sample

def sampleEntries : List (Value × Value) :=
  [(.ofString "layout", .ofString "/l"), (.ofString "recursive", .bool true)]

/-- Two sources with one page end alike with silence and without it. -/
theorem document_silenced_shared :
    (sampleWorld sharedFiles).copy = none ∧
      (document sampleLayouts .standard (.text ".".toList) (Configuration.silenced false sampleEntries)
        (sampleWorld sharedFiles)).1 = .ok sharedSources ∧
      ∃ rs, (document sampleLayouts .standard (.text ".".toList) (Configuration.silenced false sampleEntries)
          (sampleWorld sharedFiles)).2.journal = rs ∧
        (document sampleLayouts .standard (.text ".".toList) (Configuration.silenced true sampleEntries)
          (sampleWorld sharedFiles)).2.journal = rs.filterMap Record.hushed := by
  have hresolve : Configuration.resolve (sampleTree sharedFiles) "/".toList sampleLayouts
      (Configuration.silenced true sampleEntries) = .ok sampleConfiguration := by cbv
  have hstarted : Started sampleLayouts .standard (.text ".".toList)
      (Configuration.silenced true sampleEntries) (sampleWorld sharedFiles) sharedFound
      (samplePipeline (sampleWorld sharedFiles) sharedFound) :=
    ⟨hresolve, ⟨[".".toList], rfl, sampled_shared.walk⟩, sampled_shared.ne_nil, rfl, rfl, rfl, rfl, rfl⟩
  have hkept : keptIn .standard (sampleTree sharedFiles)
      (Source.mapOutputs sharedFound "/w/docs".toList none) = .ok sharedSources := by cbv
  obtain ⟨v, hout⟩ := outcome_shared (samplePipeline (sampleWorld sharedFiles) sharedFound).setup
  obtain ⟨w', hrun, -⟩ := Documented.document rfl ⟨hstarted, hkept, v, hout, rfl⟩
  obtain ⟨hsame, -, -, rs, hloud, hhushed, -⟩ := document_silenced sampleLayouts .standard
    (.text ".".toList) sampleEntries (sampleWorld sharedFiles) rfl
  refine ⟨rfl, ?_, rs, hloud, hhushed⟩
  rw [← hsame, hrun]

end Sample

end Pipeline
end Marginalia
