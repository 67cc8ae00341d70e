import Marginalia.Proofs.Pipeline.Steps

/-! # What a run reports

The journal only grows. The warnings of a run that succeeds are those about sources with one page: every
other record tells of progress or comes from another part of the program.
-/
namespace Marginalia

/-- A record in which a run warns, loudly or less so. -/
def Record.isWarning (r : Record) : Bool :=
  decide (r.writer = .run) && !decide (r.level = .info)

namespace Configuration

variable (c : Configuration) (message : List Char)

theorem isWarning_of_mem_log {r : Record} (h : r ∈ c.log message) : r.isWarning = false := by
  unfold log at h
  split at h
  · simp at h
  · rw [List.mem_singleton.mp h]
    rfl

theorem isWarning_of_mem_warn {r : Record} (h : r ∈ c.warn message) : r.isWarning = true := by
  rw [List.mem_singleton.mp h]
  cases hs : c.silent <;> simp [Record.isWarning]

end Configuration

theorem Registry.writer_of_mem_loadAll {r : Registry} {ps : List Plugin} :
    ∀ x ∈ (r.loadAll ps).records, x.writer = .splitters := by
  induction ps generalizing r with
  | nil => simp [loadAll]
  | cons p ps ih =>
    have hreport : ∀ {l : Loaded} {level words tag rest}, (∀ x ∈ l.records, x.writer = .splitters) →
        ∀ x ∈ (l.report (pluginRecord level words tag rest)).records, x.writer = .splitters := by
      intro l level words tag rest hl x hx
      rcases List.mem_cons.mp hx with rfl | hx
      · rfl
      · exact hl x hx
    rw [loadAll]
    split
    · exact hreport ih
    · split
      · exact hreport ih
      · split
        · exact ih
        · simp

theorem Registry.isWarning_of_mem_loadAll {r : Registry} {ps : List Plugin} :
    ∀ x ∈ (r.loadAll ps).records, x.isWarning = false := by
  intro x hx
  simp [Record.isWarning, writer_of_mem_loadAll x hx]

namespace Pipeline

open Text

variable {α : Type} {p q : Pipeline}

/-- The journal grew by records with given warnings among them. -/
def Warned (warnings : List Record) (p q : Pipeline) : Prop :=
  ∃ rs, q.world.journal = p.world.journal ++ rs ∧ rs.filter (·.isWarning) = warnings

theorem Warned.trans {s : Pipeline} {a b : List Record} (h : Warned a p q) (h' : Warned b q s) :
    Warned (a ++ b) p s := by
  obtain ⟨rs, hrs, rfl⟩ := h
  obtain ⟨rs', hrs', rfl⟩ := h'
  exact ⟨rs ++ rs', by rw [hrs', hrs, List.append_assoc], by rw [List.filter_append]⟩

/-- Steps that warn of nothing. -/
def quiet : Lasting where
  Rel := Warned []
  refl _ := ⟨[], by simp, rfl⟩
  trans h h' := h.trans h'

theorem journal_reportAll (w : World) (rs : List Record) :
    (w.reportAll rs).journal = w.journal ++ rs := by
  induction rs generalizing w with
  | nil => simp [World.reportAll]
  | cons r rs ih =>
    refine (ih (w.report r)).trans ?_
    simp [World.report]

theorem warned_report (rs : List Record) (p : Pipeline) :
    Warned (rs.filter (·.isWarning)) p ((report rs).run.run p).2 :=
  ⟨rs, journal_reportAll _ _, rfl⟩

theorem quiet_report {rs : List Record} (h : ∀ r ∈ rs, r.isWarning = false) : Keeps quiet (report rs) := by
  intro p
  have hw := warned_report rs p
  rwa [List.filter_eq_nil_iff.mpr (by simpa using h)] at hw

theorem quiet_log (c : Configuration) (message : List Char) : Keeps quiet (report (c.log message)) :=
  quiet_report fun _ => c.isWarning_of_mem_log message

theorem quiet_modify {f : Pipeline → Pipeline} (h : ∀ p, (f p).world.journal = p.world.journal) :
    Keeps quiet (modify f : Work Unit) :=
  fun p => ⟨[], by simp [run_modify, h], rfl⟩

theorem quiet_enter (stage : Stage) : Keeps quiet (enter stage) :=
  quiet_modify fun _ => rfl

theorem quiet_setTree (t : FileTree) : Keeps quiet (setTree t) :=
  quiet_modify fun _ => rfl

theorem quiet_splitterFor (extension : List Char) : Keeps quiet (splitterFor extension) := by
  refine keeps_ite (keeps_pure _) (keeps_bind keeps_get fun p => ?_)
  refine keeps_bind (quiet_modify fun _ => rfl) fun _ => ?_
  refine keeps_bind (quiet_report Registry.isWarning_of_mem_loadAll) fun _ => ?_
  split
  · exact keeps_throw _
  · exact keeps_pure _

theorem quiet_sectionsOf (s : Source) : Keeps quiet (sectionsOf s) := by
  refine keeps_bind (quiet_splitterFor _) fun splitter => ?_
  cases splitter with
  | none => exact keeps_bind keeps_get fun p => keeps_bind (quiet_log _ _) fun _ => keeps_pure _
  | some splitter =>
    refine keeps_bind keeps_get fun p => ?_
    split
    · exact keeps_throw _
    · refine keeps_bind (keeps_lift _) fun sections => keeps_bind keeps_get fun p => ?_
      exact keeps_ite (keeps_bind (quiet_log _ _) fun _ => keeps_pure _) (keeps_pure _)

theorem quiet_parseFrom (before sources : List Source) : Keeps quiet (parseFrom before sources) := by
  induction sources generalizing before with
  | nil => exact keeps_pure _
  | cons s sources ih =>
    refine keeps_bind (quiet_sectionsOf s) fun sections => ?_
    cases sections with
    | none => exact ih _
    | some sections =>
      refine keeps_bind (quiet_modify fun _ => rfl) fun _ => ?_
      exact keeps_bind (ih _) fun kept => keeps_pure _

theorem quiet_makeOutput : Keeps quiet makeOutput :=
  keeps_bind keeps_get fun _ => keeps_bind (quiet_setTree _) fun _ => keeps_check _ _

theorem quiet_copyAssets : Keeps quiet copyAssets := by
  refine keeps_bind keeps_get fun p => ?_
  dsimp only
  split
  · refine keeps_bind (quiet_setTree _) fun _ => keeps_bind (keeps_check _ _) fun _ => ?_
    exact keeps_ite (keeps_bind (keeps_throw _) fun _ => quiet_log _ _) (quiet_log _ _)
  · exact keeps_pure _

theorem quiet_copyStylesheet : Keeps quiet copyStylesheet := by
  refine keeps_bind keeps_get fun p => ?_
  split
  · exact keeps_pure _
  · dsimp only
    split
    · exact keeps_throw _
    · exact keeps_bind (quiet_setTree _) fun _ => quiet_log _ _

theorem quiet_page (i : Nat) (s : Source) : Keeps quiet (page i s) :=
  fun _ => ⟨[], (List.append_nil _).symm, rfl⟩

theorem quiet_write (i : Nat) (s : Source) : Keeps quiet (write i s) := by
  refine keeps_bind keeps_get fun p => ?_
  refine keeps_bind (quiet_setTree _) fun _ => keeps_bind (keeps_check _ _) fun _ => ?_
  refine keeps_bind (quiet_page i s) fun out => ?_
  cases out with
  | error fault => exact keeps_ite (keeps_throw _) (keeps_throw _)
  | ok markup =>
    refine keeps_bind keeps_get fun p => ?_
    split
    · exact keeps_throw _
    · exact keeps_bind (quiet_setTree _) fun _ => quiet_log _ _

theorem quiet_writeFrom (i : Nat) (sources : List Source) : Keeps quiet (writeFrom i sources) := by
  induction sources generalizing i with
  | nil => exact keeps_pure _
  | cons s sources ih => exact keeps_bind (quiet_write i s) fun _ => ih (i + 1)

theorem quiet_publish (sources : List Source) : Keeps quiet (publish sources) := by
  have hrest : Keeps quiet (do
      copyStylesheet
      enter .assetsCopied
      writeFrom 0 sources
      enter .written
      let p ← get
      report (p.options.log ("Documented ".toList ++ natText sources.length ++
        " file(s) into ".toList ++ p.shown p.options.output))
      enter .done) := by
    refine keeps_bind quiet_copyStylesheet fun _ => keeps_bind (quiet_enter _) fun _ => ?_
    refine keeps_bind (quiet_writeFrom 0 sources) fun _ => keeps_bind (quiet_enter _) fun _ => ?_
    exact keeps_bind keeps_get fun p => keeps_bind (quiet_log _ _) fun _ => quiet_enter _
  refine keeps_bind (quiet_enter _) fun _ => keeps_bind keeps_get fun p => ?_
  split
  · exact keeps_bind quiet_copyAssets fun _ => hrest
  · exact hrest

/-- What a run warns of that keeps given sources. -/
def warnings (p : Pipeline) (kept : List Source) : List Record :=
  (Source.collisions kept).flatMap fun (a, b) => p.options.warn (p.collisionMessage a b)

theorem filter_warnings (p : Pipeline) (kept : List Source) :
    (p.warnings kept).filter (·.isWarning) = p.warnings kept := by
  rw [List.filter_eq_self]
  intro r hr
  obtain ⟨pair, -, hr⟩ := List.mem_flatMap.mp hr
  exact p.options.isWarning_of_mem_warn _ hr

theorem outputPath_eq_of_mem_collisionsFrom {claimed rest : List Source} {pair : Source × Source}
    (h : pair ∈ Source.collisionsFrom claimed rest) : pair.1.outputPath = pair.2.outputPath := by
  induction rest generalizing claimed with
  | nil => simp [Source.collisionsFrom] at h
  | cons s rest ih =>
    rw [Source.collisionsFrom] at h
    split at h
    · next earlier hfind =>
      rcases List.mem_cons.mp h with rfl | h
      · simpa using List.find?_some hfind
      · exact ih h
    · exact ih h

/-- A warning names two sources and the page that both have, each as a reader in the working directory
would write it. -/
theorem names_of_mem_warnings {p : Pipeline} {kept : List Source} {r : Record} (h : r ∈ p.warnings kept) :
    ∃ a b, (a, b) ∈ Source.collisions kept ∧ a.outputPath = b.outputPath ∧
      p.shown a.fullPath <+: r.message ∧ p.shown b.fullPath <:+: r.message ∧
      p.shown a.outputPath <:+: r.message := by
  obtain ⟨⟨a, b⟩, hmem, hr⟩ := List.mem_flatMap.mp h
  have hpage : a.outputPath = b.outputPath := outputPath_eq_of_mem_collisionsFrom hmem
  rw [List.mem_singleton.mp hr]
  refine ⟨a, b, hmem, hpage, ?_, ?_, ?_⟩
  · simp only [collisionMessage, List.append_assoc]
    exact List.prefix_append ..
  · refine ⟨p.shown a.fullPath ++ " and ".toList, " both map to ".toList ++ p.shown b.outputPath ++
      "; the later file overwrites the earlier one".toList, ?_⟩
    simp only [collisionMessage, List.append_assoc]
  · rw [hpage]
    exact ⟨p.shown a.fullPath ++ " and ".toList ++ p.shown b.fullPath ++ " both map to ".toList, _, rfl⟩

/-- Warnings are spelled for a reader in the working directory. -/
theorem warnings_of_calm (hcopy : p.world.copy = none) (h : Calm p q) (kept : List Source) :
    q.warnings kept = p.warnings kept := by
  simp only [warnings, collisionMessage, shown, h.options, h.tree hcopy]

theorem warned_parse (hcopy : p.world.copy = none) {kept : List Source}
    (h : parse.run.run p = (.ok kept, q)) : Warned (p.warnings kept) p q := by
  have hquiet := quiet_parseFrom [] p.sources p
  have hcalm := calm_parseFrom [] p.sources p
  unfold parse at h
  simp only [run_bind, run_get] at h
  cases hs : (parseFrom [] p.sources).run.run p with
  | mk out p₁ =>
    rw [hs] at h hquiet hcalm
    cases out with
    | error failure => cases h
    | ok kept' =>
      cases h
      have hwarned := warned_report (p₁.warnings kept) p₁
      rw [filter_warnings] at hwarned
      rw [← warnings_of_calm hcopy hcalm]
      exact hquiet.trans hwarned

/-- A run warns of sources with one page, and of nothing else. -/
theorem warned_run (hcopy : p.world.copy = none) {kept : List Source}
    (h : (parse.run.run p).1 = .ok kept) : Warned (p.warnings kept) p (run.run.run p).2 := by
  unfold run
  rw [run_bind]
  cases hparse : parse.run.run p with
  | mk out q =>
    rw [hparse] at h
    cases h
    have hrest : Keeps quiet (do
        if kept.isEmpty then
          report [⟨.debug, .pipeline, "Nothing to document".toList⟩]
          enter .done
          return []
        makeOutput
        publish kept
        return kept : Work (List Source)) := by
      refine keeps_ite ?_ ?_
      · have hdebug : ∀ r ∈ [(⟨.debug, .pipeline, "Nothing to document".toList⟩ : Record)],
            r.isWarning = false := by decide
        exact keeps_bind (quiet_report hdebug) fun _ => keeps_bind (quiet_enter _) fun _ => keeps_pure _
      · exact keeps_bind quiet_makeOutput fun _ => keeps_bind (quiet_publish kept) fun _ => keeps_pure _
    have hwarned := (warned_parse hcopy hparse).trans (hrest q)
    rwa [List.append_nil] at hwarned

end Pipeline
end Marginalia
