import Marginalia.Proofs.FileTree.Refusal
import Marginalia.Proofs.Pipeline.Parse

/-! # How a run fails

Every step of a run fails in its own way: a task takes the blame for what the system refuses, unless one
of its paths is no text for the system, and only the template of a page and a splitter fail otherwise.
-/
namespace Marginalia

open Text

/-- A failure of a task. It says why the task failed, unless one of its paths is no text for the system. -/
inductive Failure.Blames (task : Task) (paths : List (List Char)) : Failure → Prop where
  | failed (why : List Char) : Blames task paths (.failed task why)
  | nul {path : List Char} (hmem : path ∈ paths) (hnul : HoldsNul path) :
      Blames task paths (.file .nulInPath)

theorem Failure.blames_during {task : Task} {paths : List (List Char)} {fault : FileFault}
    (h : fault = .nulInPath → ∃ path ∈ paths, HoldsNul path) : Blames task paths (.during task fault) := by
  cases fault with
  | nulInPath =>
    obtain ⟨path, hmem, hnul⟩ := h rfl
    exact .nul hmem hnul
  | _ => exact .failed _

namespace Pipeline

variable {α β : Type} {p q : Pipeline}

/-- How a step ends: what holds of its result and the run it leaves, and of its failure. -/
structure Ends (p : Pipeline) (x : Work α) (good : α → Pipeline → Prop)
    (bad : Failure → Pipeline → Prop) : Prop where
  of_ok : ∀ {a q}, x.run.run p = (.ok a, q) → good a q
  of_error : ∀ {e q}, x.run.run p = (.error e, q) → bad e q

section Ends

variable {g : α → Pipeline → Prop} {bad : Failure → Pipeline → Prop}

theorem Ends.imp {x : Work α} {g' : α → Pipeline → Prop} {bad' : Failure → Pipeline → Prop}
    (h : Ends p x g bad) (hg : ∀ a q, g a q → g' a q) (hbad : ∀ e q, bad e q → bad' e q) :
    Ends p x g' bad' :=
  ⟨fun hrun => hg _ _ (h.of_ok hrun), fun hrun => hbad _ _ (h.of_error hrun)⟩

theorem ends_pure {a : α} (h : g a p) : Ends p (pure a) g bad := by
  constructor
  · intro b q hrun
    cases hrun
    exact h
  · intro e q hrun
    cases hrun

theorem ends_throw {e : Failure} (h : bad e p) : Ends p (throw e : Work α) g bad := by
  constructor
  · intro b q hrun
    cases hrun
  · intro e q hrun
    cases hrun
    exact h

/-- Steps in a row: the first one may fail, or else the second one. -/
theorem ends_bind {x : Work α} {f : α → Work β} {g' : β → Pipeline → Prop}
    (hx : Ends p x g bad) (hf : ∀ a q, g a q → Ends q (f a) g' bad) :
    Ends p (x >>= f) g' bad := by
  have hsplit := run_bind x f p
  constructor
  · intro b q hrun
    rw [hsplit] at hrun
    split at hrun
    · next a p₁ hfirst => exact (hf a p₁ (hx.of_ok hfirst)).of_ok hrun
    · cases hrun
  · intro e q hrun
    rw [hsplit] at hrun
    split at hrun
    · next a p₁ hfirst => exact (hf a p₁ (hx.of_ok hfirst)).of_error hrun
    · next e' p₁ hfirst =>
      cases hrun
      exact hx.of_error hfirst

theorem ends_get_bind {f : Pipeline → Work α} (h : Ends p (f p) g bad) : Ends p (get >>= f) g bad :=
  ⟨h.of_ok, h.of_error⟩

theorem ends_modify {f : Pipeline → Pipeline} {g : Unit → Pipeline → Prop} (h : g () (f p)) :
    Ends p (modify f : Work Unit) g bad := by
  constructor
  · intro a q hrun
    cases hrun
    exact h
  · intro e q hrun
    cases hrun

theorem ends_check {task : Task} {fault : Option FileFault} {g : Unit → Pipeline → Prop}
    (hnone : fault = none → g () p) (hsome : ∀ f, fault = some f → bad (.during task f) p) :
    Ends p (check task fault) g bad := by
  cases fault with
  | none => exact ends_pure (hnone rfl)
  | some f => exact ends_throw (hsome f rfl)

end Ends

/-- A run in a given stage, with the options and the setup of another one and with splitters that load
as those do. -/
structure Staged (stage : Stage) (p q : Pipeline) : Prop where
  stage : q.stage = stage
  options : q.options = p.options
  setup : q.setup = p.setup
  load : p.splitters.load.failure = none → SameLoad p.splitters q.splitters

/-- A run in the stage of another one. -/
abbrev Fixed (p q : Pipeline) : Prop := Staged p.stage p q

section Staged

variable {stage : Stage} {r : Pipeline} {bad : Failure → Pipeline → Prop}

theorem Fixed.of_eq (hstage : q.stage = p.stage) (hoptions : q.options = p.options)
    (hsetup : q.setup = p.setup) (hsplitters : q.splitters = p.splitters) : Fixed p q :=
  ⟨hstage, hoptions, hsetup, fun _ => hsplitters ▸ ⟨rfl, rfl⟩⟩

theorem Staged.refl (p : Pipeline) : Fixed p p := .of_eq rfl rfl rfl rfl

theorem Staged.trans {stage' : Stage} (h : Staged stage p q) (h' : Staged stage' q r) :
    Staged stage' p r where
  stage := h'.stage
  options := h'.options.trans h.options
  setup := h'.setup.trans h.setup
  load hp := (h.load hp).trans (h'.load ((h.load hp).2.trans hp))

theorem Staged.fixed (h : Staged stage p q) (h' : Fixed q r) : Staged stage p r :=
  h.stage ▸ h.trans h'

theorem fixed_report (h : Staged stage p q) (rs : List Record) :
    Ends q (report rs) (fun _ r => Staged stage p r ∧ r.splitters = q.splitters) bad :=
  ends_modify ⟨h.fixed (.of_eq rfl rfl rfl rfl), rfl⟩

theorem fixed_setTree (h : Staged stage p q) (t : FileTree) :
    Ends q (setTree t) (fun _ r => Staged stage p r ∧ r.world.tree = t) bad :=
  ends_modify ⟨h.fixed (.of_eq rfl rfl rfl rfl), rfl⟩

theorem enter_ends (stage : Stage) : Ends p (enter stage) (fun _ q => Staged stage p q) bad :=
  ends_modify ⟨rfl, rfl, rfl, fun _ => ⟨rfl, rfl⟩⟩

end Staged

section Parse

/-- What can go wrong while sources are cut: a source cannot be read, or a splitter cannot be called, be
it one that a plugin brings. -/
inductive CutFault (splitters : Registry) (sources : List Source) : Failure → Prop where
  | unread {s : Source} {e : Failure} (hmem : s ∈ sources)
      (hread : Failure.Blames (.read s.fullPath) [s.fullPath] e) : CutFault splitters sources e
  | plugin {e : Failure} (hload : splitters.load.failure = some e) : CutFault splitters sources e
  | uncallable {tag : List Char} {splitter : Splitter}
      (hget : splitters.load.registry.get? tag = some splitter) (hcall : splitter.isCallable = false) :
      CutFault splitters sources .uncallable

theorem CutFault.mono {splitters splitters' : Registry} {sources sources' : List Source} {e : Failure}
    (h : CutFault splitters' sources' e) (hload : SameLoad splitters splitters')
    (hsources : ∀ s ∈ sources', s ∈ sources) : CutFault splitters sources e := by
  cases h with
  | unread hmem hread => exact .unread (hsources _ hmem) hread
  | plugin h => exact .plugin (hload.2 ▸ h)
  | uncallable hget hcall => exact .uncallable (hload.1 ▸ hget) hcall

theorem splitterFor_ends (extension : List Char) : Ends p (splitterFor extension)
    (fun out q => Fixed p q ∧ SameLoad p.splitters q.splitters ∧
      ∀ splitter, out = some splitter → p.splitters.load.registry.get? extension = some splitter)
    (fun e q => Fixed p q ∧ p.splitters.load.failure = some e) := by
  have hfixed : ∀ {out q}, (splitterFor extension).run.run p = (out, q) → Fixed p q := by
    intro out q hrun
    unfold splitterFor at hrun
    split at hrun
    · cases hrun
      exact .refl p
    · simp only [run_bind, run_get, run_modify, report] at hrun
      split at hrun <;> cases hrun <;> exact ⟨rfl, rfl, rfl, sameLoad_load⟩
  constructor
  · intro out q hrun
    obtain ⟨hout, hload⟩ := splitterFor_run hrun
    refine ⟨hfixed hrun, hload out rfl, ?_⟩
    rintro splitter rfl
    unfold splitterIn at hout
    split at hout
    · simp at hout
    · split at hout
      · simp at hout
      · exact (Except.ok.inj hout).symm
  · intro e q hrun
    obtain ⟨hout, -⟩ := splitterFor_run hrun
    refine ⟨hfixed hrun, ?_⟩
    unfold splitterIn at hout
    split at hout
    · simp at hout
    · split at hout
      · next hfailure => rw [hfailure, Except.error.inj hout]
      · simp at hout

theorem sectionsOf_ends (s : Source) : Ends p (sectionsOf s)
    (fun _ q => Fixed p q ∧ SameLoad p.splitters q.splitters)
    (fun e q => Fixed p q ∧ CutFault p.splitters [s] e) := by
  refine ends_bind ((splitterFor_ends _).imp (fun _ _ h => h) fun e q h => ⟨h.1, .plugin h.2⟩) ?_
  rintro splitter? q ⟨hq, hload, hget⟩
  cases splitter? with
  | none =>
    refine ends_get_bind (ends_bind (fixed_report hq _) ?_)
    rintro - r ⟨hr, hsame⟩
    exact ends_pure ⟨hr, hsame ▸ hload⟩
  | some splitter =>
    refine ends_get_bind ?_
    split
    · next fault hread =>
      refine ends_throw ⟨hq, .unread List.mem_cons_self (Failure.blames_during ?_)⟩
      rintro rfl
      exact ⟨_, List.mem_cons_self, FileTree.holdsNul_of_read hread⟩
    · next content _ =>
      -- the splitter runs outside the state of the run
      refine ends_bind (g := fun _ r => r = q) ⟨fun hrun => ?_, fun hrun => ?_⟩ ?_
      · rw [run_lift] at hrun
        exact (Prod.mk.inj hrun).2.symm
      · rw [run_lift, Splitter.run] at hrun
        split at hrun
        · cases hrun
        · next hcall =>
          cases hrun
          exact ⟨hq, .uncallable (hget _ rfl) (by simp [Splitter.isCallable, hcall])⟩
      · rintro sections r rfl
        refine ends_get_bind ?_
        split
        · refine ends_bind (fixed_report hq _) ?_
          rintro - r ⟨hr, hsame⟩
          exact ends_pure ⟨hr, hsame ▸ hload⟩
        · exact ends_pure ⟨hq, hload⟩

/-- A source that is one of some sources but for its sections. -/
def CutFrom (sources : List Source) (k : Source) : Prop :=
  ∃ s ∈ sources, ∃ sections, k = { s with sections }

theorem CutFrom.cons {sources : List Source} {k : Source} (h : CutFrom sources k) (s : Source) :
    CutFrom (s :: sources) k := by
  obtain ⟨s', hs', sections, rfl⟩ := h
  exact ⟨s', List.mem_cons_of_mem _ hs', sections, rfl⟩

theorem parseFrom_ends (before sources : List Source) : Ends p (parseFrom before sources)
    (fun kept q => Fixed p q ∧ ∀ k ∈ kept, CutFrom sources k)
    (fun e q => Fixed p q ∧ CutFault p.splitters sources e) := by
  induction sources generalizing before p with
  | nil => exact ends_pure ⟨.refl p, by simp⟩
  | cons s sources ih =>
    -- what goes wrong with later sources goes wrong with the splitters of the run before
    have hrest : ∀ {before q}, Fixed p q → SameLoad p.splitters q.splitters →
        Ends q (parseFrom before sources) (fun kept r => Fixed p r ∧ ∀ k ∈ kept, CutFrom (s :: sources) k)
          (fun e r => Fixed p r ∧ CutFault p.splitters (s :: sources) e) := by
      intro before q hq hload
      refine (ih before).imp (fun _ r h => ⟨hq.fixed h.1, fun k hk => (h.2 k hk).cons s⟩) fun e r h => ?_
      exact ⟨hq.fixed h.1, h.2.mono hload fun s' hs' => List.mem_cons_of_mem _ hs'⟩
    refine ends_bind ((sectionsOf_ends s).imp (fun _ _ h => h) fun e q h => ⟨h.1, ?_⟩) ?_
    · exact h.2.mono ⟨rfl, rfl⟩ (by simp)
    · rintro sections? q ⟨hq, hload⟩
      cases sections? with
      | none => exact hrest hq hload
      | some sections =>
        refine ends_bind (g := fun _ r => Fixed p r ∧ r.splitters = q.splitters)
          (ends_modify ⟨hq.fixed (.of_eq rfl rfl rfl rfl), rfl⟩) ?_
        rintro - r ⟨hr, hsame⟩
        refine ends_bind (hrest hr (hsame ▸ hload)) ?_
        rintro kept r' ⟨hr', hkept⟩
        refine ends_pure ⟨hr', fun k hk => ?_⟩
        split at hk
        · exact hkept k hk
        · rcases List.mem_cons.mp hk with rfl | hk
          · exact ⟨s, List.mem_cons_self, sections, rfl⟩
          · exact hkept k hk

/-- Cutting sources enters the next stage only when it succeeds. -/
theorem parse_ends : Ends p parse
    (fun kept q => Staged .filtered p q ∧ ∀ k ∈ kept, CutFrom p.sources k)
    (fun e q => Fixed p q ∧ CutFault p.splitters p.sources e) := by
  refine ends_get_bind (ends_bind (parseFrom_ends [] p.sources) ?_)
  rintro kept q ⟨hq, hkept⟩
  refine ends_get_bind (ends_bind (fixed_report hq _) ?_)
  rintro - r ⟨hr, -⟩
  refine ends_bind (g := fun _ r' => Staged .filtered p r')
    (ends_modify (hr.trans ⟨rfl, rfl, rfl, fun _ => ⟨rfl, rfl⟩⟩)) ?_
  rintro - r' hr'
  exact ends_pure ⟨hr', hkept⟩

end Parse

section Publish

theorem makeOutput_ends : Ends p makeOutput (fun _ q => Fixed p q)
    (fun e q => Fixed p q ∧ Failure.Blames (.create p.options.output) [p.options.output] e) := by
  refine ends_get_bind (ends_bind (fixed_setTree (.refl p) _) ?_)
  rintro - q ⟨hq, -⟩
  refine ends_check (fun _ => hq) fun fault hfault => ⟨hq, Failure.blames_during ?_⟩
  rintro rfl
  exact ⟨_, List.mem_cons_self, FileTree.holdsNul_of_makeDirs hfault⟩

theorem copyAssets_ends : Ends p copyAssets (fun _ q => Fixed p q)
    (fun e q => Fixed p q ∧ Failure.Blames (.copyAssets (Path.joined p.options.output assetsName))
      [Path.joined p.options.output assetsName] e) := by
  refine ends_get_bind ?_
  dsimp only
  split
  · next hdir =>
    refine ends_bind (fixed_setTree (.refl p) _) ?_
    rintro - q ⟨hq, -⟩
    refine ends_bind (ends_check (g := fun _ r => Fixed p r) (fun _ => hq) fun fault hfault => ⟨hq, ?_⟩)
      fun _ r hr => ?_
    · refine Failure.blames_during ?_
      rintro rfl
      refine ⟨_, List.mem_cons_self, (FileTree.holdsNul_of_copyDir hfault).resolve_left ?_⟩
      -- the assets are found, so their path is a text for the system
      unfold FileTree.isDir at hdir
      split at hdir
      · next hstat => exact FileTree.not_holdsNul_of_stat hstat
      · simp at hdir
    · split
      · exact ends_bind (g := fun _ _ => False) (ends_throw ⟨hr, .failed _⟩) fun _ _ h => h.elim
      · exact (fixed_report hr _).imp (fun _ _ h => h.1) fun _ _ h => h
  · exact ends_pure (.refl p)

theorem copyStylesheet_ends : Ends p copyStylesheet (fun _ q => Fixed p q)
    (fun e q => Fixed p q ∧ ∃ css, p.options.css = some css ∧
      Failure.Blames (.copyStylesheet (Path.joined p.options.output (Path.baseName css)))
        [css, Path.joined p.options.output (Path.baseName css)] e) := by
  refine ends_get_bind ?_
  split
  · exact ends_pure (.refl p)
  · next css hcss =>
    dsimp only
    split
    · next fault hcopy =>
      refine ends_throw ⟨.refl p, css, hcss, Failure.blames_during ?_⟩
      rintro rfl
      rcases FileTree.holdsNul_of_copyFile hcopy with h | h
      · exact ⟨_, List.mem_cons_self, h⟩
      · exact ⟨_, by simp, h⟩
    · refine ends_bind (fixed_setTree (.refl p) _) ?_
      rintro - q ⟨hq, -⟩
      exact (fixed_report hq _).imp (fun _ _ h => h.1) fun _ _ h => h

/-- What can go wrong while the page of a source is written: the task fails, or the template does. -/
inductive PageFault (c : Configuration) (setup : Markdown.Setup) (s : Source) : Failure → Prop where
  | unwritten {e : Failure} (hwrite : Failure.Blames (.write s.outputPath) [s.outputPath] e) :
      PageFault c setup s e
  | template {t : FileTree} {sources : List Source} {i : Nat} {fault : TemplateFault}
      (hrender : Page.render t c setup sources i (s.marked setup) given = .error fault)
      (hmissing : fault.isMissing = false) : PageFault c setup s (.template fault)

theorem page_ends (i : Nat) (s : Source) : Ends p (page i s)
    (fun out q => Fixed p q ∧ ∃ t sources,
      out = Page.render t p.options p.setup sources i (s.marked p.setup) given)
    (fun _ _ => False) := by
  constructor
  · intro out q hrun
    cases hrun
    exact ⟨.of_eq rfl rfl rfl rfl, _, _, rfl⟩
  · intro e q hrun
    cases hrun

theorem write_ends (i : Nat) (s : Source) : Ends p (write i s) (fun _ q => Fixed p q)
    (fun e q => Fixed p q ∧ PageFault p.options p.setup s e) := by
  refine ends_get_bind (ends_bind (fixed_setTree (.refl p) _) ?_)
  rintro - q ⟨hq, -⟩
  refine ends_bind (ends_check (g := fun _ r => Fixed p r) (fun _ => hq) fun fault hfault => ⟨hq, ?_⟩)
    fun _ r hr => ?_
  · refine .unwritten (Failure.blames_during ?_)
    rintro rfl
    exact ⟨_, List.mem_cons_self, (FileTree.holdsNul_of_makeDirs hfault).of_directory⟩
  · refine ends_bind ((page_ends i s).imp (fun _ _ h => h) fun _ _ h => h.elim) ?_
    rintro out r' ⟨hr', t, sources, hrender⟩
    have hr' := hr.fixed hr'
    rw [hr.options, hr.setup] at hrender
    cases out with
    | error fault =>
      dsimp only
      split
      · exact ends_throw ⟨hr', .unwritten (.failed _)⟩
      · next hmissing => exact ends_throw ⟨hr', .template hrender.symm (by simpa using hmissing)⟩
    | ok markup =>
      refine ends_get_bind ?_
      split
      · next fault hwrite =>
        refine ends_throw ⟨hr', .unwritten (Failure.blames_during ?_)⟩
        rintro rfl
        exact ⟨_, List.mem_cons_self, FileTree.holdsNul_of_write hwrite⟩
      · refine ends_bind (fixed_setTree hr' _) ?_
        rintro - r'' ⟨hr'', -⟩
        exact (fixed_report hr'' _).imp (fun _ _ h => h.1) fun _ _ h => h

theorem writeFrom_ends (i : Nat) (sources : List Source) : Ends p (writeFrom i sources)
    (fun _ q => Fixed p q)
    (fun e q => Fixed p q ∧ ∃ s ∈ sources, PageFault p.options p.setup s e) := by
  induction sources generalizing i p with
  | nil => exact ends_pure (.refl p)
  | cons s sources ih =>
    refine ends_bind ((write_ends i s).imp (fun _ _ h => h) fun e q h => ⟨h.1, s, List.mem_cons_self, h.2⟩)
      fun _ q hq => (ih (i + 1)).imp (fun _ r hr => hq.fixed hr) ?_
    rintro e r ⟨hr, s', hs', hfault⟩
    rw [hq.options, hq.setup] at hfault
    exact ⟨hq.fixed hr, s', List.mem_cons_of_mem _ hs', hfault⟩

end Publish

end Pipeline
end Marginalia
