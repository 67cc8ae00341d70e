import Marginalia.Pipeline

/-! # Steps of a run

What a step leaves behind, whether it fails or not. A relation between the run before a step and the
run after it that is reflexive and transitive holds for steps in a row when it holds for each.
-/
namespace Marginalia.Pipeline

open Text

variable {α β : Type} {p q : Pipeline}

section Run

variable {σ : Type}

theorem run_pure (a : α) (p : σ) : (pure a : ExceptT Failure (StateM σ) α).run.run p = (.ok a, p) := rfl

theorem run_throw (e : Failure) (p : σ) :
    (throw e : ExceptT Failure (StateM σ) α).run.run p = (.error e, p) := rfl

theorem run_get (p : σ) : (get : ExceptT Failure (StateM σ) σ).run.run p = (.ok p, p) := rfl

theorem run_modify (f : σ → σ) (p : σ) :
    (modify f : ExceptT Failure (StateM σ) Unit).run.run p = (.ok (), f p) := rfl

theorem run_lift (x : Except Failure α) (p : σ) :
    (liftM x : ExceptT Failure (StateM σ) α).run.run p = (x, p) := by
  cases x <;> rfl

/-- Steps in a row: the second one is made when the first one succeeds. -/
theorem run_bind (x : ExceptT Failure (StateM σ) α) (f : α → ExceptT Failure (StateM σ) β) (p : σ) :
    (x >>= f).run.run p = match x.run.run p with
      | (.ok a, q) => (f a).run.run q
      | (.error e, q) => (.error e, q) := by
  rw [ExceptT.run_bind, StateT.run_bind]
  cases h : x.run.run p with
  | mk out q =>
    show (match x.run.run p with | (a, s) => _) = _
    rw [h]
    cases out <;> rfl

end Run

/-- A relation between runs that steps in a row inherit. -/
structure Lasting where
  Rel : Pipeline → Pipeline → Prop
  refl : ∀ p, Rel p p
  trans : ∀ {p q s}, Rel p q → Rel q s → Rel p s

/-- What a step does to every run, whether it fails or not. -/
def Keeps (r : Lasting) (x : Work α) : Prop :=
  ∀ p, r.Rel p (x.run.run p).2

section Keeps

variable {r : Lasting}

theorem keeps_pure (a : α) : Keeps r (pure a : Work α) :=
  fun p => r.refl p

theorem keeps_throw (e : Failure) : Keeps r (throw e : Work α) :=
  fun p => r.refl p

theorem keeps_get : Keeps r (get : Work Pipeline) :=
  fun p => r.refl p

theorem keeps_lift (x : Except Failure α) : Keeps r (liftM x : Work α) := by
  intro p
  rw [run_lift]
  exact r.refl p

theorem keeps_bind {x : Work α} {f : α → Work β} (hx : Keeps r x) (hf : ∀ a, Keeps r (f a)) :
    Keeps r (x >>= f) := by
  intro p
  have hp := hx p
  rw [run_bind]
  generalize x.run.run p = step at hp
  obtain ⟨out, q⟩ := step
  cases out with
  | error e => exact hp
  | ok a => exact r.trans hp (hf a q)

theorem keeps_ite {c : Prop} [Decidable c] {x y : Work α} (hx : Keeps r x) (hy : Keeps r y) :
    Keeps r (if c then x else y) := by
  split
  · exact hx
  · exact hy

/-- A step that looks at the run and then does something to it. -/
theorem keeps_get_bind {f : Pipeline → Work β} (hf : ∀ p, r.Rel p ((f p).run.run p).2) :
    Keeps r (get >>= f) := by
  intro p
  rw [run_bind, run_get]
  exact hf p

theorem setTree_bind {t : FileTree} {f : Unit → Work β}
    (ht : r.Rel p { p with world := { p.world with tree := t } }) (hf : Keeps r (f ())) :
    r.Rel p ((setTree t >>= f).run.run p).2 := by
  rw [run_bind, setTree, run_modify]
  exact r.trans ht (hf _)

theorem keeps_check (task : Task) (fault : Option FileFault) : Keeps r (check task fault) := by
  cases fault with
  | none => exact keeps_pure ()
  | some fault => exact keeps_throw _

end Keeps

section Calm

/-- A run that changed neither its options nor, without a journal file, its files. -/
structure Calm (p q : Pipeline) : Prop where
  options : q.options = p.options
  setup : q.setup = p.setup
  home : q.world.home = p.world.home
  copy : p.world.copy = none → q.world.copy = none
  tree : p.world.copy = none → q.world.tree = p.world.tree

def calm : Lasting where
  Rel := Calm
  refl _ := ⟨rfl, rfl, rfl, id, fun _ => rfl⟩
  trans h h' := ⟨h'.options.trans h.options, h'.setup.trans h.setup, h'.home.trans h.home,
    fun hc => h'.copy (h.copy hc), fun hc => (h'.tree (h.copy hc)).trans (h.tree hc)⟩

theorem reportAll_of_copy {w : World} (hw : w.copy = none) (rs : List Record) :
    (w.reportAll rs).copy = none ∧ (w.reportAll rs).tree = w.tree := by
  induction rs generalizing w with
  | nil => exact ⟨hw, rfl⟩
  | cons r rs ih =>
    have hcopy : (w.report r).copy = none := hw
    have htree : (w.report r).tree = w.tree := by simp [World.report, hw]
    obtain ⟨h1, h2⟩ := ih hcopy
    exact ⟨h1, h2.trans htree⟩

theorem home_reportAll (w : World) (rs : List Record) : (w.reportAll rs).home = w.home := by
  induction rs generalizing w with
  | nil => rfl
  | cons r rs ih => exact ih (w.report r)

theorem calm_report (rs : List Record) : Keeps calm (report rs) := by
  intro p
  exact ⟨rfl, rfl, home_reportAll _ _, fun h => (reportAll_of_copy h rs).1, fun h => (reportAll_of_copy h rs).2⟩

theorem calm_enter (stage : Stage) : Keeps calm (enter stage) :=
  fun _ => ⟨rfl, rfl, rfl, id, fun _ => rfl⟩

theorem calm_splitterFor (extension : List Char) : Keeps calm (splitterFor extension) := by
  refine keeps_ite (keeps_pure _) (keeps_bind keeps_get fun p => ?_)
  refine keeps_bind (fun _ => ⟨rfl, rfl, rfl, id, fun _ => rfl⟩) fun _ => ?_
  refine keeps_bind (calm_report _) fun _ => ?_
  split
  · exact keeps_throw _
  · exact keeps_pure _

theorem calm_sectionsOf (s : Source) : Keeps calm (sectionsOf s) := by
  refine keeps_bind (calm_splitterFor _) fun splitter => ?_
  cases splitter with
  | none =>
    refine keeps_bind keeps_get fun p => ?_
    exact keeps_bind (calm_report _) fun _ => keeps_pure _
  | some splitter =>
    refine keeps_bind keeps_get fun p => ?_
    split
    · exact keeps_throw _
    · refine keeps_bind (keeps_lift _) fun sections => ?_
      refine keeps_bind keeps_get fun p => ?_
      exact keeps_ite (keeps_bind (calm_report _) fun _ => keeps_pure _) (keeps_pure _)

theorem calm_parseFrom (before sources : List Source) : Keeps calm (parseFrom before sources) := by
  induction sources generalizing before with
  | nil => exact keeps_pure _
  | cons s sources ih =>
    refine keeps_bind (calm_sectionsOf s) fun sections => ?_
    cases sections with
    | none => exact ih _
    | some sections =>
      refine keeps_bind (fun _ => ⟨rfl, rfl, rfl, id, fun _ => rfl⟩) fun _ => ?_
      exact keeps_bind (ih _) fun kept => keeps_pure _

/-- Cutting sources changes no file. -/
theorem calm_parse : Keeps calm parse := by
  refine keeps_bind keeps_get fun p => ?_
  refine keeps_bind (calm_parseFrom _ _) fun kept => ?_
  refine keeps_bind keeps_get fun p => ?_
  refine keeps_bind (calm_report _) fun _ => ?_
  exact keeps_bind (fun _ => ⟨rfl, rfl, rfl, id, fun _ => rfl⟩) fun _ => keeps_pure _

end Calm

end Marginalia.Pipeline
