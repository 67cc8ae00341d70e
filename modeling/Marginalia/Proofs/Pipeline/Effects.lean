import Mathlib
import Marginalia.Proofs.FileTree.Writes
import Marginalia.Proofs.Pipeline.Parse
import Marginalia.Proofs.Pipeline.Start

/-! # Where a run changes files

A run cuts its sources before it changes any file. What it changes afterwards lies at or below the
output directory or is a directory made on the way to it, also when a step fails.
-/
namespace Marginalia.Pipeline

open Text FileTree

section Inside

/-- A run whose output directory exists and holds no link. -/
structure Settled (P : Path) (O : Place) (p : Pipeline) : Prop where
  copy : p.world.copy = none
  output : p.options.output = P.text
  css : ∀ css, p.options.css = some css → IsName (Path.baseName css)
  ready : Ready p.world.tree P O

/-- Nothing changes outside the output directory. -/
def inside (P : Path) (O : Place) : Lasting where
  Rel p q := Settled P O p → Settled P O q ∧ Edits (Below O) (Below O) p.world.tree q.world.tree
  refl _ h := ⟨h, .refl⟩
  trans h h' hp := by
    obtain ⟨hq, he⟩ := h hp
    obtain ⟨hs, he'⟩ := h' hq
    exact ⟨hs, he.trans he'⟩

variable {α : Type} {P : Path} {O : Place} {p q : Pipeline}

theorem isName_assetsName : IsName assetsName :=
  ⟨⟨by decide, by decide, by decide⟩, by decide⟩

theorem makeDirs_directory {ns : List Name} {n : Name} (hP : P.Rooted) (hns : ∀ m ∈ ns, IsName m)
    (hn : IsName n) (t : FileTree) :
    t.makeDirs (Path.directory (Path.below P.text (ns ++ [n]))) =
      t.makeDirs (Path.below P.text ns) := by
  have hall : ∀ m ∈ ns ++ [n], IsName m := by simpa [or_imp, forall_and] using ⟨hns, hn⟩
  have hpage : Path.Rooted ⟨P.root, (P.segments ++ ns) ++ [n]⟩ := by
    simpa using hP.append hall
  rw [Path.below_text hP hall, Path.below_text hP hns, ← List.append_assoc, makeDirs, makeDirs,
    Source.parse_directory hpage, Path.parse_text (hP.append hns).spelled]

end Inside

section Output

variable {t : FileTree} {P : Path} {p : Pipeline}

/-- Nothing changed but what lies at or below the place that a path leads to, and directories that were
made on the way to it. -/
def Confined (output : List Char) (t u : FileTree) : Prop :=
  ∀ q, u.get? q = t.get? q ∨ ∃ O, t.LeadsTo output O ∧
    (O <+: q ∨ q <+: O ∧ t.get? q = none ∧ u.get? q = some .dir)

/-- What is missing on the way to a place lies around the place. -/
theorem exists_leads_of_onWay (ht : t.WellFormed) {ns : List Name} (hns : ∀ n ∈ ns, IsName n) {q : Place}
    (hq : OnWay t ns q) (hnone : t.get? q = none) : ∃ O, t.Leads [] ns O ∧ q <+: O := by
  obtain ⟨ms, ⟨ks, rfl⟩, hl⟩ := hq
  have hks : ∀ n ∈ ks, IsName n := fun n hn => hns n (List.mem_append_right _ hn)
  exact ⟨q ++ ks, hl.append (leads_of_linkFree (linkFree_of_none ht hnone) hks), List.prefix_append ..⟩

theorem confined_makeDirs (ht : t.WellFormed) (hP : P.Rooted) :
    Confined P.text t (t.makeDirs P.text).tree := by
  intro q
  rcases (FileTree.makeDirs_edits ht hP).get?_eq q with h | h | ⟨hq, hnone, hdir⟩
  · exact Or.inl h
  · exact h.elim
  · obtain ⟨O, hO, hpre⟩ := exists_leads_of_onWay ht hP.names hq hnone
    exact Or.inr ⟨O, (leadsTo_text_iff hP).mpr hO, Or.inr ⟨hpre, hnone, hdir⟩⟩

theorem Confined.edits {u v : FileTree} (h : Confined P.text t u) {O : Place} (hO : t.LeadsTo P.text O)
    (he : Edits (Below O) (Below O) u v) : Confined P.text t v := by
  intro q
  rcases he.get?_eq q with hq | hq | ⟨hq, -⟩
  · rw [hq]
    exact h q
  · exact Or.inr ⟨O, hO, Or.inl hq⟩
  · exact Or.inr ⟨O, hO, Or.inl hq⟩

end Output

section Run

variable {p : Pipeline} {P : Path}

/-- A run that keeps no source changes no file. -/
theorem tree_run_of_not_kept (hcopy : p.world.copy = none)
    (h : ∀ s kept, (parse.run.run p).1 ≠ .ok (s :: kept)) :
    (run.run.run p).2.world.tree = p.world.tree := by
  have hcalm := calm_parse p
  unfold run
  rw [run_bind]
  cases hparse : parse.run.run p with
  | mk out q =>
    rw [hparse] at h hcalm
    cases out with
    | error failure => exact hcalm.tree hcopy
    | ok kept =>
      cases kept with
      | cons s kept => exact absurd rfl (h s kept)
      | nil =>
        have hend : Keeps calm (do
            report [⟨.debug, .pipeline, "Nothing to document".toList⟩]
            enter .done
            return ([] : List Source)) :=
          keeps_bind (calm_report _) fun _ => keeps_bind (calm_enter _) fun _ => keeps_pure _
        exact ((hend q).tree (hcalm.copy hcopy)).trans (hcalm.tree hcopy)

end Run

section Sample

/-- A tree with a layout in `/l` and some files in `/w`, seen from there. -/
def sampleTree (files : List (Place × Entry)) : FileTree where
  cwd := ["w".toList]
  entries := [(["l".toList], .dir), (["l".toList, "page.html".toList], .file ⟨#[120]⟩),
    (["w".toList], .dir)] ++ files

def sampleWorld (files : List (Place × Entry)) : World where
  tree := sampleTree files
  home := "/".toList
  layouts := "/none".toList

def sampleLayouts : Layouts := ⟨"/none".toList, none⟩

def sampleOptions : Value :=
  .map [(.ofString "layout", .ofString "/l"), (.ofString "recursive", .bool true)]

/-- What the options say in the tree: the template is a single letter. -/
def sampleConfiguration : Configuration where
  output := "/w/docs".toList
  layout := "/l".toList
  templateName := "page.html".toList
  template := ⟨[.text "x".toList], "/l".toList⟩
  assets := true
  index := none
  silent := true
  recursive := true
  css := none
  markdown := .standard

def samplePipeline (w : World) (found : Found) : Pipeline where
  world := w.report (countRecord found)
  options := sampleConfiguration
  splitters := .standard
  stage := .resolved
  sources := Source.mapOutputs found "/w/docs".toList none
  setup := { fences := some {}, tables := some {}, code := some {} }

/-- Files among which the options find their layout and some sources. -/
structure Sampled (files : List (Place × Entry)) (found : Found) : Prop where
  wellFormed : (sampleTree files).WellFormed
  resolve : Configuration.resolve (sampleTree files) "/".toList sampleLayouts sampleOptions =
    .ok sampleConfiguration
  walk : Source.walk (sampleTree files) [".".toList] true = .ok found
  ne_nil : found ≠ []

theorem Sampled.started {files : List (Place × Entry)} {found : Found} (h : Sampled files found)
    {w : World} (htree : w.tree = sampleTree files) (hhome : w.home = "/".toList) :
    Started sampleLayouts .standard (.text ".".toList) sampleOptions w found (samplePipeline w found) where
  options := by
    rw [htree, hhome]
    exact h.resolve
  walked := ⟨[".".toList], rfl, by rw [htree]; exact h.walk⟩
  ne_nil := h.ne_nil
  setup := rfl
  sources := rfl
  splitters := rfl
  stage := rfl
  world := rfl

/-- One source, in a directory of its own. -/
def nestedFiles : List (Place × Entry) :=
  [(["w".toList, "d".toList], .dir), (["w".toList, "d".toList, "a.md".toList], .file ⟨#[104]⟩)]

theorem sampled_nested : Sampled nestedFiles [("/w/d/a.md".toList, "d/a.md".toList)] := by
  have ht : (sampleTree nestedFiles).WellFormed := wellFormed_of_check (by decide)
  have hw : (sampleTree nestedFiles).Lists ["w".toList] ["d".toList] := ht.lists_of (by cbv)
  have hd : (sampleTree nestedFiles).Lists ["w".toList, "d".toList] ["a.md".toList] := ht.lists_of (by cbv)
  have hroot : (sampleTree nestedFiles).stat "/w".toList = .ok (["w".toList], .dir) := by cbv
  have hdir : (sampleTree nestedFiles).stat "/w/d".toList = .ok (["w".toList, "d".toList], .dir) := by
    cbv
  have hfile : (sampleTree nestedFiles).stat "/w/d/a.md".toList =
      .ok (["w".toList, "d".toList, "a.md".toList], .file ⟨#[104]⟩) := by cbv
  have htour : Source.Tour (sampleTree nestedFiles) true ([".".toList].map Source.Stop.ofArgument) _ :=
    .enter hroot (Or.inl rfl) (by decide) hw
      (.enter hdir (Or.inr rfl) (by decide) hd (.file hfile .nil) .nil) .nil
  exact ⟨ht, by cbv, Source.walk_of_tour ht htour, by simp⟩

theorem linkFree_of_entries {t : FileTree} (h : ∀ x ∈ t.entries, ∀ s, x.2 ≠ .link s) (O : Place) :
    t.LinkFree O := by
  intro q _ s hq
  rw [get?] at hq
  split at hq
  · simp at hq
  · obtain ⟨before, after, hentries, -⟩ := List.lookup_eq_some_iff.mp hq
    exact h (q, .link s) (by simp [hentries]) s rfl

end Sample

end Marginalia.Pipeline
