import Mathlib
import Marginalia.Configuration
import Marginalia.Proofs.FileTree.Locate

/-! # What a configuration holds

Options are resolved exactly when each of their parts is. The output directory is an absolute path, and
the stylesheet has a proper name.
-/
namespace Marginalia

open Text

theorem ok_of_bind {α β : Type} {x : Except Failure α} {f : α → Except Failure β} {b : β} :
    x >>= f = .ok b ↔ ∃ a, x = .ok a ∧ f a = .ok b := by
  cases x with
  | error failure => simp [bind, Except.bind]
  | ok a => simp [bind, Except.bind]

namespace Configuration

/-- The options that a value gives. -/
def entriesOf (options : Value) : Except Value.MapFault (List (Value × Value)) :=
  if options.truthy then options.toMap else .ok []

theorem entriesOf_map (es : List (Value × Value)) : entriesOf (.map es) = .ok es := by
  unfold entriesOf
  cases es <;> rfl

/-- The index that options ask for. -/
def indexOf (t : FileTree) (home : List Char) (v : Value) : Except Failure (Option (List Char)) :=
  if v.truthy then some <$> absolutePath t home v else pure none

/-- The parts of a configuration, each resolved from its option. -/
structure Resolves (t : FileTree) (home : List Char) (layouts : Layouts)
    (es : List (Value × Value)) (c : Configuration) : Prop where
  names : checkNames es = .ok ()
  layout : ∃ l, layouts.looked t = .ok l ∧ l.resolve t home (chosen es "layout").toText = .ok c.layout
  templateName : c.templateName = (chosen es "template").toText
  template : Template.load t c.layout c.templateName = .ok c.template
  css : stylesheet t home (chosen es "css") = .ok c.css
  output : absolutePath t home (chosen es "output") = .ok c.output
  index : indexOf t home (chosen es "index") = .ok c.index
  markdown : Markdown.Options.of (chosen es "markdown") = .ok c.markdown
  assets : c.assets = (chosen es "assets").truthy
  silent : c.silent = (chosen es "silent").truthy
  recursive : c.recursive = (chosen es "recursive").truthy

variable {t : FileTree} {home : List Char} {layouts : Layouts} {c : Configuration}

theorem bind_indexOf (v : Value) (f : Option (List Char) → Except Failure Configuration) :
    (if v.truthy = true then some <$> absolutePath t home v >>= f else f none) =
      indexOf t home v >>= f := by
  unfold indexOf
  split <;> rfl

theorem resolve_eq_ok_iff {options : Value} :
    resolve t home layouts options = .ok c ↔
      ∃ es, entriesOf options = .ok es ∧ Resolves t home layouts es c := by
  unfold resolve
  dsimp only
  rw [← entriesOf]
  cases entriesOf options with
  | error fault => simp [throw, throwThe, MonadExceptOf.throw, bind, Except.bind]
  | ok es =>
    simp only [pure_bind, bind_indexOf, ok_of_bind, Except.ok.injEq, exists_eq_left']
    constructor
    · rintro ⟨_, hnames, l, hl, layout, hlayout, template, htemplate, css, hcss, output, houtput, index,
        hindex, markdown, hmarkdown, hc⟩
      cases hc
      exact ⟨hnames, ⟨l, hl, hlayout⟩, rfl, htemplate, hcss, houtput, hindex, hmarkdown, rfl, rfl, rfl⟩
    · intro h
      obtain ⟨l, hl, hlayout⟩ := h.layout
      refine ⟨(), h.names, l, hl, c.layout, hlayout, c.template, h.templateName ▸ h.template, c.css,
        h.css, c.output, h.output, c.index, h.index, c.markdown, h.markdown, ?_⟩
      rw [← h.templateName, ← h.assets, ← h.silent, ← h.recursive]
      rfl

end Configuration

namespace FileTree

variable {t : FileTree} {home : List Char}

/-- Links that are followed to the end leave names only. -/
theorem isName_of_resolveFrom {depth : Nat} {met : List Place} {p : Place} {ns : List Name}
    (hp : ∀ n ∈ p, IsName n) (hns : ∀ n ∈ ns, '/' ∉ n)
    (h : (t.resolveFrom depth met p ns).whole = true) :
    ∀ n ∈ (t.resolveFrom depth met p ns).names, IsName n := by
  have htail : ∀ {n : Name} {ns : List Name}, (∀ m ∈ n :: ns, '/' ∉ m) → ∀ m ∈ ns, '/' ∉ m :=
    fun h m hm => h m (List.mem_cons_of_mem _ hm)
  fun_induction resolveFrom t depth met p ns with
  | case1 => exact hp
  | case2 _ _ _ _ _ _ ih => exact ih hp (htail hns) h
  | case3 _ _ p _ _ ih => exact ih (fun n hn => hp n (p.dropLast_subset hn)) (htail hns) h
  | case4 => simp at h
  | case5 => simp at h
  | case6 met p n ns _ _ target _ _ _ start r hr ih _ ihrest =>
    have hstart : ∀ n ∈ start, IsName n := by
      unfold start
      split
      · simp
      · exact hp
    exact ihrest (ih hstart (fun n => not_mem_of_mem_splitOn) hr) (htail hns) h
  | case7 => simp at h
  | case8 _ _ p n ns hn hu _ ih =>
    simp only [Bool.or_eq_true, decide_eq_true_eq, not_or] at hn
    have hname : IsName n := ⟨⟨hn.1, hn.2, hns n List.mem_cons_self⟩, hu⟩
    exact ih (by simpa [or_imp, forall_and] using ⟨hp, hname⟩) (htail hns) h

theorem rooted_of_resolve (ht : t.WellFormed) {path place : List Char}
    (h : t.resolve? path = some place) : ∃ P : Path, P.Rooted ∧ place = P.text := by
  have hstart : ∀ n ∈ startOf path t.cwd, IsName n := by
    unfold startOf
    split
    · simp
    · exact ht.rooted_cwd.names
  rw [resolve?, ← startOf] at h
  dsimp only at h
  split at h
  · next hwhole =>
    cases h
    exact ⟨⟨.single, _⟩, ⟨by simp, isName_of_resolveFrom hstart (fun n => not_mem_of_mem_splitOn) hwhole⟩,
      rfl⟩
  · -- what is left of a circle of links may step up, but it is spelled out from the root
    have hroot : ∀ ns : List Name, (Path.parse (placeText ns)).root ≠ .none := by
      intro ns
      rw [Path.root_parse, Path.rootOf_ne_none_iff]
      simp [placeText, Path.text, Root.text]
    split at h
    · simp at h
    · cases h
      exact ⟨_, Path.rooted_collapse (hroot _) (Path.spelled_parse _), rfl⟩

theorem rooted_of_settle (ht : t.WellFormed) {path place : List Char}
    (h : t.settle home path = .ok place) : ∃ P : Path, P.Rooted ∧ place = P.text := by
  rw [settle] at h
  split at h
  · simp at h
  · split at h
    · simp at h
    · split at h
      · next hplace =>
        cases h
        exact rooted_of_resolve ht hplace
      · simp at h

theorem probe_eq_some_iff {path : List Char} {e : Entry} :
    t.probe path = .ok (some e) ↔ ∃ place, t.stat path = .ok (place, e) := by
  unfold probe
  cases t.stat path with
  | error fault =>
    constructor
    · intro h
      split at h <;> simp_all
    · rintro ⟨_, h⟩
      simp at h
  | ok found =>
    obtain ⟨place, f⟩ := found
    simp

theorem isDirOrFail_iff {path : List Char} :
    t.isDirOrFail path = .ok true ↔ ∃ place, t.stat path = .ok (place, .dir) := by
  rw [← probe_eq_some_iff, isDirOrFail]
  cases t.probe path with
  | error fault => simp
  | ok entry => rcases entry with _ | (_ | _ | _ | _) <;> simp

theorem isFileOrFail_iff {path : List Char} :
    t.isFileOrFail path = .ok true ↔ ∃ place content, t.stat path = .ok (place, .file content) := by
  rw [exists_comm]
  simp only [← probe_eq_some_iff]
  rw [isFileOrFail]
  cases t.probe path with
  | error fault => simp
  | ok entry => rcases entry with _ | (_ | _ | _ | _) <;> simp

end FileTree

namespace Configuration

variable {t : FileTree} {home : List Char} (ht : t.WellFormed)
include ht

theorem rooted_of_absolutePath {v : Value} {path : List Char}
    (h : absolutePath t home v = .ok path) : ∃ P : Path, P.Rooted ∧ path = P.text := by
  have habs : ∀ s, ∃ P : Path, P.Rooted ∧ t.absolute s = P.text :=
    fun s => ⟨_, Path.rooted_seen ht.isBase_cwd s, rfl⟩
  rw [absolutePath] at h
  split at h
  · cases h
    exact habs _
  · split at h
    · simp at h
    · cases h
      exact habs _

omit ht in
theorem file_of_stylesheet {v : Value} {css : List Char} (h : stylesheet t home v = .ok (some css)) :
    (∃ given, t.settle home given = .ok css) ∧
      ∃ place content, t.stat css = .ok (place, .file content) := by
  unfold stylesheet at h
  split at h
  · simp at h
  · next given =>
    rw [ok_of_bind] at h
    obtain ⟨settled, hsettle, h⟩ := h
    rw [ok_of_bind] at h
    obtain ⟨isFile, hfile, h⟩ := h
    cases isFile with
    | false => simp [throw, throwThe, MonadExceptOf.throw] at h
    | true =>
      cases h
      exact ⟨⟨given, hsettle⟩, FileTree.isFileOrFail_iff.mp hfile⟩
  · simp at h

theorem isName_of_stylesheet {v : Value} {css : List Char}
    (h : stylesheet t home v = .ok (some css)) : IsName (Path.baseName css) := by
  obtain ⟨⟨given, hsettle⟩, place, content, hstat⟩ := file_of_stylesheet h
  obtain ⟨P, hP, rfl⟩ := FileTree.rooted_of_settle ht hsettle
  rcases List.eq_nil_or_concat P.segments with hnil | ⟨ms, m, hms⟩
  · have hdir : t.get? P.segments = some .dir := by rw [hnil, FileTree.get?_nil]
    have := FileTree.stat_of_dir ht hP hdir hstat
    simp at this
  · rw [List.concat_eq_append] at hms
    have hname : IsName m := hP.names m (by simp [hms])
    have htext : P.text = Path.text ⟨P.root, ms ++ [m]⟩ := by rw [← hms]
    rwa [htext, Path.baseName_text (hms ▸ hP.spelled)]

end Configuration
end Marginalia
