import Mathlib.Data.List.Basic
import Mathlib.Data.List.Perm.Basic
import Mathlib.Data.List.Perm.Subperm
import Marginalia.Proofs.Configuration.Resolve
import Marginalia.Proofs.FileTree.Replay
import Marginalia.Proofs.Page.Reads

/-! # A configuration resolved again

When a tree grows, links stay as they are, so paths are freed of links as before. Options are resolved
to the same configuration where the layouts and the template are as before.
-/
namespace Marginalia

open Text

namespace FileTree

variable {t u : FileTree}

section Links

/-- The places of links. -/
def linkPlaces (t : FileTree) : List Place :=
  (t.entries.map (·.1)).filter fun q => match t.get? q with
    | some (.link _) => true
    | _ => false

theorem mem_linkPlaces {q : Place} : q ∈ t.linkPlaces ↔ ∃ s, t.get? q = some (.link s) := by
  have hkey : ∀ {e}, q ≠ [] → t.get? q = some e → q ∈ t.entries.map (·.1) := by
    intro e hq he
    rw [get?, if_neg hq] at he
    obtain ⟨f, hf⟩ := lookup_isSome_iff.mp (by simp [he] : (t.entries.lookup q).isSome)
    exact List.mem_map.mpr ⟨_, hf, rfl⟩
  unfold linkPlaces
  rw [List.mem_filter]
  constructor
  · rintro ⟨-, h⟩
    split at h
    · next s hs => exact ⟨s, hs⟩
    · simp at h
  · rintro ⟨s, hs⟩
    have hq : q ≠ [] := by
      rintro rfl
      simp [get?_nil] at hs
    exact ⟨hkey hq hs, by simp [hs]⟩

theorem length_linkPlaces_le (ht : t.WellFormed) (h : SameLinks t u) :
    t.linkPlaces.length ≤ u.entries.length := by
  have hsub : t.linkPlaces ⊆ u.entries.map (·.1) := by
    intro q hq
    obtain ⟨s, hs⟩ := mem_linkPlaces.mp hq
    have hu : q ∈ u.linkPlaces := mem_linkPlaces.mpr ⟨s, (h q s).mpr hs⟩
    exact (List.mem_filter.mp hu).1
  have hnodup : t.linkPlaces.Nodup := ht.nodup.filter _
  simpa using (hnodup.subperm hsub).length_le

/-- How many links were not met yet. -/
def unmet (t : FileTree) (met : List Place) : Nat :=
  (t.linkPlaces.filter fun q => !met.contains q).length

theorem unmet_cons_lt {met : List Place} {q : Place} {s : List Char}
    (hq : t.get? q = some (.link s)) (hmet : met.contains q = false) :
    t.unmet (q :: met) < t.unmet met := by
  have hfilter : t.linkPlaces.filter (fun r => !(q :: met).contains r) =
      (t.linkPlaces.filter fun r => !met.contains r).filter (· ≠ q) := by
    rw [List.filter_filter]
    refine List.filter_congr fun r _ => ?_
    by_cases hr : r = q <;> simp [hr]
  rw [unmet, unmet, hfilter, List.length_filter_lt_length_iff_exists]
  refine ⟨q, List.mem_filter.mpr ⟨mem_linkPlaces.mpr ⟨s, hq⟩, by simpa using hmet⟩, by simp⟩

/-- How deep links may lie inside one another does not matter once it is more than there are. -/
theorem resolveFrom_of_sameLinks (h : SameLinks t u) {k d d' : Nat} {met : List Place} {p : Place}
    {ns : List Name} (hk : t.unmet met ≤ k) (hd : k < d) (hd' : k < d') :
    t.resolveFrom d met p ns = u.resolveFrom d' met p ns := by
  -- links inside links are fewer, and so are the segments behind them
  induction k using Nat.strongRecOn generalizing d d' met p ns with
  | ind k ihk =>
    induction ns generalizing p with
    | nil => rw [resolveFrom, resolveFrom]
    | cons n ns ih =>
      rw [resolveFrom, resolveFrom]
      by_cases hn : (decide (n = []) || decide (n = here)) = true
      · simp only [hn, ↓reduceIte]
        exact ih
      · simp only [hn, Bool.false_eq_true, ↓reduceIte]
        by_cases hup : n = up
        · simp only [hup, ↓reduceIte]
          exact ih
        · simp only [hup, ↓reduceIte]
          by_cases hlink : ∃ s, t.get? (p ++ [n]) = some (.link s)
          · obtain ⟨s, hs⟩ := hlink
            obtain ⟨d, rfl⟩ := Nat.exists_eq_succ_of_ne_zero (Nat.ne_zero_of_lt hd)
            obtain ⟨d', rfl⟩ := Nat.exists_eq_succ_of_ne_zero (Nat.ne_zero_of_lt hd')
            simp only [hs, (h _ _).mpr hs]
            cases hmet : met.contains (p ++ [n]) with
            | true => simp
            | false =>
              have hlt := unmet_cons_lt hs hmet
              have hinner : ∀ {q ms}, t.resolveFrom d ((p ++ [n]) :: met) q ms =
                  u.resolveFrom d' ((p ++ [n]) :: met) q ms :=
                ihk _ (Nat.lt_of_lt_of_le hlt hk) (Nat.le_refl _) (by omega) (by omega)
              have hrest : ∀ {q}, t.resolveFrom (d + 1) met q ns = u.resolveFrom (d' + 1) met q ns := ih
              simp only [hinner, hrest]
          · have hno : ∀ s, t.get? (p ++ [n]) ≠ some (.link s) := fun s hs => hlink ⟨s, hs⟩
            have hno' : ∀ s, u.get? (p ++ [n]) ≠ some (.link s) := fun s hs => hno s ((h _ _).mp hs)
            split
            · next s hs => exact absurd hs (hno s)
            · exact ih

end Links

section Resolve

variable (ht : t.WellFormed) (hg : Grows t u) {home path place : List Char}
include ht hg

/-- A path that is free of links and leads to an entry is found again. -/
theorem resolve?_of_grows {x : Place × Entry} (h : t.resolve? path = some place)
    (hx : t.stat place = .ok x) : u.resolve? path = some place := by
  have hlinks := hg.sameLinks
  have hk : t.unmet [] ≤ t.linkPlaces.length := List.length_filter_le ..
  have hd : t.linkPlaces.length < t.entries.length + 1 :=
    Nat.lt_succ_of_le (length_linkPlaces_le ht fun _ _ => Iff.rfl)
  have hd' : t.linkPlaces.length < u.entries.length + 1 :=
    Nat.lt_succ_of_le (length_linkPlaces_le ht hlinks)
  have hfrom : ∀ {p ns}, u.resolveFrom (u.entries.length + 1) [] p ns =
      t.resolveFrom (t.entries.length + 1) [] p ns :=
    fun {_ _} => (resolveFrom_of_sameLinks hlinks hk hd hd').symm
  rw [resolve?, ← startOf] at h ⊢
  rw [hg.cwd, hfrom]
  dsimp only at h ⊢
  split at h
  · next hwhole =>
    rw [if_pos hwhole]
    exact h
  · next hwhole =>
    rw [if_neg hwhole]
    split at h
    · simp at h
    · cases h
      obtain ⟨f, hf, -⟩ := stat_of_grows ht hg hx
      rw [hf]

theorem settle_of_grows {x : Place × Entry} (h : t.settle home path = .ok place)
    (hx : t.stat place = .ok x) : u.settle home path = .ok place := by
  rw [settle] at h ⊢
  split at h
  · simp at h
  · split at h
    · simp at h
    · next hnul =>
      simp only [hnul, Bool.false_eq_true, ↓reduceIte]
      split at h
      · next hplace =>
        cases h
        rw [resolve?_of_grows ht hg hplace hx]
      · simp at h

theorem isDirOrFail_of_grows (h : t.isDirOrFail path = .ok true) : u.isDirOrFail path = .ok true := by
  obtain ⟨q, hq⟩ := isDirOrFail_iff.mp h
  obtain ⟨f, hf, hshape⟩ := stat_of_grows ht hg hq
  obtain rfl : f = .dir := Entry.eq_of_shape_eq hshape (by simp)
  exact isDirOrFail_iff.mpr ⟨q, hf⟩

theorem isFileOrFail_of_grows (h : t.isFileOrFail path = .ok true) : u.isFileOrFail path = .ok true := by
  obtain ⟨q, c, hq⟩ := isFileOrFail_iff.mp h
  obtain ⟨f, hf, hshape⟩ := stat_of_grows ht hg hq
  obtain ⟨d, rfl⟩ := Entry.exists_file_of_shape hshape
  exact isFileOrFail_iff.mpr ⟨q, d, hf⟩

end Resolve

end FileTree

section Layouts

variable {t u : FileTree} {home : List Char}

variable (ht : t.WellFormed) (hg : t.Grows u)
include ht hg

theorem Layouts.resolve_of_grows {l : Layouts} {name place : List Char}
    (h : l.resolve t home name = .ok place) : l.resolve u home name = .ok place := by
  unfold resolve at h ⊢
  split
  · next hname =>
    rw [if_pos hname] at h
    exact h
  · next hname =>
    rw [if_neg hname, ok_of_bind] at h
    obtain ⟨settled, hsettle, h⟩ := h
    rw [ok_of_bind] at h
    obtain ⟨isDir, hdir, h⟩ := h
    cases isDir with
    | false => simp [throw, throwThe, MonadExceptOf.throw] at h
    | true =>
      cases h
      obtain ⟨q, hq⟩ := FileTree.isDirOrFail_iff.mp hdir
      refine ok_of_bind.mpr ⟨place, FileTree.settle_of_grows ht hg hsettle hq, ?_⟩
      exact ok_of_bind.mpr ⟨true, FileTree.isDirOrFail_of_grows ht hg hdir, rfl⟩

theorem Template.load_of_grows {layout name : List Char} {loaded : Template.Loaded}
    (h : Template.load t layout name = .ok loaded)
    (hs : t.Agrees u (Template.pathIn loaded.dir ((Path.parse layout).append (Path.parse name)).name)) :
    Template.load u layout name = .ok loaded := by
  unfold load at h ⊢
  dsimp only at h ⊢
  rw [ok_of_bind] at h ⊢
  obtain ⟨isFile, hfile, h⟩ := h
  cases isFile with
  | false => simp [throw, throwThe, MonadExceptOf.throw] at h
  | true =>
    refine ⟨true, FileTree.isFileOrFail_of_grows ht hg hfile, ?_⟩
    simp only [↓reduceIte] at h ⊢
    split at h
    · next nodes hnodes =>
      cases h
      rw [← sourceOf_congr hs, hnodes]
      rfl
    · simp [throw, throwThe, MonadExceptOf.throw] at h

end Layouts

namespace Configuration

variable {t u : FileTree} {home : List Char} (ht : t.WellFormed) (hg : t.Grows u)
include ht hg

theorem stylesheet_of_grows {v : Value} {css : Option (List Char)}
    (h : stylesheet t home v = .ok css) : stylesheet u home v = .ok css := by
  unfold stylesheet at h ⊢
  split at h
  · exact h
  · rw [ok_of_bind] at h ⊢
    obtain ⟨settled, hsettle, h⟩ := h
    rw [ok_of_bind] at h
    obtain ⟨isFile, hfile, h⟩ := h
    cases isFile with
    | false => simp [throw, throwThe, MonadExceptOf.throw] at h
    | true =>
      obtain ⟨q, c, hq⟩ := FileTree.isFileOrFail_iff.mp hfile
      refine ⟨settled, FileTree.settle_of_grows ht hg hsettle hq, ?_⟩
      exact ok_of_bind.mpr ⟨true, FileTree.isFileOrFail_of_grows ht hg hfile, h⟩
  · simp at h

/-- The name of the template in its directory. -/
def templateFile (c : Configuration) : Name :=
  ((Path.parse c.layout).append (Path.parse c.templateName)).name

/-- Options are resolved to the same configuration. -/
theorem Resolves.of_grows {layouts : Layouts} {es : List (Value × Value)} {c : Configuration}
    (h : Resolves t home layouts es c) (hlayouts : layouts.looked u = layouts.looked t)
    (htemplate : t.Agrees u (Template.pathIn c.template.dir c.templateFile)) :
    Resolves u home layouts es c := by
  have habs : ∀ v, absolutePath u home v = absolutePath t home v := by
    intro v
    simp only [absolutePath, FileTree.absolute, hg.cwd]
  obtain ⟨l, hl, hlayout⟩ := h.layout
  exact {
    names := h.names
    layout := ⟨l, hlayouts.trans hl, Layouts.resolve_of_grows ht hg hlayout⟩
    templateName := h.templateName
    template := Template.load_of_grows ht hg h.template htemplate
    css := stylesheet_of_grows ht hg h.css
    output := (habs _).trans h.output
    index := by simpa only [indexOf, habs] using h.index
    markdown := h.markdown
    assets := h.assets
    silent := h.silent
    recursive := h.recursive }

end Configuration
end Marginalia
