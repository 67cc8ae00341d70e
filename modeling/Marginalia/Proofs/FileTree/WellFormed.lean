import Mathlib.Data.List.Basic
import Mathlib.Data.List.Induction
import Mathlib.Data.List.Nodup
import Mathlib.Data.List.Sort
import Mathlib.Order.Nat
import Marginalia.FileTree
import Marginalia.Proofs.Path.Absolute

/-! # Well-formed file trees

Every entry has a directory around it and a proper name, and no place holds two entries; what may not be
listed is a directory, what may not be written a file. In such a tree
the names in a directory are listed in the order of their characters, each once, and the path text of
the working directory is one that paths can be seen from.
-/
namespace Marginalia

open Text

/-- A name that an entry of a directory can have. -/
structure IsFileName (n : Name) : Prop extends IsName n where
  no_nul : Char.ofNat 0 ∉ n

namespace FileTree

/-- A tree that a file system can hold. -/
structure WellFormed (t : FileTree) : Prop where
  nodup : (t.entries.map (·.1)).Nodup
  isFileName : ∀ {p n}, (t.get? (p ++ [n])).isSome → IsFileName n
  parent : ∀ {p n}, (t.get? (p ++ [n])).isSome → t.get? p = some .dir
  target : ∀ {p s}, t.get? p = some (.link s) → Char.ofNat 0 ∉ s
  cwd : t.get? t.cwd = some .dir
  unlisted : ∀ {p}, p ∈ t.unlisted → t.get? p = some .dir
  locked : ∀ {p}, p ∈ t.locked → ∃ c, t.get? p = some (.file c)

theorem get?_nil (t : FileTree) : t.get? [] = some .dir := rfl

theorem get?_append_singleton (t : FileTree) (p : Place) (n : Name) :
    t.get? (p ++ [n]) = t.entries.lookup (p ++ [n]) := by
  simp [get?]

variable {t : FileTree}

/-- Every place on the way to an entry holds a directory. -/
theorem WellFormed.get?_of_append (h : t.WellFormed) {p q : Place} (hq : q ≠ [])
    (hs : (t.get? (p ++ q)).isSome) : t.get? p = some .dir := by
  induction q using List.reverseRecOn with
  | nil => exact absurd rfl hq
  | append_singleton q n ih =>
    rw [← List.append_assoc] at hs
    have hd := h.parent hs
    by_cases hq' : q = []
    · simpa [hq'] using hd
    · exact ih hq' (by simp [hd])

/-- Below a place that holds nothing there is nothing. -/
theorem WellFormed.none_of_none (h : t.WellFormed) {p : Place} (hp : t.get? p = none) (q : Place) :
    t.get? (p ++ q) = none := by
  by_cases hq : q = []
  · rw [hq, List.append_nil, hp]
  · rw [← Option.not_isSome_iff_eq_none]
    intro hs
    simp [h.get?_of_append hq hs] at hp

theorem WellFormed.get?_of_prefix (h : t.WellFormed) {p q : Place} (hpq : p <+: q)
    (hd : t.get? q = some .dir) : t.get? p = some .dir := by
  obtain ⟨r, rfl⟩ := hpq
  by_cases hr : r = []
  · simpa [hr] using hd
  · exact h.get?_of_append hr (by simp [hd])

/-- A file has nothing below it. -/
theorem WellFormed.eq_of_file_of_prefix (ht : t.WellFormed) {p q : Place} {c : ByteArray}
    (hp : t.get? p = some (.file c)) (hpq : p <+: q) (hq : (t.get? q).isSome) : q = p := by
  obtain ⟨k, rfl⟩ := hpq
  by_cases hk : k = []
  · rw [hk, List.append_nil]
  · rw [ht.get?_of_append hk hq] at hp
    cases hp

theorem WellFormed.isFileName_of_mem (h : t.WellFormed) {p : Place} (hs : (t.get? p).isSome) :
    ∀ n ∈ p, IsFileName n := by
  induction p using List.reverseRecOn with
  | nil => simp
  | append_singleton p n ih =>
    intro m hm
    rcases List.mem_append.mp hm with hm | hm
    · exact ih (by simp [h.parent hs]) m hm
    · rw [List.mem_singleton.mp hm]
      exact h.isFileName hs

section Cwd

variable (h : t.WellFormed)
include h

theorem WellFormed.rooted_cwd : (Path.mk .single t.cwd).Rooted :=
  ⟨by simp, fun n hn => (h.isFileName_of_mem (by simp [h.cwd]) n hn).toIsName⟩

theorem WellFormed.isBase_cwd : Path.IsBase (placeText t.cwd) :=
  h.rooted_cwd.isBase

theorem WellFormed.parse_cwd : Path.parse (placeText t.cwd) = ⟨.single, t.cwd⟩ :=
  Path.parse_text h.rooted_cwd.spelled

end Cwd

section Names

theorem lookup_isSome_iff {p : Place} {es : List (Place × Entry)} :
    (es.lookup p).isSome ↔ ∃ e, (p, e) ∈ es := by
  induction es with
  | nil => simp
  | cons x es ih =>
    obtain ⟨q, e⟩ := x
    by_cases hq : p = q
    · subst hq
      simp only [List.lookup_cons, BEq.rfl, Option.isSome_some, true_iff]
      exact ⟨e, List.mem_cons_self⟩
    · have hb : (p == q) = false := by simpa using hq
      simp only [List.lookup_cons, hb, ih, List.mem_cons, Prod.mk.injEq, hq, false_and, false_or]

/-- The name that an entry has in a directory, if it lies in it. -/
def nameIn (p q : Place) : Option Name :=
  if q.length = p.length + 1 && p.isPrefixOf q then q.getLast? else none

theorem names_eq (t : FileTree) (p : Place) : t.names p = (t.entries.map (·.1)).filterMap (nameIn p) := by
  rw [names, List.filterMap_map]
  rfl

theorem nameIn_eq_some_iff {p q : Place} {n : Name} : nameIn p q = some n ↔ q = p ++ [n] := by
  constructor
  · intro h
    unfold nameIn at h
    split at h
    · next hq =>
      simp only [Bool.and_eq_true, decide_eq_true_eq, List.isPrefixOf_iff_prefix] at hq
      obtain ⟨hlen, r, rfl⟩ := hq
      obtain ⟨m, rfl⟩ := List.length_eq_one_iff.mp (by simpa using hlen)
      simpa using h
    · simp at h
  · rintro rfl
    simp [nameIn]

theorem mem_names {p : Place} {n : Name} : n ∈ t.names p ↔ (t.get? (p ++ [n])).isSome := by
  rw [get?_append_singleton, lookup_isSome_iff, names_eq, List.mem_filterMap]
  simp [nameIn_eq_some_iff]

theorem WellFormed.nodup_names (h : t.WellFormed) (p : Place) : (t.names p).Nodup := by
  rw [names_eq]
  refine h.nodup.filterMap ?_
  intro q r n hq hr
  rw [Option.mem_def, nameIn_eq_some_iff] at hq hr
  rw [hq, hr]

end Names

section Order

theorem nameLe_iff (a b : Name) : nameLe a b = true ↔ ¬ b < a := by
  induction a generalizing b with
  | nil => simp [nameLe]
  | cons c a ih =>
    cases b with
    | nil => simp [nameLe]
    | cons d b =>
      have hlt : c.toNat < d.toNat ↔ c < d := Iff.rfl
      rw [List.not_lt, List.cons_le_cons_iff]
      simp only [nameLe, Bool.or_eq_true, Bool.and_eq_true, decide_eq_true_eq, ih, hlt, List.not_lt]

theorem sorted_sortedNames (t : FileTree) (p : Place) :
    (t.sortedNames p).Pairwise fun a b => ¬ b < a := by
  have htrans : ∀ a b c, nameLe a b = true → nameLe b c = true → nameLe a c = true := by
    intro a b c hab hbc
    rw [nameLe_iff, List.not_lt] at hab hbc ⊢
    exact List.le_trans hab hbc
  have htotal : ∀ a b, (nameLe a b || nameLe b a) = true := by
    intro a b
    rw [Bool.or_eq_true, nameLe_iff, nameLe_iff, List.not_lt, List.not_lt]
    exact List.le_total a b
  exact (List.pairwise_mergeSort htrans htotal _).imp fun hab => (nameLe_iff _ _).mp hab

/-- The names of the entries in a directory, in the order of their characters. -/
structure Lists (t : FileTree) (place : Place) (ns : List Name) : Prop where
  sorted : ns.Pairwise (· < ·)
  mem_iff : ∀ n, n ∈ ns ↔ (t.get? (place ++ [n])).isSome

/-- The names in a directory are listed in one way only. -/
theorem Lists.unique {place : Place} {ns ms : List Name} (h : Lists t place ns) (h' : Lists t place ms) :
    ns = ms := by
  refine h.sorted.eq_of_mem_iff h'.sorted ?_
  intro n
  rw [h.mem_iff, h'.mem_iff]

theorem WellFormed.lists (h : t.WellFormed) (p : Place) : Lists t p (t.sortedNames p) := by
  have hperm : (t.sortedNames p).Perm (t.names p) := List.mergeSort_perm _ _
  refine ⟨?_, fun n => hperm.mem_iff.trans mem_names⟩
  have hnodup : (t.sortedNames p).Pairwise (· ≠ ·) := hperm.nodup_iff.mpr (h.nodup_names p)
  refine ((sorted_sortedNames t p).and hnodup).imp ?_
  intro a b hab
  by_contra hlt
  exact hab.2 (List.le_antisymm (List.not_lt.mp hab.1) (List.not_lt.mp hlt))

theorem WellFormed.lists_of (h : t.WellFormed) {p : Place} {ns : List Name} (hns : t.sortedNames p = ns) :
    t.Lists p ns :=
  hns ▸ h.lists p

end Order

section Check

/-- Whether a name can stand in a directory. -/
def isFileName (n : Name) : Bool :=
  n ≠ [] && n ≠ here && n ≠ up && !n.contains '/' && !n.contains (Char.ofNat 0)

theorem isFileName_iff {n : Name} : isFileName n = true ↔ IsFileName n := by
  simp only [isFileName, Bool.and_eq_true, decide_eq_true_eq, Bool.not_eq_true', List.contains_eq_mem,
    decide_eq_false_iff_not, ne_eq]
  constructor
  · rintro ⟨⟨⟨⟨h1, h2⟩, h3⟩, h4⟩, h5⟩
    exact ⟨⟨⟨h1, h2, h4⟩, h3⟩, h5⟩
  · intro h
    exact ⟨⟨⟨⟨h.ne_nil, h.ne_here⟩, h.ne_up⟩, h.no_slash⟩, h.no_nul⟩

/-- Whether a place holds a directory. -/
def isDirAt (t : FileTree) (p : Place) : Bool :=
  match t.get? p with
  | some .dir => true
  | _ => false

theorem isDirAt_iff {p : Place} : t.isDirAt p = true ↔ t.get? p = some .dir := by
  unfold isDirAt
  split <;> simp_all

/-- Whether a place holds a file. -/
def isFileAt (t : FileTree) (p : Place) : Bool :=
  match t.get? p with
  | some (.file _) => true
  | _ => false

theorem isFileAt_iff {p : Place} : t.isFileAt p = true ↔ ∃ c, t.get? p = some (.file c) := by
  unfold isFileAt
  split <;> simp_all

/-- Whether an entry stands where and as it may. -/
def isSound (t : FileTree) (p : Place) (e : Entry) : Bool :=
  p.getLast?.all isFileName && t.isDirAt p.dropLast &&
    match e with
    | .link s => !s.contains (Char.ofNat 0)
    | _ => true

/-- Whether a tree is well-formed. -/
def isWellFormed (t : FileTree) : Bool :=
  decide (t.entries.map (·.1)).Nodup && t.entries.all (fun (p, e) => t.isSound p e) && t.isDirAt t.cwd &&
    t.unlisted.all t.isDirAt && t.locked.all t.isFileAt

theorem wellFormed_of_check (h : t.isWellFormed = true) : t.WellFormed := by
  simp only [isWellFormed, Bool.and_eq_true, decide_eq_true_eq, List.all_eq_true] at h
  obtain ⟨⟨⟨⟨hnodup, hall⟩, hcwd⟩, hunlisted⟩, hlocked⟩ := h
  have hsound : ∀ p e, p ≠ [] → t.get? p = some e → t.isSound p e = true := by
    intro p e hp he
    rw [get?, if_neg hp, List.lookup_eq_some_iff] at he
    obtain ⟨l₁, l₂, hl, -⟩ := he
    exact hall (p, e) (by simp [hl])
  refine ⟨hnodup, ?_, ?_, ?_, isDirAt_iff.mp hcwd, fun hp => isDirAt_iff.mp (hunlisted _ hp),
    fun hp => isFileAt_iff.mp (hlocked _ hp)⟩
  · intro p n hs
    obtain ⟨e, he⟩ := Option.isSome_iff_exists.mp hs
    have := hsound _ e (by simp) he
    simp only [isSound, Bool.and_eq_true] at this
    simpa [isFileName_iff] using this.1.1
  · intro p n hs
    obtain ⟨e, he⟩ := Option.isSome_iff_exists.mp hs
    have := hsound _ e (by simp) he
    simp only [isSound, Bool.and_eq_true, isDirAt_iff] at this
    simpa using this.1.2
  · intro p s he
    have hp : p ≠ [] := by
      rintro rfl
      simp [get?_nil] at he
    have := hsound p _ hp he
    simp only [isSound, Bool.and_eq_true] at this
    simpa using this.2

end Check

end FileTree
end Marginalia
