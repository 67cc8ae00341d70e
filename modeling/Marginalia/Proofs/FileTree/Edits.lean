import Mathlib.Data.List.Basic
import Mathlib.Data.List.Nodup
import Marginalia.Proofs.FileTree.Leads

/-! # Edits of a file tree

An edit writes a file, makes a directory where none was, or keeps the user from writing a file. Trees that
come from one another by edits have the same links; each entry of the first is an entry of the second of the
same kind; and a place outside those that may be edited holds what it held.
-/
namespace Marginalia

/-- An entry without the content of a file. -/
def Entry.shape : Entry → Entry
  | .file _ => .file .empty
  | e => e

theorem Entry.eq_of_shape_eq {e f : Entry} (h : f.shape = e.shape) (he : ∀ c, e ≠ .file c) : f = e := by
  cases e with
  | file c => exact absurd rfl (he c)
  | _ => cases f <;> simp_all [Entry.shape]

theorem Entry.exists_file_of_shape {f : Entry} {c : ByteArray} (h : f.shape = (Entry.file c).shape) :
    ∃ d, f = .file d := by
  cases f with
  | file d => exact ⟨d, rfl⟩
  | _ => simp [Entry.shape] at h

namespace FileTree

/-- A tree with all that another one has, and perhaps more files and directories, and more files that may
not be written. -/
structure Grows (t u : FileTree) : Prop where
  cwd : u.cwd = t.cwd
  kept : ∀ {p e}, t.get? p = some e → ∃ f, u.get? p = some f ∧ f.shape = e.shape
  new : ∀ {p}, t.get? p = none →
    u.get? p = none ∨ (∃ c, u.get? p = some (.file c)) ∨ u.get? p = some .dir
  unlisted : u.unlisted = t.unlisted
  locked : t.locked <:+ u.locked

variable {t u v : FileTree} {p q : Place} {n : Name}

theorem Grows.refl (t : FileTree) : Grows t t :=
  ⟨rfl, fun {_ e} h => ⟨e, h, rfl⟩, fun h => Or.inl h, rfl, List.suffix_rfl⟩

theorem Grows.dir (h : Grows t u) (hp : t.get? p = some .dir) : u.get? p = some .dir := by
  obtain ⟨f, hf, hs⟩ := h.kept hp
  rw [hf, Entry.eq_of_shape_eq hs (by simp)]

theorem Grows.file (h : Grows t u) {c : ByteArray} (hp : t.get? p = some (.file c)) :
    ∃ d, u.get? p = some (.file d) := by
  obtain ⟨f, hf, hs⟩ := h.kept hp
  obtain ⟨d, rfl⟩ := Entry.exists_file_of_shape hs
  exact ⟨d, hf⟩

theorem Grows.isSome (h : Grows t u) (hp : (t.get? p).isSome) : (u.get? p).isSome := by
  obtain ⟨e, he⟩ := Option.isSome_iff_exists.mp hp
  obtain ⟨f, hf, _⟩ := h.kept he
  simp [hf]

theorem Grows.none_of_none (h : Grows t u) (hp : u.get? p = none) : t.get? p = none := by
  cases he : t.get? p with
  | none => rfl
  | some e =>
    obtain ⟨f, hf, _⟩ := h.kept he
    simp [hf] at hp

theorem Grows.trans (h : Grows t u) (h' : Grows u v) : Grows t v := by
  refine ⟨h'.cwd.trans h.cwd, ?_, ?_, h'.unlisted.trans h.unlisted, h.locked.trans h'.locked⟩
  · intro p e he
    obtain ⟨f, hf, hs⟩ := h.kept he
    obtain ⟨g, hg, hs'⟩ := h'.kept hf
    exact ⟨g, hg, hs'.trans hs⟩
  · intro p hp
    rcases h.new hp with hu | ⟨c, hu⟩ | hu
    · exact h'.new hu
    · exact Or.inr (Or.inl (h'.file hu))
    · exact Or.inr (Or.inr (h'.dir hu))

theorem Grows.sameLinks (h : Grows t u) : SameLinks t u := by
  intro q s
  constructor
  · intro hu
    cases ht : t.get? q with
    | none =>
      rcases h.new ht with h' | ⟨c, h'⟩ | h' <;> simp [h'] at hu
    | some e =>
      obtain ⟨f, hf, hs⟩ := h.kept ht
      rw [hu] at hf
      cases hf
      cases e <;> simp_all [Entry.shape]
  · intro ht
    obtain ⟨f, hf, hs⟩ := h.kept ht
    rw [hf, Entry.eq_of_shape_eq hs (by simp)]

theorem LeadsTo.of_grows {path : List Char} (h : t.LeadsTo path q) (hg : Grows t u) : u.LeadsTo path q := by
  unfold LeadsTo at h ⊢
  rw [hg.cwd]
  exact h.of_sameLinks hg.sameLinks

section Put

/-- What a file or a directory may be put onto. -/
structure Puts (t : FileTree) (p : Place) (n : Name) (e : Entry) : Prop where
  parent : t.get? p = some .dir
  isFileName : IsFileName n
  old : (∃ c, e = .file c) ∧ (∀ f, t.get? (p ++ [n]) = some f → ∃ d, f = .file d) ∨
    e = .dir ∧ t.get? (p ++ [n]) = none

variable {e : Entry}

theorem get?_put_concat (t : FileTree) (p q : Place) (n : Name) (e : Entry) :
    (t.put (p ++ [n]) e).get? q = if q = p ++ [n] then some e else t.get? q :=
  get?_put t (p ++ [n]) q e (by simp)

theorem Puts.grows (h : Puts t p n e) : Grows t (t.put (p ++ [n]) e) := by
  refine ⟨rfl, ?_, ?_, rfl, List.suffix_rfl⟩
  · intro q f hf
    rw [get?_put_concat]
    split
    · next hq =>
      subst hq
      rcases h.old with ⟨⟨c, rfl⟩, hold⟩ | ⟨_, hold⟩
      · obtain ⟨d, rfl⟩ := hold f hf
        exact ⟨_, rfl, rfl⟩
      · simp [hold] at hf
    · exact ⟨f, hf, rfl⟩
  · intro q hq
    rw [get?_put_concat]
    split
    · rcases h.old with ⟨⟨c, rfl⟩, _⟩ | ⟨rfl, _⟩
      · exact Or.inr (Or.inl ⟨c, rfl⟩)
      · exact Or.inr (Or.inr rfl)
    · exact Or.inl hq

theorem map_insertEntry (p : Place) (e : Entry) (es : List (Place × Entry)) :
    (insertEntry p e es).map (·.1) = if p ∈ es.map (·.1) then es.map (·.1) else es.map (·.1) ++ [p] := by
  induction es with
  | nil => simp [insertEntry]
  | cons x es ih =>
    obtain ⟨q, f⟩ := x
    by_cases hp : p = q
    · simp [insertEntry, hp]
    · simp only [insertEntry, hp, ↓reduceIte, List.map_cons, ih, List.mem_cons, false_or]
      split <;> simp

theorem Puts.wellFormed (h : Puts t p n e) (ht : t.WellFormed) : (t.put (p ++ [n]) e).WellFormed := by
  have hdir : ∀ {q}, t.get? q = some .dir → (t.put (p ++ [n]) e).get? q = some .dir := h.grows.dir
  refine ⟨?_, ?_, ?_, ?_, hdir ht.cwd, fun hq => hdir (ht.unlisted hq), fun hq => ?_⟩
  · show ((insertEntry (p ++ [n]) e t.entries).map (·.1)).Nodup
    rw [map_insertEntry]
    split
    · exact ht.nodup
    · next hmem =>
      rw [← List.concat_eq_append]
      exact ht.nodup.concat hmem
  · intro q m hs
    rw [get?_put_concat] at hs
    split at hs
    · next hq =>
      obtain ⟨rfl, hm⟩ := List.append_inj' hq rfl
      obtain rfl : m = n := by simpa using hm
      exact h.isFileName
    · exact ht.isFileName hs
  · intro q m hs
    rw [get?_put_concat] at hs
    split at hs
    · next hq =>
      obtain ⟨rfl, -⟩ := List.append_inj' hq rfl
      exact hdir h.parent
    · exact hdir (ht.parent hs)
  · intro q s hs
    exact ht.target ((h.grows.sameLinks q s).mp hs)
  · obtain ⟨c, hc⟩ := ht.locked hq
    exact h.grows.file hc

end Put

section Lock

/-- The tree in which the user may not write the file at a place. -/
def lockAt (t : FileTree) (p : Place) : FileTree :=
  { t with locked := p :: t.locked }

@[simp] theorem get?_lockAt (t : FileTree) (p q : Place) : (t.lockAt p).get? q = t.get? q := rfl

theorem grows_lockAt (t : FileTree) (p : Place) : Grows t (t.lockAt p) :=
  ⟨rfl, fun {_ e} h => ⟨e, h, rfl⟩, fun h => Or.inl h, rfl, List.suffix_cons ..⟩

theorem WellFormed.lockAt (ht : t.WellFormed) {c : ByteArray} (hp : t.get? p = some (.file c)) :
    (t.lockAt p).WellFormed := by
  refine ⟨ht.nodup, ht.isFileName, ht.parent, ht.target, ht.cwd, ht.unlisted, fun hq => ?_⟩
  rcases List.mem_cons.mp hq with rfl | hq
  · exact ⟨c, hp⟩
  · exact ht.locked hq

end Lock

/-- Files written and locked at places `F` and directories made at places `D`, step by step. -/
inductive Edits (F D : Place → Prop) (t : FileTree) : FileTree → Prop where
  | refl : Edits F D t t
  | file {u : FileTree} {p : Place} {n : Name} {c : ByteArray} (before : Edits F D t u)
      (hput : Puts u p n (.file c)) (hp : F (p ++ [n])) : Edits F D t (u.put (p ++ [n]) (.file c))
  | dir {u : FileTree} {p : Place} {n : Name} (before : Edits F D t u) (hput : Puts u p n .dir)
      (hp : D (p ++ [n])) : Edits F D t (u.put (p ++ [n]) .dir)
  | lock {u : FileTree} {p : Place} {c : ByteArray} (before : Edits F D t u)
      (hfile : u.get? p = some (.file c)) (hp : F p) : Edits F D t (u.lockAt p)

variable {F D F' D' : Place → Prop}

theorem Edits.grows (h : Edits F D t u) : Grows t u := by
  induction h with
  | refl => exact Grows.refl t
  | file _ hput _ ih => exact ih.trans hput.grows
  | dir _ hput _ ih => exact ih.trans hput.grows
  | lock _ _ _ ih => exact ih.trans (grows_lockAt _ _)

theorem Edits.wellFormed (h : Edits F D t u) (ht : t.WellFormed) : u.WellFormed := by
  induction h with
  | refl => exact ht
  | file _ hput _ ih => exact hput.wellFormed ih
  | dir _ hput _ ih => exact hput.wellFormed ih
  | lock _ hfile _ ih => exact ih.lockAt hfile

theorem Edits.trans (h : Edits F D t u) (h' : Edits F D u v) : Edits F D t v := by
  induction h' with
  | refl => exact h
  | file _ hput hp ih => exact .file ih hput hp
  | dir _ hput hp ih => exact .dir ih hput hp
  | lock _ hfile hp ih => exact .lock ih hfile hp

theorem Puts.none_of_dir {e : Entry} (h : Puts t p n e) (he : e = .dir) : t.get? (p ++ [n]) = none := by
  rcases h.old with ⟨⟨c, rfl⟩, _⟩ | ⟨_, hold⟩
  · simp at he
  · exact hold

/-- Edits at more places; directories are made only where the first tree has nothing. -/
theorem Edits.imp (h : Edits F D t u) (hF : ∀ q, F q → F' q)
    (hD : ∀ q, t.get? q = none → D q → D' q) : Edits F' D' t u := by
  induction h with
  | refl => exact .refl
  | file _ hput hp ih => exact .file ih hput (hF _ hp)
  | dir before hput hp ih =>
    exact .dir ih hput (hD _ (before.grows.none_of_none (hput.none_of_dir rfl)) hp)
  | lock _ hfile hp ih => exact .lock ih hfile (hF _ hp)

/-- A place holds what it held, unless it may be edited. -/
theorem Edits.get?_eq (h : Edits F D t u) (q : Place) :
    u.get? q = t.get? q ∨ F q ∨ D q ∧ t.get? q = none ∧ u.get? q = some .dir := by
  induction h with
  | refl => exact Or.inl rfl
  | file _ _ hp ih =>
    rw [get?_put_concat]
    split
    · next hq => exact Or.inr (Or.inl (hq ▸ hp))
    · exact ih
  | dir before hput hp ih =>
    rw [get?_put_concat]
    split
    · next hq =>
      subst hq
      exact Or.inr (Or.inr ⟨hp, before.grows.none_of_none (hput.none_of_dir rfl), rfl⟩)
    · exact ih
  | lock _ _ _ ih => exact ih

end FileTree
end Marginalia
