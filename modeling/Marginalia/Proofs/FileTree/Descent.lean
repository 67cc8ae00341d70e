import Mathlib.Data.List.Basic
import Mathlib.Data.List.Flatten
import Marginalia.Proofs.FileTree.Leads

/-! # How far down a path can lead

Between two links a path goes down by at most the height of the tree, and it may follow forty links. So a
path of names that leads anywhere is no longer than `FileTree.reach`, however its links run. A chain of
entries that comes back to where it started can be walked again and again, past every such bound.
-/
namespace Marginalia.FileTree

open Text

/-- How far below the root the deepest entry lies. -/
def height (t : FileTree) : Nat :=
  t.entries.foldr (fun x m => max x.1.length m) 0

/-- How many names a path through links may have. -/
def reach (t : FileTree) : Nat :=
  t.height + maxLinks * (t.height + 1)

variable {t : FileTree} {links : Nat} {p q r : Place} {as ms ns : List Name} {n : Name}

section Height

theorem length_le_foldr {x : Place × Entry} {entries : List (Place × Entry)} (hx : x ∈ entries) :
    x.1.length ≤ entries.foldr (fun x m => max x.1.length m) 0 := by
  induction entries with
  | nil => simp at hx
  | cons y entries ih =>
    rw [List.foldr_cons]
    rcases List.mem_cons.mp hx with rfl | hx
    · exact Nat.le_max_left ..
    · exact (ih hx).trans (Nat.le_max_right ..)

theorem length_le_height (h : (t.get? p).isSome) : p.length ≤ t.height := by
  by_cases hp : p = []
  · simp [hp]
  · rw [get?, if_neg hp, lookup_isSome_iff] at h
    obtain ⟨e, he⟩ := h
    exact length_le_foldr he

/-- The names of a path that are left while links are followed: each link costs at most one way down
through the tree. `as` is what is left of the targets of links. -/
theorem Located.length_le {e : Entry} (h : Located t true links p (as ++ ns) (.found q e))
    (hp : (t.get? p).isSome) (hns : ∀ n ∈ ns, IsName n) (ht : t.WellFormed) :
    ns.length + (if as = [] then p.length else 0) ≤ t.height + links * (t.height + 1) := by
  generalize hms : as ++ ns = ms at h
  generalize hg : Target.found q e = g at h
  -- A name goes one step down, so it keeps the sum. A link takes one from the budget and may start over
  -- at the root, with its target before the names that are left: then the depth no longer counts.
  induction h generalizing as ns with
  | here links p =>
    obtain ⟨rfl, rfl⟩ := List.append_eq_nil_iff.mp hms
    have := length_le_height hp
    simp only [List.length_nil, ↓reduceIte]
    omega
  | @stay links p m ms g hd hm rest ih =>
    cases as with
    | nil =>
      obtain rfl : ns = m :: ms := hms
      have hname := hns m List.mem_cons_self
      exact absurd hm (by simp [hname.ne_nil, hname.ne_here])
    | cons a as =>
      cases hms
      have := ih hp hns rfl hg
      rw [if_neg (List.cons_ne_nil _ as)]
      omega
  | @up links p ms g hd rest ih =>
    cases as with
    | nil =>
      obtain rfl : ns = Marginalia.up :: ms := hms
      exact absurd rfl (hns _ List.mem_cons_self).ne_up
    | cons a as =>
      cases hms
      have := ih (by simp [ht.dropLast hd]) hns rfl hg
      rw [if_neg (List.cons_ne_nil _ as)]
      omega
  | @name links p m ms g f hd hm hf hl rest ih =>
    cases as with
    | nil =>
      obtain rfl : ns = m :: ms := hms
      have := @ih [] ms (by simp [hf]) (fun n hn => hns n (List.mem_cons_of_mem _ hn)) rfl hg
      simp only [↓reduceIte, List.length_append, List.length_cons] at this ⊢
      omega
    | cons a as =>
      cases hms
      have := ih (by simp [hf]) hns rfl hg
      rw [if_neg (List.cons_ne_nil _ as)]
      omega
  | free => simp at hg
  | unfollowed _ _ _ hf => simp at hf
  | @link links p m ms g s hd hm hs hf hne rest ih =>
    have hstart : (t.get? (startOf s p)).isSome := by
      unfold startOf
      split <;> simp [hd, get?_nil]
    have hparts : slashParts s ≠ [] := List.splitOn_ne_nil '/' s
    have hbudget : (links + 1) * (t.height + 1) = links * (t.height + 1) + (t.height + 1) :=
      Nat.succ_mul ..
    cases as with
    | nil =>
      obtain rfl : ns = m :: ms := hms
      have := @ih (slashParts s) ms hstart (fun n hn => hns n (List.mem_cons_of_mem _ hn)) rfl hg
      have hheight : p.length ≤ t.height := length_le_height (by simp [hd])
      rw [if_neg hparts] at this
      simp only [↓reduceIte, List.length_cons]
      omega
    | cons a as =>
      cases hms
      have := @ih (slashParts s ++ as) ns hstart hns (by simp) hg
      rw [if_neg (by simp [hparts])] at this
      rw [if_neg (List.cons_ne_nil _ as)]
      omega

/-- A path of names that leads to an entry stays within reach. -/
theorem length_le_reach (ht : t.WellFormed) {P : Path} (hP : P.Rooted) {e : Entry}
    (h : t.stat P.text = .ok (q, e)) : P.segments.length ≤ t.reach := by
  have hl := ((locate_text_iff hP).mp (stat_eq_ok_iff.mp h)).2.2
  have hlen := @Located.length_le _ _ _ _ [] _ _ hl (by simp [get?_nil]) hP.names ht
  simpa [reach] using hlen

end Height

section Descends

/-- A chain of names from a directory down, each an entry of the directory that the names before it
lead to, links followed. -/
inductive Descends (t : FileTree) : Place → List Name → Place → Prop where
  | here (p : Place) : Descends t p [] p
  | step {p q r : Place} {n : Name} {ns : List Name} (hn : (t.get? (p ++ [n])).isSome)
      (hleads : t.Leads p [n] q) (hdir : t.get? q = some .dir) (rest : Descends t q ns r) :
      Descends t p (n :: ns) r

theorem Descends.append (h : Descends t p ms q) (h' : Descends t q ns r) :
    Descends t p (ms ++ ns) r := by
  induction h with
  | here => exact h'
  | step hn hleads hdir _ ih => exact .step hn hleads hdir (ih h')

/-- A way back to where it started can be gone any number of times. -/
theorem Descends.iterate (h : Descends t p ns p) (k : Nat) :
    Descends t p (List.replicate k ns).flatten p := by
  induction k with
  | zero => exact .here p
  | succ k ih =>
    rw [List.replicate_succ, List.flatten_cons]
    exact h.append ih

end Descends

end Marginalia.FileTree
