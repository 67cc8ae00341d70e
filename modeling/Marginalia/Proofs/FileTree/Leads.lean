import Mathlib.Data.List.Basic
import Marginalia.Proofs.FileTree.Locate

/-! # Places that need not exist

The place that a path is led to when every link on the way is followed and what does not exist is kept
as it is spelled. A path has at most one such place, and every look-up of the path ends there.
-/
namespace Marginalia.FileTree

open Text

/-- The place that segments lead to from a place. -/
inductive Leads (t : FileTree) : Place → List Name → Place → Prop where
  | here (p : Place) : Leads t p [] p
  | stay {p q : Place} {n : Name} {ns : List Name} (hn : n = [] ∨ n = Marginalia.here)
      (rest : Leads t p ns q) : Leads t p (n :: ns) q
  | up {p q : Place} {ns : List Name} (rest : Leads t p.dropLast ns q) :
      Leads t p (Marginalia.up :: ns) q
  | name {p q : Place} {n : Name} {ns : List Name} (hn : n ≠ []) (hh : n ≠ Marginalia.here)
      (hu : n ≠ Marginalia.up) (hl : ∀ s, t.get? (p ++ [n]) ≠ some (.link s))
      (rest : Leads t (p ++ [n]) ns q) : Leads t p (n :: ns) q
  | link {p q : Place} {n : Name} {ns : List Name} {s : List Char} (hn : n ≠ [])
      (hh : n ≠ Marginalia.here) (hu : n ≠ Marginalia.up) (hl : t.get? (p ++ [n]) = some (.link s))
      (rest : Leads t (startOf s p) (slashParts s ++ ns) q) : Leads t p (n :: ns) q

/-- The place that a path text leads to. -/
def LeadsTo (t : FileTree) (path : List Char) (q : Place) : Prop :=
  t.Leads (startOf path t.cwd) (slashParts path) q

/-- No link stands at a place or below it. -/
def LinkFree (t : FileTree) (p : Place) : Prop :=
  ∀ q, p <+: q → ∀ s, t.get? q ≠ some (.link s)

/-- Two trees with the same links. -/
def SameLinks (t u : FileTree) : Prop :=
  ∀ q s, u.get? q = some (.link s) ↔ t.get? q = some (.link s)

variable {t u : FileTree} {follow : Bool} {links : Nat} {p q r : Place} {n : Name}
  {as ns : List Name} {g : Target}

theorem SameLinks.symm (h : SameLinks t u) : SameLinks u t :=
  fun q s => (h q s).symm

theorem SameLinks.linkFree (h : SameLinks t u) (hp : t.LinkFree p) : u.LinkFree p :=
  fun q hq s hs => hp q hq s ((h q s).mp hs)

theorem Leads.of_sameLinks (h : Leads t p ns q) (hl : SameLinks t u) : Leads u p ns q := by
  induction h with
  | here p => exact .here p
  | stay hn _ ih => exact .stay hn ih
  | up _ ih => exact .up ih
  | name hn hh hu hno _ ih => exact .name hn hh hu (fun s hs => hno s ((hl _ s).mp hs)) ih
  | link hn hh hu hlink _ ih => exact .link hn hh hu ((hl _ _).mpr hlink) ih

theorem Leads.append (h : Leads t p as q) (h' : Leads t q ns r) : Leads t p (as ++ ns) r := by
  induction h with
  | here => exact h'
  | stay hn _ ih => exact .stay hn (ih h')
  | up _ ih => exact .up (ih h')
  | name hn hh hu hno _ ih => exact .name hn hh hu hno (ih h')
  | link hn hh hu hlink _ ih =>
    refine .link hn hh hu hlink ?_
    have := ih h'
    rwa [List.append_assoc] at this

theorem Leads.split (h : Leads t p (as ++ ns) q) :
    ∃ m, Leads t p as m ∧ Leads t m ns q := by
  generalize hms : as ++ ns = ms at h
  induction h generalizing as with
  | here p =>
    obtain ⟨rfl, rfl⟩ := List.append_eq_nil_iff.mp hms
    exact ⟨p, .here p, .here p⟩
  | stay hn rest ih =>
    cases as with
    | nil =>
      cases hms
      exact ⟨_, .here _, .stay hn rest⟩
    | cons a as =>
      cases hms
      obtain ⟨m, hm, hrest⟩ := ih rfl
      exact ⟨m, .stay hn hm, hrest⟩
  | up rest ih =>
    cases as with
    | nil =>
      cases hms
      exact ⟨_, .here _, .up rest⟩
    | cons a as =>
      cases hms
      obtain ⟨m, hm, hrest⟩ := ih rfl
      exact ⟨m, .up hm, hrest⟩
  | name hn hh hu hl rest ih =>
    cases as with
    | nil =>
      cases hms
      exact ⟨_, .here _, .name hn hh hu hl rest⟩
    | cons a as =>
      cases hms
      obtain ⟨m, hm, hrest⟩ := ih rfl
      exact ⟨m, .name hn hh hu hl hm, hrest⟩
  | @link p q n ns s hn hh hu hl rest ih =>
    cases as with
    | nil =>
      cases hms
      exact ⟨_, .here _, .link hn hh hu hl rest⟩
    | cons a as =>
      cases hms
      -- the target of the link comes before what is left, so it counts to what stands before the cut
      obtain ⟨m, hm, hrest⟩ := @ih (slashParts s ++ as) (List.append_assoc ..)
      exact ⟨m, .link hn hh hu hl hm, hrest⟩

/-- A path leads to one place only. -/
theorem Leads.unique (h : Leads t p ns q) (h' : Leads t p ns r) : q = r := by
  induction h with
  | here => cases h'; rfl
  | stay hn _ ih =>
    cases h' with
    | stay _ rest => exact ih rest
    | up => exact absurd hn (by decide)
    | name hn' hh' => exact absurd hn (by simp [hn', hh'])
    | link hn' hh' => exact absurd hn (by simp [hn', hh'])
  | up _ ih =>
    cases h' with
    | stay hn => exact absurd hn (by decide)
    | up rest => exact ih rest
    | name _ _ hu => exact absurd rfl hu
    | link _ _ hu => exact absurd rfl hu
  | name hn hh hu hno _ ih =>
    cases h' with
    | stay hn' => exact absurd hn' (by simp [hn, hh])
    | up => exact absurd rfl hu
    | name _ _ _ _ rest => exact ih rest
    | link _ _ _ hl => exact absurd hl (hno _)
  | link hn hh hu hlink _ ih =>
    cases h' with
    | stay hn' => exact absurd hn' (by simp [hn, hh])
    | up => exact absurd rfl hu
    | name _ _ _ hno => exact absurd hlink (hno _)
    | link _ _ _ hl rest =>
      rw [hlink] at hl
      cases hl
      exact ih rest

theorem leads_of_empty (p : Place) (h : ∀ n ∈ ns, n = []) : Leads t p ns p := by
  induction ns with
  | nil => exact .here p
  | cons n ns ih =>
    exact .stay (Or.inl (h n List.mem_cons_self)) (ih fun m hm => h m (List.mem_cons_of_mem _ hm))

theorem linkFree_of_none (ht : t.WellFormed) (h : t.get? q = none) : t.LinkFree q := by
  rintro _ ⟨r, rfl⟩ s hs
  simp [ht.none_of_none h r] at hs

/-- Where no link stands on the way, names lead to the place they spell. -/
theorem leads_of_linkFree (hp : t.LinkFree p) (hns : ∀ n ∈ ns, IsName n) : Leads t p ns (p ++ ns) := by
  induction ns generalizing p with
  | nil => simpa using Leads.here p
  | cons n ns ih =>
    have hn := hns n List.mem_cons_self
    have hbelow : t.LinkFree (p ++ [n]) := fun q hq => hp q ((List.prefix_append ..).trans hq)
    have := ih hbelow fun m hm => hns m (List.mem_cons_of_mem _ hm)
    rw [List.append_assoc] at this
    exact .name hn.ne_nil hn.ne_here hn.ne_up (hp _ (List.prefix_append ..)) this

/-- A look-up that follows every link, or ends at a free place, ends where the path leads. -/
theorem Located.leads (h : Located t follow links p ns g)
    (hg : follow = true ∨ ∃ q n slash, g = .free q n slash) : Leads t p ns g.place := by
  induction h with
  | here links p => exact .here p
  | stay _ hn _ ih => exact .stay hn (ih hg)
  | up _ _ ih => exact .up (ih hg)
  | name _ hn he hl _ ih =>
    refine .name hn.ne_nil hn.ne_here hn.ne_up (fun s hs => ?_) (ih hg)
    rw [he] at hs
    exact hl s (Option.some.inj hs)
  | free _ hn he hns =>
    exact .name hn.ne_nil hn.ne_here hn.ne_up (fun s hs => by simp [he] at hs) (leads_of_empty _ hns)
  | unfollowed _ _ _ hf => simp [hf] at hg
  | link _ hn he _ _ _ ih => exact .link hn.ne_nil hn.ne_here hn.ne_up he (ih hg)

theorem leads_replicate (k : Nat) :
    Leads t p (List.replicate k [] ++ ns) q ↔ Leads t p ns q := by
  induction k with
  | zero => rfl
  | succ k ih =>
    rw [← ih, List.replicate_succ, List.cons_append]
    constructor
    · intro h
      cases h with
      | stay _ rest => exact rest
      | name hn => exact absurd rfl hn
      | link hn => exact absurd rfl hn
    · exact fun h => .stay (Or.inl rfl) h

/-- The text of an absolute path leads where its names lead from the root. -/
theorem leadsTo_text_iff {P : Path} (hP : P.Rooted) : t.LeadsTo P.text q ↔ t.Leads [] P.segments q := by
  have hhead : P.text.head? = some '/' := (Path.head?_text hP.spelled).mpr hP.root
  obtain ⟨k, hk⟩ := Path.slashParts_text hP
  rw [LeadsTo, startOf, if_pos hhead, hk, leads_replicate]

end Marginalia.FileTree
