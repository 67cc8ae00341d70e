import Mathlib.Data.List.Basic
import Mathlib.Data.List.Induction
import Marginalia.Proofs.FileTree.WellFormed

/-! # Where paths lead

A path that can be looked up is led to a place step by step. The steps are those of `Located`; looking
up succeeds exactly along them. Where no link stands on the way, the place is the path itself.
-/
namespace Marginalia.FileTree

open Text

/-- A segment that is looked up in a directory. -/
structure Fits (n : Name) : Prop where
  ne_nil : n ≠ []
  ne_here : n ≠ here
  ne_up : n ≠ up
  short : byteLength n ≤ 255

/-- Where a link is read from: its target starts at the root or in the directory of the link. -/
def startOf (s : List Char) (p : Place) : Place :=
  if s.head? = some '/' then [] else p

/-- The steps of a successful look-up. -/
inductive Located (t : FileTree) (follow : Bool) : Nat → Place → List Name → Target → Prop where
  | here (links : Nat) (p : Place) : Located t follow links p [] (.found p ((t.get? p).getD .dir))
  | stay {links p n ns g} (hp : t.get? p = some .dir) (hn : n = [] ∨ n = Marginalia.here)
      (rest : Located t follow links p ns g) : Located t follow links p (n :: ns) g
  | up {links p ns g} (hp : t.get? p = some .dir) (rest : Located t follow links p.dropLast ns g) :
      Located t follow links p (Marginalia.up :: ns) g
  | name {links p n ns g e} (hp : t.get? p = some .dir) (hn : Fits n)
      (he : t.get? (p ++ [n]) = some e) (hl : ∀ s, e ≠ .link s)
      (rest : Located t follow links (p ++ [n]) ns g) : Located t follow links p (n :: ns) g
  | free {links p n ns} (hp : t.get? p = some .dir) (hn : Fits n) (he : t.get? (p ++ [n]) = none)
      (hns : ∀ m ∈ ns, m = []) : Located t follow links p (n :: ns) (.free p n (!ns.isEmpty))
  | unfollowed {links p n s} (hp : t.get? p = some .dir) (hn : Fits n)
      (he : t.get? (p ++ [n]) = some (.link s)) (hf : follow = false) :
      Located t follow links p [n] (.found (p ++ [n]) (.link s))
  | link {links p n ns g s} (hp : t.get? p = some .dir) (hn : Fits n)
      (he : t.get? (p ++ [n]) = some (.link s)) (hf : ns ≠ [] ∨ follow = true) (hs : s ≠ [])
      (rest : Located t follow links (startOf s p) (slashParts s ++ ns) g) :
      Located t follow (links + 1) p (n :: ns) g

variable {t : FileTree} {follow : Bool} {links : Nat} {p q : Place} {n : Name} {ns : List Name}
  {g : Target}

theorem fits_of (hn : ¬ (decide (n = []) || decide (n = here)) = true) (hu : n ≠ up)
    (hlen : ¬ 255 < byteLength n) : Fits n := by
  simp only [Bool.or_eq_true, decide_eq_true_eq, not_or] at hn
  exact ⟨hn.1, hn.2, hu, Nat.le_of_not_lt hlen⟩

/-- Looking up succeeds only along the steps. -/
theorem located_of_locateFrom (h : t.locateFrom follow links p ns = .ok g) :
    Located t follow links p ns g := by
  fun_induction FileTree.locateFrom t follow links p ns with
  | case1 =>
    cases h
    exact .here ..
  | case2 links p n ns hp hn ih => exact .stay hp (by simpa using hn) (ih h)
  | case3 links p ns hp _ ih => exact .up hp (ih h)
  | case5 links p n ns hp hn hu hlen he hns =>
    cases h
    exact .free hp (fits_of hn hu hlen) he (by simpa using hns)
  | case7 links p n ns hp hn hu hlen s he hf =>
    cases h
    obtain ⟨rfl, hfollow⟩ : ns = [] ∧ follow = false := by simpa using hf
    exact .unfollowed hp (fits_of hn hu hlen) he hfollow
  | case10 p n ns hp hn hu hlen s he hf links hs ih =>
    have hf : ns ≠ [] ∨ follow = true := by
      by_cases hns : ns = []
      · exact Or.inr (by simpa [hns] using hf)
      · exact Or.inl hns
    exact .link hp (fits_of hn hu hlen) he hf (by simpa using hs) (ih h)
  | case11 links p n ns hp hn hu hlen e hl he ih =>
    exact .name hp (fits_of hn hu hlen) he hl (ih h)
  | case4 => simp at h
  | case6 => simp at h
  | case8 => simp at h
  | case9 => simp at h
  | case12 => simp at h

theorem Located.locateFrom (h : Located t follow links p ns g) :
    t.locateFrom follow links p ns = .ok g := by
  induction h with
  | here links p => rw [FileTree.locateFrom]
  | stay hp hn rest ih =>
    rw [FileTree.locateFrom]
    simp [hp, hn, ih]
  | up hp rest ih =>
    have hup : Marginalia.up ≠ [] ∧ Marginalia.up ≠ Marginalia.here := by decide
    rw [FileTree.locateFrom]
    simp [hp, hup, ih]
  | @name links p n ns g e hp hn he hl rest ih =>
    rw [FileTree.locateFrom]
    cases e with
    | link s => exact absurd rfl (hl s)
    | _ => simp [hp, hn.ne_nil, hn.ne_here, hn.ne_up, Nat.not_lt.mpr hn.short, he, ih]
  | free hp hn he hns =>
    rw [FileTree.locateFrom]
    simp only [hp, hn.ne_nil, hn.ne_here, hn.ne_up, Nat.not_lt.mpr hn.short, he]
    simpa using hns
  | unfollowed hp hn he hf =>
    rw [FileTree.locateFrom]
    simp [hp, hn.ne_nil, hn.ne_here, hn.ne_up, Nat.not_lt.mpr hn.short, he, hf]
  | @link links p n ns g s hp hn he hf hs rest ih =>
    have hgo : (ns.isEmpty && !follow) = false := by
      rcases hf with hf | hf <;> simp [hf]
    rw [FileTree.locateFrom]
    simp only [hp, hn.ne_nil, hn.ne_here, hn.ne_up, Nat.not_lt.mpr hn.short, he, hgo]
    simpa [hs, startOf] using ih

theorem locateFrom_eq_ok_iff :
    t.locateFrom follow links p ns = .ok g ↔ Located t follow links p ns g :=
  ⟨located_of_locateFrom, Located.locateFrom⟩

theorem Located.here_of {e : Entry} (h : t.get? p = some e) :
    Located t follow links p [] (.found p e) := by
  have hhere : Located t follow links p [] (.found p ((t.get? p).getD .dir)) := .here links p
  rwa [h] at hhere

/-- A look-up that goes on after some segments was led to a directory by them. -/
theorem Located.split {as : List Name} (h : Located t follow links p (as ++ n :: ns) g) (hn : n ≠ []) :
    ∃ links' q, Located t true links p as (.found q .dir) ∧ t.get? q = some .dir ∧
      Located t follow links' q (n :: ns) g := by
  generalize hms : as ++ n :: ns = ms at h
  induction h generalizing as with
  | here => simp at hms
  | @stay links p m ms g hp hm rest ih =>
    cases as with
    | nil =>
      cases hms
      exact ⟨links, p, here_of hp, hp, .stay hp hm rest⟩
    | cons a as =>
      cases hms
      obtain ⟨links', q, hq, hd, hrest⟩ := ih rfl
      exact ⟨links', q, .stay hp hm hq, hd, hrest⟩
  | @up links p ms g hp rest ih =>
    cases as with
    | nil =>
      cases hms
      exact ⟨links, p, here_of hp, hp, .up hp rest⟩
    | cons a as =>
      cases hms
      obtain ⟨links', q, hq, hd, hrest⟩ := ih rfl
      exact ⟨links', q, .up hp hq, hd, hrest⟩
  | @name links p m ms g e hp hm he hl rest ih =>
    cases as with
    | nil =>
      cases hms
      exact ⟨links, p, here_of hp, hp, .name hp hm he hl rest⟩
    | cons a as =>
      cases hms
      obtain ⟨links', q, hq, hd, hrest⟩ := ih rfl
      exact ⟨links', q, .name hp hm he hl hq, hd, hrest⟩
  | @free links p m ms hp hm he hall =>
    cases as with
    | nil =>
      cases hms
      exact ⟨links, p, here_of hp, hp, .free hp hm he hall⟩
    | cons a as =>
      cases hms
      -- behind a free place only slashes are left
      exact absurd (hall n (by simp)) hn
  | @unfollowed links p m s hp hm he hf =>
    cases as with
    | nil =>
      cases hms
      exact ⟨links, p, here_of hp, hp, .unfollowed hp hm he hf⟩
    | cons a as => simp at hms
  | @link links p m ms g s hp hm he hf hs rest ih =>
    cases as with
    | nil =>
      cases hms
      exact ⟨links + 1, p, here_of hp, hp, .link hp hm he hf hs rest⟩
    | cons a as =>
      cases hms
      -- the target of the link comes before what is left, so it counts to what stands before the cut
      obtain ⟨links', q, hq, hd, hrest⟩ := @ih (slashParts s ++ as) (by simp)
      exact ⟨links', q, .link hp hm he (Or.inr rfl) hs hq, hd, hrest⟩

section Place

/-- The place that a look-up ends at, also when it is free. -/
def Target.place : Target → Place
  | .found p _ => p
  | .free p n _ => p ++ [n]

/-- What a look-up says about the tree. -/
def Target.Holds (t : FileTree) : Target → Prop
  | .found p e => t.get? p = some e
  | .free p n _ => t.get? p = some .dir ∧ t.get? (p ++ [n]) = none ∧ Fits n

theorem WellFormed.dropLast (ht : t.WellFormed) (hp : t.get? p = some .dir) :
    t.get? p.dropLast = some .dir :=
  ht.get?_of_prefix p.dropLast_prefix hp

/-- A look-up that starts at an entry tells what the tree holds. -/
theorem Located.holds (ht : t.WellFormed) (h : Located t follow links p ns g)
    (hp : (t.get? p).isSome) : g.Holds t := by
  induction h with
  | here links p =>
    obtain ⟨e, he⟩ := Option.isSome_iff_exists.mp hp
    simp [Target.Holds, he]
  | stay _ _ _ ih => exact ih hp
  | up hd _ ih => exact ih (by simp [ht.dropLast hd])
  | name _ _ he _ _ ih => exact ih (by simp [he])
  | free hd hn he _ => exact ⟨hd, he, hn⟩
  | unfollowed _ _ he _ => exact he
  | @link links p n ns g s hd hn he hf hs _ ih =>
    refine ih ?_
    unfold startOf
    split <;> simp [hd, get?_nil]

/-- The name of a free place is a segment of the path or of a link on the way. -/
theorem Located.isFileName (ht : t.WellFormed) {m : Name} {slash : Bool}
    (h : Located t follow links p ns (.free q m slash))
    (hns : ∀ n ∈ ns, '/' ∉ n ∧ Char.ofNat 0 ∉ n) : IsFileName m := by
  generalize hg : Target.free q m slash = g at h
  induction h with
  | here => simp at hg
  | stay _ _ _ ih => exact ih (fun n hn => hns n (List.mem_cons_of_mem _ hn)) hg
  | up _ _ ih => exact ih (fun n hn => hns n (List.mem_cons_of_mem _ hn)) hg
  | name _ _ _ _ _ ih => exact ih (fun n hn => hns n (List.mem_cons_of_mem _ hn)) hg
  | free _ hn _ _ =>
    cases hg
    have := hns m List.mem_cons_self
    exact ⟨⟨⟨hn.ne_nil, hn.ne_here, this.1⟩, hn.ne_up⟩, this.2⟩
  | unfollowed => simp at hg
  | @link links p n ns g s _ _ he _ _ _ ih =>
    refine ih ?_ hg
    intro k hk
    rcases List.mem_append.mp hk with hk | hk
    · refine ⟨not_mem_of_mem_splitOn hk, fun h0 => ht.target he ?_⟩
      exact mem_of_mem_slashParts hk h0
    · exact hns k (List.mem_cons_of_mem _ hk)

/-- Where no link stands on the way, a path of names leads to itself. -/
theorem Located.place_eq (h : Located t follow links p ns g) (hns : ∀ n ∈ ns, IsName n)
    (hl : ∀ ms, ms <+: ns → ∀ s, t.get? (p ++ ms) ≠ some (.link s)) : g.place = p ++ ns := by
  induction h with
  | here => simp [Target.place]
  | stay _ hn _ _ =>
    have := hns _ List.mem_cons_self
    rcases hn with rfl | rfl
    · exact absurd rfl this.ne_nil
    · exact absurd rfl this.ne_here
  | up => exact absurd rfl (hns _ List.mem_cons_self).ne_up
  | @name links p n ns g e _ _ _ _ _ ih =>
    rw [ih (fun m hm => hns m (List.mem_cons_of_mem _ hm))]
    · simp
    · intro ms hms s
      rw [List.append_assoc]
      exact hl (n :: ms) ((List.prefix_cons_inj n).mpr hms) s
  | @free links p n ns _ _ _ hall =>
    obtain rfl : ns = [] := by
      cases ns with
      | nil => rfl
      | cons m ns =>
        have hm := hns m (by simp)
        exact absurd (hall m (by simp)) hm.ne_nil
    rfl
  | @unfollowed links p n s _ _ he _ => exact absurd he (hl [n] List.prefix_rfl s)
  | @link links p n ns g s _ _ he _ _ _ _ =>
    exact absurd he (hl [n] (by simp) s)

end Place

section Text

theorem located_root_nil : Located t follow links [] ([] :: ns) g ↔ Located t follow links [] ns g := by
  constructor
  · intro h
    cases h with
    | stay _ _ rest => exact rest
    | name _ hn => exact absurd rfl hn.ne_nil
    | free _ hn => exact absurd rfl hn.ne_nil
    | unfollowed _ hn => exact absurd rfl hn.ne_nil
    | link _ hn => exact absurd rfl hn.ne_nil
  · exact fun h => .stay (get?_nil t) (Or.inl rfl) h

theorem located_replicate (k : Nat) :
    Located t follow links [] (List.replicate k [] ++ ns) g ↔ Located t follow links [] ns g := by
  induction k with
  | zero => rfl
  | succ k ih => rw [← ih, List.replicate_succ, List.cons_append, located_root_nil]

/-- The text of an absolute path is looked up by its names. -/
theorem located_text {P : Path} (hP : P.Rooted) :
    Located t follow links [] (slashParts P.text) g ↔ Located t follow links [] P.segments g := by
  obtain ⟨k, hk⟩ := Path.slashParts_text hP
  rw [hk, located_replicate]

theorem locate_eq_ok_iff {path : List Char} :
    t.locate path follow = .ok g ↔ Char.ofNat 0 ∉ path ∧ path ≠ [] ∧ byteLength path < 4096 ∧
      Located t follow maxLinks (startOf path t.cwd) (slashParts path) g := by
  rw [← locateFrom_eq_ok_iff, locate]
  by_cases h0 : Char.ofNat 0 ∈ path
  · simp [h0]
  · by_cases hnil : path = []
    · simp [hnil]
    · by_cases hlen : 4096 ≤ byteLength path
      · simp [h0, hnil, hlen, Nat.not_lt.mpr hlen]
      · have hlt := Nat.lt_of_not_le hlen
        simp only [h0, hlen, hlt, startOf]
        cases t.locateFrom follow maxLinks (if path.head? = some '/' then [] else t.cwd)
          (slashParts path) <;> simp [hnil, h0]

theorem locate_text_iff {P : Path} (hP : P.Rooted) :
    t.locate P.text follow = .ok g ↔ Char.ofNat 0 ∉ P.text ∧ byteLength P.text < 4096 ∧
      Located t follow maxLinks [] P.segments g := by
  have hhead : P.text.head? = some '/' := (Path.head?_text hP.spelled).mpr hP.root
  have hne : P.text ≠ [] := Path.text_ne_nil hP.spelled
  rw [locate_eq_ok_iff, startOf, if_pos hhead, located_text hP]
  simp [hne]

theorem stat_eq_ok_iff {path : List Char} {e : Entry} :
    t.stat path = .ok (p, e) ↔ t.locate path true = .ok (.found p e) := by
  rw [stat]
  cases h : t.locate path true with
  | error f => simp [bind, Except.bind]
  | ok g => cases g <;> simp [bind, Except.bind]

theorem length_le_byteLength (s : List Char) : s.length ≤ byteLength s := by
  induction s with
  | nil => simp
  | cons c s ih =>
    have hc := c.utf8Size_pos
    simp only [byteLength, List.map_cons, total, List.length_cons] at ih ⊢
    omega

/-- A path that leads anywhere has fewer names than it may have bytes. -/
theorem length_lt_of_locate {P : Path} (hP : P.Rooted) (h : t.locate P.text follow = .ok g) :
    P.segments.length < 4096 := by
  have hlen := ((locate_text_iff hP).mp h).2.1
  have h1 := Path.length_le_text hP.spelled
  have h2 := length_le_byteLength P.text
  omega

/-- A place free of links on its way, seen as a path. -/
theorem stat_of_dir (ht : t.WellFormed) {P : Path} (hP : P.Rooted) (hd : t.get? P.segments = some .dir)
    {e : Entry} (h : t.stat P.text = .ok (p, e)) : e = .dir := by
  have hl := ((locate_text_iff hP).mp (stat_eq_ok_iff.mp h)).2.2
  have hplace := hl.place_eq hP.names fun ms hms s hlink => by
    have := ht.get?_of_prefix hms hd
    simp [this] at hlink
  have hholds := hl.holds ht (by simp [get?_nil])
  simp only [Target.place, Target.Holds, List.nil_append] at hplace hholds
  rw [hplace, hd] at hholds
  exact (Option.some.inj hholds).symm

end Text

end Marginalia.FileTree
