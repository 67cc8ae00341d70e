import Mathlib.Logic.Relation
import Marginalia.Proofs.Path.Absolute

/-! # Spellings of one path

A path text can be spelled with segments that stay in place, with steps down that are taken back, with more
slashes than needed, or from the root. All spellings lead to the same names; they have one absolute form
exactly when both or neither start with two slashes and no third, which are a root of their own.
-/
namespace Marginalia.Path

open Text

/-- One way to spell a path text shorter, or to spell it from the directory it is seen from. -/
inductive Shortens (cwd : List Char) : List Char → List Char → Prop where
  | stay (a b : List Char) : Shortens cwd (a ++ '/' :: '.' :: '/' :: b) (a ++ '/' :: b)
  | stayFirst {b : List Char} (hb : b.head? ≠ some '/') : Shortens cwd ('.' :: '/' :: b) b
  | slash (a b : List Char) : Shortens cwd (a ++ '/' :: '/' :: b) (a ++ '/' :: b)
  | slashLast {a : List Char} (ha : a ≠ []) : Shortens cwd (a ++ ['/']) a
  | up (a b : List Char) {n : Name} (hn : IsName n) :
      Shortens cwd (a ++ '/' :: (n ++ '/' :: '.' :: '.' :: '/' :: b)) (a ++ '/' :: b)
  | upFirst {b : List Char} {n : Name} (hn : IsName n) (hb : b.head? ≠ some '/') :
      Shortens cwd (n ++ '/' :: '.' :: '.' :: '/' :: b) b
  | upRoot (b : List Char) : Shortens cwd ('/' :: '.' :: '.' :: '/' :: b) ('/' :: b)
  | relative {b : List Char} (hb : b.head? ≠ some '/') : Shortens cwd (joined cwd b) b

/-- Two spellings of a path, seen from a directory. -/
def Respelled (cwd : List Char) : List Char → List Char → Prop :=
  Relation.EqvGen (Shortens cwd)

variable {cwd a b : List Char}

/-- The segments that a path text is read behind. -/
def front (cwd s : List Char) : List Name :=
  if s.head? = some '/' then [] else (parse cwd).segments

theorem segments_seen (h : IsBase cwd) (s : List Char) :
    (seen cwd s).segments = collapseOnto true [] (front cwd s ++ keptParts (slashParts s)) := by
  unfold front
  by_cases hs : s.head? = some '/'
  · have hroot : Root.of s ≠ .none := rootOf_ne_none_iff.mpr hs
    rw [if_pos hs, seen, joined_of_head hs]
    simp only [collapse, root_parse, ne_eq, hroot, not_false_eq_true, decide_true]
    rfl
  · have hroot : Root.of cwd ≠ .none := rootOf_ne_none_iff.mpr h.head
    rw [if_neg hs, seen, parse_joined h.ne_nil hs]
    simp only [collapse, ne_eq, hroot, not_false_eq_true, decide_true]
    rfl

theorem front_append_cons (cwd a : List Char) (c : Char) (x : List Char) :
    front cwd (a ++ c :: x) = front cwd (a ++ [c]) := by
  cases a <;> rfl

theorem keptParts_append_cons (a b : List Char) :
    keptParts (slashParts (a ++ '/' :: b)) = keptParts (slashParts a) ++ keptParts (slashParts b) := by
  rw [slashParts_append_cons, keptParts_append]

theorem keptParts_dot (b : List Char) :
    keptParts (slashParts ('.' :: '/' :: b)) = keptParts (slashParts b) := by
  have hdot : keptParts (slashParts here) = [] := by decide
  have h := keptParts_append_cons here b
  rwa [hdot] at h

theorem keptParts_slash (b : List Char) :
    keptParts (slashParts ('/' :: b)) = keptParts (slashParts b) :=
  keptParts_text_append .single b

theorem keptParts_up (b : List Char) :
    keptParts (slashParts ('.' :: '.' :: '/' :: b)) = up :: keptParts (slashParts b) := by
  have hup : keptParts (slashParts up) = [up] := by decide
  have h := keptParts_append_cons up b
  rwa [hup] at h

theorem keptParts_back {n : Name} (hn : IsName n) (b : List Char) :
    keptParts (slashParts (n ++ '/' :: '.' :: '.' :: '/' :: b)) =
      n :: up :: keptParts (slashParts b) := by
  have hname : keptParts (slashParts n) = [n] := by
    rw [← segments_parse, parse_of_isName hn]
  rw [keptParts_append_cons, keptParts_up, hname]
  rfl

theorem front_of_head_ne (h : b.head? ≠ some '/') : front cwd b = (parse cwd).segments :=
  if_neg h

theorem head?_name_append {n : Name} (hn : IsName n) (x : List Char) : (n ++ x).head? ≠ some '/' := by
  obtain ⟨c, m, rfl⟩ := List.exists_cons_of_ne_nil hn.ne_nil
  exact hn.head_ne_slash

/-- A shorter spelling leads to the same names. -/
theorem Shortens.segments_seen (hcwd : IsBase cwd) (h : Shortens cwd a b) :
    (seen cwd a).segments = (seen cwd b).segments := by
  rw [Path.segments_seen hcwd, Path.segments_seen hcwd]
  cases h with
  | stay a b =>
    rw [front_append_cons, front_append_cons _ _ _ b, keptParts_append_cons, keptParts_append_cons,
      keptParts_dot]
  | stayFirst hb =>
    rw [front_of_head_ne hb, front_of_head_ne (by simp), keptParts_dot]
  | slash a b =>
    rw [front_append_cons, front_append_cons _ _ _ b, keptParts_append_cons, keptParts_append_cons,
      keptParts_slash]
  | slashLast ha =>
    obtain ⟨c, a, rfl⟩ := List.exists_cons_of_ne_nil ha
    have hnil : keptParts (slashParts []) = [] := by decide
    rw [keptParts_append_cons, hnil, List.append_nil]
    rfl
  -- a step up takes back the name before it, in whatever stands in front
  | up a b hn =>
    rw [front_append_cons, front_append_cons _ _ _ b, keptParts_append_cons, keptParts_append_cons a b,
      keptParts_back hn, ← List.append_assoc, ← List.append_assoc]
    exact collapseOnto_cancel _ _ _ _ hn.ne_up
  | upFirst hn hb =>
    rw [front_of_head_ne hb, front_of_head_ne (head?_name_append hn _), keptParts_back hn]
    exact collapseOnto_cancel _ _ _ _ hn.ne_up
  | upRoot b =>
    have hfront : ∀ x, front cwd ('/' :: x) = [] := fun x => if_pos rfl
    rw [hfront, hfront, keptParts_slash, keptParts_slash, keptParts_up, List.nil_append,
      collapseOnto_up_nil]
    rfl
  | relative hb =>
    have hhead := head?_joined_base hcwd b
    have hparts : keptParts (slashParts (joined cwd b)) =
        (parse cwd).segments ++ keptParts (slashParts b) := by
      rw [← segments_parse, parse_joined hcwd.ne_nil hb]
      rfl
    rw [front_of_head_ne hb, front, if_pos hhead, hparts, List.nil_append]

theorem Respelled.segments_seen (hcwd : IsBase cwd) (h : Respelled cwd a b) :
    (seen cwd a).segments = (seen cwd b).segments := by
  induction h with
  | rel a b h => exact h.segments_seen hcwd
  | refl a => rfl
  | symm a b _ ih => exact ih.symm
  | trans a b c _ _ ih ih' => exact ih.trans ih'

theorem root_seen_eq_double_iff (hcwd : IsBase cwd) (hroot : Root.of cwd = .single) (s : List Char) :
    (seen cwd s).root = .double ↔ Root.of s = .double := by
  by_cases hs : s.head? = some '/'
  · rw [seen, joined_of_head hs]
    rfl
  · rw [seen, parse_joined hcwd.ne_nil hs, rootOf_of_head_ne hs]
    simp [collapse, hroot]

/-- Spellings of one path have one absolute form when both or neither have two slashes for a root. -/
theorem Respelled.absolute_eq_iff (hcwd : IsBase cwd) (hroot : Root.of cwd = .single)
    (h : Respelled cwd a b) :
    absolute cwd a = absolute cwd b ↔ (Root.of a = .double ↔ Root.of b = .double) := by
  have hsegs := h.segments_seen hcwd
  have ha := (rooted_seen hcwd a).root
  have hb := (rooted_seen hcwd b).root
  have hseen : absolute cwd a = absolute cwd b ↔ seen cwd a = seen cwd b := by
    constructor
    · intro heq
      rw [← parse_absolute, ← parse_absolute, heq]
    · intro heq
      rw [absolute_eq, absolute_eq, heq]
  rw [hseen, ← root_seen_eq_double_iff hcwd hroot, ← root_seen_eq_double_iff hcwd hroot]
  generalize seen cwd a = p at hsegs ha
  generalize seen cwd b = q at hsegs hb
  obtain ⟨r, ns⟩ := p
  obtain ⟨r', ns'⟩ := q
  cases hsegs
  cases r <;> cases r' <;> simp_all

end Marginalia.Path
