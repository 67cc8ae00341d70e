import Mathlib.Data.List.Basic
import Marginalia.Path
import Marginalia.Proofs.Text.Lines

/-! # Paths as texts

Reading the text of a path gives the path back. Putting a name behind a path text adds a segment,
whatever the spelling, and a text in its shortest spelling leads to the same absolute path as the text
itself.
-/
namespace Marginalia

open Text

/-- A name that a path can hold between slashes. -/
structure IsSegment (n : Name) : Prop where
  ne_nil : n ≠ []
  ne_here : n ≠ here
  no_slash : '/' ∉ n

/-- A segment that names an entry of a directory. -/
structure IsName (n : Name) : Prop extends IsSegment n where
  ne_up : n ≠ up

theorem isSegment_up : IsSegment up := ⟨by decide, by decide, by decide⟩

theorem IsSegment.head_ne_slash {n : Name} (h : IsSegment n) : n.head? ≠ some '/' := by
  intro hn
  exact h.no_slash (List.mem_of_mem_head? hn)

theorem slashParts_append_cons (a b : List Char) :
    slashParts (a ++ '/' :: b) = slashParts a ++ slashParts b :=
  List.splitOn_append_cons_self a b

theorem slashParts_of_no_slash {a : List Char} (h : '/' ∉ a) : slashParts a = [a] :=
  List.splitOn_eq_singleton h

theorem mem_of_mem_slashParts {s : List Char} {n : Name} (h : n ∈ slashParts s) {c : Char}
    (hc : c ∈ n) : c ∈ s := by
  rw [slashParts, List.splitOn_eq_splitOnP] at h
  exact mem_of_mem_splitOnP h hc

theorem slashParts_join {ns : List Name} (hne : ns ≠ []) (h : ∀ n ∈ ns, IsSegment n) :
    slashParts (join ['/'] ns) = ns :=
  splitOn_join hne fun n hn => (h n hn).no_slash

theorem join_ne_nil {ns : List Name} (hne : ns ≠ []) (h : ∀ n ∈ ns, IsSegment n) :
    join ['/'] ns ≠ [] := by
  obtain ⟨n, ms, rfl⟩ := List.exists_cons_of_ne_nil hne
  have hn := (h n List.mem_cons_self).ne_nil
  cases ms with
  | nil => exact hn
  | cons m ms => simp [join_cons_cons, hn]

theorem head?_join {ns : List Name} (hne : ns ≠ []) (h : ∀ n ∈ ns, IsSegment n) :
    (join ['/'] ns).head? ≠ some '/' := by
  obtain ⟨n, ms, rfl⟩ := List.exists_cons_of_ne_nil hne
  have hn := h n List.mem_cons_self
  obtain ⟨c, n', rfl⟩ := List.exists_cons_of_ne_nil hn.ne_nil
  cases ms with
  | nil => exact hn.head_ne_slash
  | cons m ms => simpa [join_cons_cons] using hn.head_ne_slash

theorem join_append_singleton {ns : List Name} (hne : ns ≠ []) (n : Name) :
    join ['/'] (ns ++ [n]) = join ['/'] ns ++ '/' :: n :=
  join_append hne (by simp)

/-- The segments that a path text keeps of its parts. -/
def keptParts (ns : List Name) : List Name :=
  ns.filter fun n => n ≠ [] && n ≠ here

theorem keptParts_append (as bs : List Name) : keptParts (as ++ bs) = keptParts as ++ keptParts bs :=
  List.filter_append ..

theorem keptParts_of_isSegment {ns : List Name} (h : ∀ n ∈ ns, IsSegment n) : keptParts ns = ns := by
  rw [keptParts, List.filter_eq_self]
  intro n hn
  simp [(h n hn).ne_nil, (h n hn).ne_here]

theorem isSegment_of_mem_keptParts {s : List Char} {n : Name} (h : n ∈ keptParts (slashParts s)) :
    IsSegment n := by
  rw [keptParts, List.mem_filter] at h
  obtain ⟨hmem, hn⟩ := h
  simp only [ne_eq, Bool.and_eq_true, decide_eq_true_eq] at hn
  exact ⟨hn.1, hn.2, not_mem_of_mem_splitOn hmem⟩

namespace Path

theorem segments_parse (s : List Char) : (parse s).segments = keptParts (slashParts s) := rfl

theorem root_parse (s : List Char) : (parse s).root = Root.of s := rfl

theorem isSegment_of_mem_parse {s : List Char} {n : Name} (h : n ∈ (parse s).segments) :
    IsSegment n :=
  isSegment_of_mem_keptParts h

theorem rootOf_of_head_ne {s : List Char} (h : s.head? ≠ some '/') : Root.of s = .none := by
  unfold Root.of
  split <;> simp_all

theorem rootOf_ne_none_iff {s : List Char} : Root.of s ≠ .none ↔ s.head? = some '/' := by
  constructor
  · intro h
    by_contra hs
    exact h (rootOf_of_head_ne hs)
  · intro h
    obtain ⟨r, rfl⟩ : ∃ r, s = '/' :: r := by
      cases s with
      | nil => simp at h
      | cons c r => exact ⟨r, by simpa using h⟩
    unfold Root.of
    split <;> simp_all

theorem rootOf_single {c : Char} (hc : c ≠ '/') (s : List Char) : Root.of ('/' :: c :: s) = .single := by
  unfold Root.of
  split <;> simp_all

theorem rootOf_double {c : Char} (hc : c ≠ '/') (s : List Char) :
    Root.of ('/' :: '/' :: c :: s) = .double := by
  rw [Root.of]
  intro t ht
  exact hc (List.cons.inj ht).1

theorem rootOf_text_append {r : Root} {s : List Char} (hs : s.head? ≠ some '/') :
    Root.of (r.text ++ s) = r := by
  cases s with
  | nil => cases r <;> rfl
  | cons c s =>
    have hc : c ≠ '/' := by simpa using hs
    cases r with
    | none => exact rootOf_of_head_ne hs
    | single => exact rootOf_single hc s
    | double => exact rootOf_double hc s

theorem keptParts_text_append (r : Root) (s : List Char) :
    keptParts (slashParts (r.text ++ s)) = keptParts (slashParts s) := by
  have hnil : keptParts (slashParts []) = [] := by decide
  cases r with
  | none => rfl
  | single =>
    show keptParts (slashParts ([] ++ '/' :: s)) = _
    rw [slashParts_append_cons, keptParts_append, hnil, List.nil_append]
  | double =>
    show keptParts (slashParts ([] ++ '/' :: ([] ++ '/' :: s))) = _
    rw [slashParts_append_cons, slashParts_append_cons, keptParts_append, keptParts_append, hnil,
      List.nil_append, List.nil_append]

/-- A path whose segments can stand in a path text. -/
def Spelled (p : Path) : Prop :=
  ∀ n ∈ p.segments, IsSegment n

theorem spelled_parse (s : List Char) : (parse s).Spelled :=
  fun _ hn => isSegment_of_mem_parse hn

/-- Reading the text of a path gives the path back. -/
theorem parse_text {p : Path} (h : p.Spelled) : parse p.text = p := by
  obtain ⟨r, ns⟩ := p
  by_cases hns : ns = []
  · subst hns
    cases r <;> decide
  · have htext : text ⟨r, ns⟩ = r.text ++ join ['/'] ns := by simp [text, hns]
    have hroot : Root.of (text ⟨r, ns⟩) = r := by
      rw [htext]
      exact rootOf_text_append (head?_join hns h)
    have hsegs : keptParts (slashParts (text ⟨r, ns⟩)) = ns := by
      rw [htext, keptParts_text_append, slashParts_join hns h, keptParts_of_isSegment h]
    show Path.mk (Root.of _) (keptParts _) = _
    rw [hroot, hsegs]

theorem text_ne_nil {p : Path} (h : p.Spelled) : p.text ≠ [] := by
  obtain ⟨r, ns⟩ := p
  by_cases hns : ns = []
  · subst hns
    cases r <;> decide
  · simp [text, hns, join_ne_nil hns h]

theorem head?_text {p : Path} (h : p.Spelled) : p.text.head? = some '/' ↔ p.root ≠ .none := by
  rw [← rootOf_ne_none_iff, ← root_parse, parse_text h]

section Collapse

variable (rooted : Bool) (kept ks ns : List Name)

@[simp] theorem collapseOnto_nil : collapseOnto rooted kept [] = kept.reverse := rfl

theorem collapseOnto_name {n : Name} (hn : n ≠ up) :
    collapseOnto rooted kept (n :: ns) = collapseOnto rooted (n :: kept) ns := by
  rw [collapseOnto.eq_def]
  simp [hn]

theorem collapseOnto_up_nil :
    collapseOnto rooted [] (up :: ns) = collapseOnto rooted (if rooted then [] else [up]) ns := by
  rw [collapseOnto.eq_def]
  simp

theorem collapseOnto_up_cons (k : Name) :
    collapseOnto rooted (k :: ks) (up :: ns) =
      collapseOnto rooted (if k = up then up :: k :: ks else ks) ns := by
  rw [collapseOnto.eq_def]
  simp

/-- Without steps up nothing is taken back. -/
theorem collapseOnto_of_ne_up {ns : List Name} (h : ∀ n ∈ ns, n ≠ up) :
    collapseOnto rooted kept ns = kept.reverse ++ ns := by
  induction ns generalizing kept with
  | nil => simp
  | cons n ns ih =>
    rw [collapseOnto_name _ _ _ (h n List.mem_cons_self),
      ih _ fun m hm => h m (List.mem_cons_of_mem _ hm)]
    simp

/-- A name at the end stays at the end. -/
theorem collapseOnto_append_singleton {n : Name} (hn : n ≠ up) :
    collapseOnto rooted kept (ns ++ [n]) = collapseOnto rooted kept ns ++ [n] := by
  induction ns generalizing kept with
  | nil => simp [collapseOnto_name _ _ _ hn]
  | cons m ns ih =>
    rw [List.cons_append]
    by_cases hm : m = up
    · subst hm
      cases kept with
      | nil => rw [collapseOnto_up_nil, collapseOnto_up_nil, ih]
      | cons k ks => rw [collapseOnto_up_cons, collapseOnto_up_cons, ih]
    · rw [collapseOnto_name _ _ _ hm, collapseOnto_name _ _ _ hm, ih]

theorem collapseOnto_cancel (xs : List Name) {k : Name} (hk : k ≠ up) :
    collapseOnto rooted kept (xs ++ k :: up :: ns) = collapseOnto rooted kept (xs ++ ns) := by
  induction xs generalizing kept with
  | nil =>
    rw [List.nil_append, collapseOnto_name _ _ _ hk, collapseOnto_up_cons, if_neg hk]
    rfl
  | cons x xs ih =>
    rw [List.cons_append, List.cons_append]
    by_cases hx : x = up
    · subst hx
      cases kept with
      | nil => rw [collapseOnto_up_nil, collapseOnto_up_nil, ih]
      | cons k ks => rw [collapseOnto_up_cons, collapseOnto_up_cons, ih]
    · rw [collapseOnto_name _ _ _ hx, collapseOnto_name _ _ _ hx, ih]

/-- Collapsing what is collapsed already, seen from another place, is collapsing it there. -/
theorem collapseOnto_collapseOnto (acc : List Name) :
    collapseOnto rooted kept (collapseOnto false acc ns) =
      collapseOnto rooted kept (acc.reverse ++ ns) := by
  induction ns generalizing acc with
  | nil => simp
  | cons n ns ih =>
    by_cases hn : n = up
    · subst hn
      cases acc with
      | nil => rw [collapseOnto_up_nil, ih]; rfl
      | cons k ks =>
        rw [collapseOnto_up_cons, ih]
        by_cases hk : k = up
        · simp [hk]
        · rw [if_neg hk, List.reverse_cons, List.append_assoc]
          exact (collapseOnto_cancel rooted kept ns ks.reverse hk).symm
    · rw [collapseOnto_name _ _ _ hn, ih]
      simp

variable {rooted kept ns}

theorem mem_collapseOnto {n : Name} (h : n ∈ collapseOnto rooted kept ns) :
    n ∈ kept ∨ n ∈ ns ∨ n = up := by
  induction ns generalizing kept with
  | nil => exact Or.inl (by simpa using h)
  | cons m ns ih =>
    by_cases hm : m = up
    · subst hm
      cases kept with
      | nil =>
        rw [collapseOnto_up_nil] at h
        rcases ih h with hk | hn | hu
        · cases rooted <;> simp_all
        · simp [hn]
        · simp [hu]
      | cons k ks =>
        rw [collapseOnto_up_cons] at h
        rcases ih h with hk | hn | hu
        · split at hk
          · rcases List.mem_cons.mp hk with rfl | hk
            · simp
            · exact Or.inl hk
          · exact Or.inl (List.mem_cons_of_mem _ hk)
        · simp [hn]
        · simp [hu]
    · rw [collapseOnto_name _ _ _ hm] at h
      rcases ih h with hk | hn | hu
      · rcases List.mem_cons.mp hk with rfl | hk
        · simp
        · exact Or.inl hk
      · simp [hn]
      · simp [hu]

/-- Seen from the root, no step up is left. -/
theorem ne_up_of_mem_collapseOnto (hkept : ∀ n ∈ kept, n ≠ up) {n : Name}
    (h : n ∈ collapseOnto true kept ns) : n ≠ up := by
  induction ns generalizing kept with
  | nil => exact hkept n (by simpa using h)
  | cons m ns ih =>
    by_cases hm : m = up
    · subst hm
      cases kept with
      | nil =>
        rw [collapseOnto_up_nil] at h
        exact ih (by simp) h
      | cons k ks =>
        rw [collapseOnto_up_cons, if_neg (hkept k List.mem_cons_self)] at h
        exact ih (fun j hj => hkept j (List.mem_cons_of_mem _ hj)) h
    · rw [collapseOnto_name _ _ _ hm] at h
      refine ih ?_ h
      intro k hk
      rcases List.mem_cons.mp hk with rfl | hk
      · exact hm
      · exact hkept k hk

theorem spelled_collapse {p : Path} (h : p.Spelled) : p.collapse.Spelled := by
  intro n hn
  rcases mem_collapseOnto hn with hk | hn | rfl
  · simp at hk
  · exact h n hn
  · exact isSegment_up

theorem parse_normal (s : List Char) : parse (normal s) = (parse s).collapse :=
  parse_text (spelled_collapse (spelled_parse s))

end Collapse

section Joined

theorem rootOf_append {a x : List Char} (ha : a ≠ [])
    (h : a.getLast? = some '/' → x.head? ≠ some '/') : Root.of (a ++ x) = Root.of a := by
  obtain ⟨c, a₁, rfl⟩ := List.exists_cons_of_ne_nil ha
  by_cases hc : c = '/'
  · subst hc
    cases a₁ with
    | nil => exact rootOf_text_append (r := .single) (h rfl)
    | cons d a₂ =>
      by_cases hd : d = '/'
      · subst hd
        cases a₂ with
        | nil => exact rootOf_text_append (r := .double) (h rfl)
        | cons e a₃ =>
          by_cases he : e = '/'
          · subst he
            rfl
          · exact (rootOf_double he _).trans (rootOf_double he _).symm
      · exact (rootOf_single hd _).trans (rootOf_single hd _).symm
  · rw [rootOf_of_head_ne (by simpa using hc), rootOf_of_head_ne (by simpa using hc)]

theorem joined_of_head {a b : List Char} (h : b.head? = some '/') : joined a b = b := by
  simp [joined, h]

/-- Putting a relative path text behind another one puts its segments behind. -/
theorem parse_joined {a b : List Char} (ha : a ≠ []) (hb : b.head? ≠ some '/') :
    parse (joined a b) = ⟨Root.of a, (parse a).segments ++ (parse b).segments⟩ := by
  have hnil : keptParts (slashParts []) = [] := by decide
  by_cases hlast : a.getLast? = some '/'
  · have hj : joined a b = a ++ b := by simp [joined, hb, hlast]
    obtain ⟨a', rfl⟩ := List.getLast?_eq_some_iff.mp hlast
    have hsegs : keptParts (slashParts (a' ++ ['/'] ++ b)) =
        keptParts (slashParts (a' ++ ['/'])) ++ keptParts (slashParts b) := by
      rw [List.append_assoc, List.singleton_append, slashParts_append_cons, slashParts_append_cons,
        keptParts_append, keptParts_append, hnil, List.append_nil]
    rw [hj]
    show Path.mk (Root.of _) (keptParts _) = _
    rw [rootOf_append ha fun _ => hb, hsegs]
    rfl
  · have hj : joined a b = a ++ '/' :: b := by simp [joined, hb, ha, hlast]
    rw [hj]
    show Path.mk (Root.of _) (keptParts _) = _
    rw [rootOf_append ha fun h => absurd h hlast, slashParts_append_cons, keptParts_append]
    rfl

theorem joined_ne_nil {a b : List Char} (ha : a ≠ []) : joined a b ≠ [] := by
  unfold joined
  split
  · next h =>
    intro hb
    simp [hb] at h
  · split
    · simp [ha]
    · simp

theorem head?_joined {a b : List Char} (ha : a ≠ []) (hb : b.head? ≠ some '/') :
    (joined a b).head? = a.head? := by
  obtain ⟨c, a, rfl⟩ := List.exists_cons_of_ne_nil ha
  simp only [joined, hb, ↓reduceIte]
  split <;> simp

theorem joined_append {a n : List Char} (hn : '/' ∉ n) (s : List Char) (hs : s.head? ≠ some '/') :
    joined a n ++ s = joined a (n ++ s) := by
  have hh : n.head? ≠ some '/' := fun h => hn (List.mem_of_mem_head? h)
  have hh' : (n ++ s).head? ≠ some '/' := by
    cases n with
    | nil => exact hs
    | cons c n => simpa using hh
  simp only [joined, hh, hh', ↓reduceIte]
  split <;> simp

theorem parse_of_isName {n : Name} (h : IsName n) : parse n = ⟨.none, [n]⟩ := by
  show Path.mk (Root.of n) (keptParts (slashParts n)) = _
  rw [rootOf_of_head_ne h.head_ne_slash, slashParts_of_no_slash h.no_slash, keptParts_of_isSegment]
  intro m hm
  rw [List.mem_singleton.mp hm]
  exact h.toIsSegment

end Joined

end Path
end Marginalia
