import Marginalia.Pattern
import Mathlib.Data.List.TakeWhile

/-! # What patterns read

A run of a pattern hands its continuation a place further on in the same text. So a pattern that cannot do
without a character of some class finds nothing in a text that has none.
-/
namespace Marginalia.Pattern

/-- Going from one place to another reads a word. -/
structure Reads (c : Cursor) (w : List Char) (d : Cursor) : Prop where
  rest : c.rest = w ++ d.rest
  done : d.done = w.reverse ++ c.done
  pos : d.pos = c.pos + w.length

section Reads

variable {c d e : Cursor} {v w : List Char} {k : Cont}

theorem Reads.refl (c : Cursor) : Reads c [] c := ⟨rfl, rfl, rfl⟩

theorem Reads.trans (h : Reads c v d) (h' : Reads d w e) : Reads c (v ++ w) e where
  rest := by rw [h.rest, h'.rest, List.append_assoc]
  done := by rw [h'.done, h.done, List.reverse_append, List.append_assoc]
  pos := by rw [h'.pos, h.pos, List.length_append, Nat.add_assoc]

theorem Reads.step {x : Char} {r : List Char} (h : c.rest = x :: r) : Reads c [x] (c.step x r) :=
  ⟨h, rfl, rfl⟩

theorem Reads.mem (h : Reads c w d) {x : Char} (hx : x ∈ d.rest) : x ∈ c.rest := by
  rw [h.rest]
  exact List.mem_append_right _ hx

/-- Each place after characters of a class is reached by reading such characters. -/
theorem reads_of_mem_runLength {p : Char → Bool} {most : Option Nat} {c : Cursor} {r : List Char}
    {acc : List Cursor} (hr : c.rest = r) {d : Cursor} (hd : d ∈ runLength p most c r acc) :
    d ∈ acc ∨ ∃ w, Reads c w d ∧ ∀ x ∈ w, p x = true := by
  induction r generalizing c most acc with
  | nil =>
    rw [runLength] at hd
    rcases List.mem_cons.mp hd with rfl | hd
    · exact .inr ⟨[], .refl d, by simp⟩
    · exact .inl hd
  | cons x r ih =>
    -- where the run of characters ends there is one more place
    have hstop : d ∈ c :: acc → d ∈ acc ∨ ∃ w, Reads c w d ∧ ∀ x ∈ w, p x = true := by
      intro hd
      rcases List.mem_cons.mp hd with rfl | hd
      · exact .inr ⟨[], .refl d, by simp⟩
      · exact .inl hd
    unfold runLength at hd
    split at hd
    · exact hstop hd
    · exact hstop hd
    · next heq =>
      cases heq
      split at hd
      · next hx =>
        rcases ih rfl hd with hd | ⟨w, hw, hall⟩
        · exact hstop hd
        · refine .inr ⟨x :: w, (Reads.step hr).trans hw, ?_⟩
          simpa [hx] using hall
      · exact hstop hd

theorem reads_of_runFew {p : Char → Bool} {least : Nat} {c d : Cursor} {r : List Char}
    (hr : c.rest = r) (h : runFew p k least c r = some d) :
    ∃ w e, Reads c w e ∧ k e = some d ∧ ∀ x ∈ w, p x = true := by
  induction r generalizing c least with
  | nil =>
    cases least with
    | zero => exact ⟨[], c, .refl c, h, by simp⟩
    | succ least => cases h
  | cons x r ih =>
    rw [runFew] at h
    split at h
    · next heq =>
      cases h
      split at heq
      · exact ⟨[], c, .refl c, heq, by simp⟩
      · cases heq
    · split at h
      · next hx =>
        obtain ⟨w, e, hw, hk, hall⟩ := ih rfl h
        refine ⟨x :: w, e, (Reads.step hr).trans hw, hk, ?_⟩
        simpa [hx] using hall
      · cases h

theorem reads_of_runWord {u : List Char} {c d : Cursor} {r : List Char} (hr : c.rest = r)
    (h : runWord k u c r = some d) : ∃ e, Reads c u e ∧ k e = some d := by
  induction u generalizing c r with
  | nil => exact ⟨c, .refl c, h⟩
  | cons a u ih =>
    cases r with
    | nil => cases h
    | cons x r =>
      rw [runWord] at h
      split at h
      · next hax =>
        obtain ⟨e, he, hk⟩ := ih rfl h
        subst hax
        exact ⟨e, (Reads.step hr).trans he, hk⟩
      · cases h

variable {step : Cont → Cursor → Option Cursor}
  (hstep : ∀ k c d, step k c = some d → ∃ w e, Reads c w e ∧ k e = some d)
include hstep

theorem reads_of_runStar {fuel : Nat} {c d : Cursor} (h : runStar step k fuel c = some d) :
    ∃ w e, Reads c w e ∧ k e = some d := by
  induction fuel generalizing c with
  | zero => exact ⟨[], c, .refl c, h⟩
  | succ fuel ih =>
    rw [runStar] at h
    split at h
    · next heq =>
      cases h
      obtain ⟨w, e, hw, he⟩ := hstep _ _ _ heq
      split at he
      · obtain ⟨w', e', hw', hk⟩ := ih he
        exact ⟨w ++ w', e', hw.trans hw', hk⟩
      · cases he
    · exact ⟨[], c, .refl c, h⟩

theorem reads_of_runLazyStar {fuel : Nat} {c d : Cursor} (h : runLazyStar step k fuel c = some d) :
    ∃ w e, Reads c w e ∧ k e = some d := by
  induction fuel generalizing c with
  | zero => exact ⟨[], c, .refl c, h⟩
  | succ fuel ih =>
    rw [runLazyStar] at h
    split at h
    · next heq =>
      cases h
      exact ⟨[], c, .refl c, heq⟩
    · obtain ⟨w, e, hw, he⟩ := hstep _ _ _ h
      split at he
      · obtain ⟨w', e', hw', hk⟩ := ih he
        exact ⟨w ++ w', e', hw.trans hw', hk⟩
      · cases he

end Reads

theorem reads_of_run {p : Pattern} {k : Cont} {c d : Cursor} (h : p.run k c = some d) :
    ∃ w e, Reads c w e ∧ k e = some d := by
  induction p generalizing k c d with
  | empty => exact ⟨[], c, .refl c, h⟩
  | one p =>
    rw [run] at h
    split at h
    · next x r hr =>
      split at h
      · exact ⟨[x], _, .step hr, h⟩
      · cases h
    · cases h
  | seq a b iha ihb =>
    obtain ⟨w, e, hw, he⟩ := iha h
    obtain ⟨w', e', hw', hk⟩ := ihb he
    exact ⟨w ++ w', e', hw.trans hw', hk⟩
  | alt a b iha ihb =>
    rw [run] at h
    split at h
    · next heq =>
      cases h
      exact iha heq
    · exact ihb h
  | many p least most =>
    rw [run] at h
    obtain ⟨e, he, hk⟩ := List.exists_of_findSome?_eq_some h
    rcases reads_of_mem_runLength rfl ((List.takeWhile_sublist _).mem he) with hnil | ⟨w, hw, -⟩
    · cases hnil
    · exact ⟨w, e, hw, hk⟩
  | few p least =>
    obtain ⟨w, e, hw, hk, -⟩ := reads_of_runFew rfl h
    exact ⟨w, e, hw, hk⟩
  -- the two repetitions go round on their own recursion
  | star a ih => exact reads_of_runStar (fun _ _ _ => ih) h
  | lazyStar a ih => exact reads_of_runLazyStar (fun _ _ _ => ih) h
  | group n a ih =>
    obtain ⟨w, e, hw, hk⟩ := ih h
    exact ⟨w, { e with groups := (n, e.since c) :: e.groups }, ⟨hw.rest, hw.done, hw.pos⟩, hk⟩
  | again n =>
    rw [run] at h
    split at h
    · next w _ =>
      obtain ⟨e, he, hk⟩ := reads_of_runWord rfl h
      exact ⟨w, e, he, hk⟩
    · cases h
  -- from here on a pattern looks at the text and reads nothing
  | ahead a ih =>
    rw [run] at h
    split at h
    · next d' _ => exact ⟨[], { c with groups := d'.groups }, ⟨rfl, rfl, rfl⟩, h⟩
    · cases h
  | notAhead a ih =>
    rw [run] at h
    split at h
    · cases h
    · exact ⟨[], c, .refl c, h⟩
  | before p | next p | wordEdge =>
    rw [run] at h
    split at h
    · exact ⟨[], c, .refl c, h⟩
    · cases h
  | noWordEdge =>
    rw [run] at h
    split at h
    · cases h
    · exact ⟨[], c, .refl c, h⟩

/-- A pattern reads or looks at a character of a class wherever it matches. -/
def Demands (q : Char → Bool) (p : Pattern) : Prop :=
  ∀ k c d, p.run k c = some d → ∃ x ∈ c.rest, q x = true

namespace Demands

variable {q p : Char → Bool} {a b : Pattern}

theorem one (h : ∀ x, p x = true → q x = true) : Demands q (.one p) := by
  intro k c d hrun
  rw [run] at hrun
  split at hrun
  · next x r hr =>
    split at hrun
    · next hx => exact ⟨x, by simp [hr], h x hx⟩
    · cases hrun
  · cases hrun

theorem many {least : Nat} {most : Option Nat} (hleast : 0 < least)
    (h : ∀ x, p x = true → q x = true) : Demands q (.many p least most) := by
  intro k c d hrun
  rw [run] at hrun
  obtain ⟨e, he, -⟩ := List.exists_of_findSome?_eq_some hrun
  have hfar : c.pos + least ≤ e.pos := by
    simpa using List.mem_takeWhile_imp he
  rcases reads_of_mem_runLength rfl ((List.takeWhile_sublist _).mem he) with hnil | ⟨w, hw, hall⟩
  · cases hnil
  · cases w with
    -- the place is further on than the empty word leads
    | nil =>
      have := hw.pos
      simp only [List.length_nil] at this
      omega
    | cons x w => exact ⟨x, by simp [hw.rest], h x (hall x List.mem_cons_self)⟩

theorem many_eq {x : Char} {least : Nat} {most : Option Nat} (hleast : 0 < least) (hx : q x = true) :
    Demands q (.many (· = x) least most) :=
  .many hleast fun y hy => by
    rw [of_decide_eq_true hy]
    exact hx

theorem left (h : Demands q a) : Demands q (a ++ b) :=
  fun k c d hrun => h (b.run k) c d hrun

theorem right (h : Demands q b) : Demands q (a ++ b) := by
  intro k c d hrun
  -- the second pattern starts further on in the same text
  obtain ⟨w, e, hw, he⟩ := reads_of_run (p := a) (k := b.run k) hrun
  obtain ⟨x, hx, hqx⟩ := h k e d he
  exact ⟨x, hw.mem hx, hqx⟩

theorem alt (ha : Demands q a) (hb : Demands q b) : Demands q (.alt a b) := by
  intro k c d hrun
  rw [run] at hrun
  split at hrun
  · next heq => exact ha k c _ heq
  · exact hb k c d hrun

theorem group {n : Nat} (h : Demands q a) : Demands q (.group n a) :=
  fun _ c d hrun => h _ c d hrun

theorem ahead (h : Demands q a) : Demands q (.ahead a) := by
  intro k c d hrun
  rw [run] at hrun
  split at hrun
  · next heq => exact h some c _ heq
  · cases hrun

/-- A word demands each of its characters; one of the class is enough. -/
theorem chars {w : List Char} (h : w.any q = true) : Demands q (.chars w) := by
  induction w with
  | nil => cases h
  | cons x w ih =>
    have hone (hx : q x = true) : Demands q (.one (· == x)) := .one fun y hy => by
      rw [beq_iff_eq] at hy
      rw [hy]
      exact hx
    cases w with
    | nil => exact hone (by simpa using h)
    | cons y w =>
      rw [List.any_cons, Bool.or_eq_true] at h
      rcases h with hx | hw
      · exact left (a := .one (· == x)) (b := .chars (y :: w)) (hone hx)
      · exact right (a := .one (· == x)) (b := .chars (y :: w)) (ih hw)

theorem matchAt? (h : Demands q a) {done rest : List Char} (hrest : ∀ x ∈ rest, q x = false) :
    a.matchAt? done rest = none := by
  rw [Pattern.matchAt?, Option.map_eq_none_iff, Option.eq_none_iff_forall_ne_some]
  intro d hrun
  obtain ⟨x, hx, hqx⟩ := h some _ d hrun
  rw [hrest x hx] at hqx
  cases hqx

/-- A pattern that demands a character of a class finds nothing in a text without one. -/
theorem search? (h : Demands q a) {done rest : List Char} (hrest : ∀ x ∈ rest, q x = false) :
    a.search? done rest = none := by
  induction rest generalizing done with
  | nil => rw [Pattern.search?, h.matchAt? hrest, Option.map_none]
  | cons x rest ih =>
    rw [Pattern.search?, h.matchAt? hrest]
    exact ih fun y hy => hrest y (List.mem_cons_of_mem _ hy)

end Demands

end Marginalia.Pattern
