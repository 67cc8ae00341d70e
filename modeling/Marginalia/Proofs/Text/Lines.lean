import Mathlib.Data.List.Basic
import Marginalia.Text.Chars

/-! # Cutting and joining texts

Cutting a text at a character and joining the parts again undo one another. A cut of a longer text is
made of the cuts of its parts, of which the two that meet grow together.
-/
namespace Marginalia.Text

theorem join_cons_cons (sep l m : List Char) (ls : List (List Char)) :
    join sep (l :: m :: ls) = l ++ sep ++ join sep (m :: ls) := rfl

theorem join_append {c : Char} {as bs : List (List Char)} (has : as ≠ []) (hbs : bs ≠ []) :
    join [c] (as ++ bs) = join [c] as ++ c :: join [c] bs := by
  induction as with
  | nil => exact absurd rfl has
  | cons a as ih =>
    cases as with
    | nil =>
      obtain ⟨b, bs, rfl⟩ := List.exists_cons_of_ne_nil hbs
      simp [join_cons_cons, join]
    | cons a' as =>
      rw [List.cons_append, List.cons_append, join_cons_cons, join_cons_cons, ← List.cons_append,
        ih (by simp)]
      simp

theorem join_eq_intercalate (sep : List Char) (ls : List (List Char)) :
    join sep ls = sep.intercalate ls := by
  induction ls with
  | nil => rfl
  | cons l ls ih =>
    cases ls with
    | nil => simp [join]
    | cons m ls => rw [join_cons_cons, ih, List.intercalate_cons_cons]

/-- Joining the parts of a text between two signs gives the text back. -/
theorem join_splitOn (c : Char) (s : List Char) : join [c] (s.splitOn c) = s := by
  rw [join_eq_intercalate]
  exact List.intercalate_splitOn c

/-- Parts without the sign between them are found again. -/
theorem splitOn_join {c : Char} {ls : List (List Char)} (hls : ls ≠ []) (h : ∀ l ∈ ls, c ∉ l) :
    (join [c] ls).splitOn c = ls := by
  rw [join_eq_intercalate]
  exact List.splitOn_intercalate c h hls

theorem not_mem_of_mem_splitOn {c : Char} {s l : List Char} (h : l ∈ s.splitOn c) : c ∉ l := by
  induction s generalizing l with
  | nil =>
    rw [List.splitOn_nil, List.mem_singleton] at h
    simp [h]
  | cons d s ih =>
    obtain ⟨a, as, hs⟩ := List.exists_cons_of_ne_nil (List.splitOn_ne_nil c s)
    rw [List.splitOn_cons_eq_if_modifyHead, hs] at h
    split at h
    · rcases List.mem_cons.mp h with rfl | h
      · simp
      · exact ih (by rw [hs]; exact h)
    · next hd =>
      rcases List.mem_cons.mp h with rfl | h
      · have ha : c ∉ a := ih (by simp [hs])
        simp only [List.mem_cons, not_or]
        exact ⟨fun hc => hd (by simp [hc]), ha⟩
      · exact ih (by simp [hs, h])

theorem mem_of_mem_splitOnP {α : Type} {p : α → Bool} {xs l : List α} (h : l ∈ xs.splitOnP p)
    {x : α} (hx : x ∈ l) : x ∈ xs := by
  induction xs generalizing l with
  | nil =>
    rw [List.splitOnP_nil, List.mem_singleton] at h
    exact h ▸ hx
  | cons y ys ih =>
    obtain ⟨a, as, hs⟩ := List.exists_cons_of_ne_nil (List.splitOnP_ne_nil p ys)
    rw [List.splitOnP_cons_eq_if_modifyHead] at h
    split at h
    · rcases List.mem_cons.mp h with rfl | h
      · simp at hx
      · exact List.mem_cons_of_mem _ (ih h hx)
    · rw [hs] at h
      rcases List.mem_cons.mp h with rfl | h
      · rcases List.mem_cons.mp hx with rfl | hx
        · exact List.mem_cons_self
        · exact List.mem_cons_of_mem _ (ih (by simp [hs]) hx)
      · exact List.mem_cons_of_mem _ (ih (by simp [hs, h]) hx)

/-- The cut of a text in two halves: the last part of the first half and the first part of the second
one grow together, the other parts stay. -/
theorem splitOnP_append {α : Type} (p : α → Bool) (xs : List α) :
    ∃ init last, xs.splitOnP p = init ++ [last] ∧ init.length = xs.countP p ∧
      ∀ ys, (xs ++ ys).splitOnP p = init ++ (ys.splitOnP p).modifyHead (last ++ ·) := by
  induction xs with
  | nil =>
    refine ⟨[], [], by simp, by simp, fun ys => ?_⟩
    obtain ⟨y, ys', hys⟩ := List.exists_cons_of_ne_nil (List.splitOnP_ne_nil p ys)
    simp [hys]
  | cons x xs ih =>
    obtain ⟨init, last, hxs, hlen, happ⟩ := ih
    by_cases hx : p x = true
    · refine ⟨[] :: init, last, ?_, by simp [hx, hlen], fun ys => ?_⟩
      · simp [List.splitOnP_cons_eq_if_modifyHead, hx, hxs]
      · simp [List.splitOnP_cons_eq_if_modifyHead, hx, happ]
    · cases init with
      | nil =>
        refine ⟨[], x :: last, ?_, by simpa [hx] using hlen, fun ys => ?_⟩
        · simp [List.splitOnP_cons_eq_if_modifyHead, hx, hxs]
        · obtain ⟨y, ys', hys⟩ := List.exists_cons_of_ne_nil (List.splitOnP_ne_nil p ys)
          simp [List.splitOnP_cons_eq_if_modifyHead, hx, happ, hys]
      | cons i init =>
        refine ⟨(x :: i) :: init, last, ?_, by simpa [hx] using hlen, fun ys => ?_⟩
        · simp [List.splitOnP_cons_eq_if_modifyHead, hx, hxs]
        · simp [List.splitOnP_cons_eq_if_modifyHead, hx, happ]

/-- The lines of a text with another one behind it: its last line goes on with the first of the other. -/
theorem lines_append (s r : List Char) :
    ∃ init last first more, lines s = init ++ [last] ∧ lines r = first :: more ∧
      lines (s ++ r) = init ++ (last ++ first) :: more := by
  obtain ⟨init, last, hs, -, happ⟩ := splitOnP_append (· == '\n') s
  obtain ⟨first, more, hr⟩ := List.exists_cons_of_ne_nil (List.splitOnP_ne_nil (· == '\n') r)
  refine ⟨init, last, first, more, ?_, ?_, ?_⟩
  · rw [lines, List.splitOn_eq_splitOnP, hs]
  · rw [lines, List.splitOn_eq_splitOnP, hr]
  · rw [lines, List.splitOn_eq_splitOnP, happ, hr, List.modifyHead_cons]

theorem unlines_lines (s : List Char) : unlines (lines s) = s :=
  join_splitOn '\n' s

theorem lines_unlines {ls : List (List Char)} (hne : ls ≠ []) (h : ∀ l ∈ ls, '\n' ∉ l) :
    lines (unlines ls) = ls :=
  splitOn_join hne h

theorem length_lines (s : List Char) : (lines s).length = s.count '\n' + 1 := by
  obtain ⟨init, last, hs, hlen, _⟩ := splitOnP_append (· == '\n') s
  rw [lines, List.splitOn_eq_splitOnP, hs, List.length_append, hlen]
  rfl

/-- The first line of a text is what stands before its first line end. -/
theorem head?_lines (s : List Char) : (lines s).head? = some (s.takeWhile (· ≠ '\n')) := by
  induction s with
  | nil => simp [lines]
  | cons c s ih =>
    obtain ⟨a, as, hs⟩ := List.exists_cons_of_ne_nil (List.splitOn_ne_nil '\n' s)
    rw [lines, hs] at ih
    rw [lines, List.splitOn_cons_eq_if_modifyHead, hs]
    by_cases hc : c = '\n'
    · simp [hc]
    · simpa [hc] using ih

end Marginalia.Text
