import Mathlib.Data.List.TakeWhile
import Mathlib.Data.List.DropRight
import Marginalia.Proofs.Text.Lines
import Marginalia.Text.Blank

/-! # Texts without outer blanks

Blanks at an end of a text are trimmed away and nothing else is. Blanks behind a text add to its last line
and then bring blank lines only.
-/
namespace Marginalia.Text

variable {a b s : List Char}

theorem isBlank_of_mem (h : allBlank s = true) {c : Char} (hc : c ∈ s) : isBlank c = true :=
  List.all_eq_true.mp h c hc

theorem allBlank_append (ha : allBlank a = true) (hb : allBlank b = true) : allBlank (a ++ b) = true := by
  rw [allBlank, List.all_append]
  exact Bool.and_eq_true_iff.mpr ⟨ha, hb⟩

theorem allBlank_of_mem_lines (h : allBlank s = true) {l : List Char} (hl : l ∈ lines s) :
    allBlank l = true := by
  rw [lines, List.splitOn_eq_splitOnP] at hl
  exact List.all_eq_true.mpr fun c hc => isBlank_of_mem h (mem_of_mem_splitOnP hl hc)

theorem isBlank_newline : isBlank '\n' = true := by decide

/-- Joined lines are blank exactly when every line is. -/
theorem allBlank_unlines (ls : List (List Char)) : allBlank (unlines ls) = ls.all (·.all isBlank) := by
  induction ls with
  | nil => rfl
  | cons l ls ih =>
    cases ls with
    | nil => simp [unlines, join, allBlank]
    | cons m ls =>
      rw [unlines, allBlank] at ih
      rw [unlines, join_cons_cons, allBlank, List.all_append, List.all_append, ih]
      simp [isBlank_newline]

theorem trimStart_append (ha : allBlank a = true) (s : List Char) : trimStart (a ++ s) = trimStart s :=
  List.dropWhile_append_of_pos fun _ hc => isBlank_of_mem ha hc

theorem trimStart_of_allBlank (h : allBlank s = true) : trimStart s = [] :=
  List.dropWhile_eq_nil_iff.mpr fun _ hc => isBlank_of_mem h hc

theorem trimStart_append_eq_self (hne : s ≠ []) (h : trimStart s = s) (b : List Char) :
    trimStart (s ++ b) = s ++ b := by
  have hdrop : s.dropWhile isBlank = s := h
  rw [trimStart, List.dropWhile_append, hdrop, if_neg (by simpa using hne)]

theorem trimEnd_append (s : List Char) (hb : allBlank b = true) : trimEnd (s ++ b) = trimEnd s := by
  have hback : ∀ c ∈ b.reverse, isBlank c = true :=
    fun c hc => isBlank_of_mem hb (List.mem_reverse.mp hc)
  rw [trimEnd, dropEndWhile, List.reverse_append, List.dropWhile_append_of_pos hback]
  rfl

theorem trimEnd_append_of_not_allBlank (s : List Char) (hb : ¬allBlank b = true) :
    trimEnd (s ++ b) = s ++ trimEnd b := by
  have hne : (b.reverse.dropWhile isBlank).isEmpty = false := by
    rw [List.isEmpty_eq_false_iff, Ne, List.dropWhile_eq_nil_iff]
    simpa [allBlank] using hb
  rw [trimEnd, dropEndWhile, List.reverse_append, List.dropWhile_append, hne]
  simp [trimEnd, dropEndWhile]

/-- What is trimmed from the end of a text is blank. -/
theorem exists_trimEnd (s : List Char) : ∃ b, allBlank b = true ∧ s = trimEnd s ++ b := by
  refine ⟨(s.reverse.takeWhile isBlank).reverse, ?_, ?_⟩
  · exact List.all_eq_true.mpr fun c hc => List.mem_takeWhile_imp (List.mem_reverse.mp hc)
  · rw [trimEnd, dropEndWhile, ← List.reverse_append, List.takeWhile_append_dropWhile, List.reverse_reverse]

/-- A text that keeps its outer characters has blanks at neither end. -/
theorem trim_eq_self (h : strip s = s) : trimStart s = s ∧ trimEnd s = s := by
  obtain ⟨b, -, hb⟩ := exists_trimEnd (trimStart s)
  have hsuffix : trimStart s <:+ s := List.dropWhile_suffix _
  have hstart : trimStart s = s := by
    refine hsuffix.eq_of_length_le ?_
    have hlen := congrArg List.length hb
    rw [List.length_append, show trimEnd (trimStart s) = s from h] at hlen
    omega
  refine ⟨hstart, ?_⟩
  conv_rhs => rw [← h]
  rw [strip, trim, show s.dropWhile isBlank = s from hstart, trimEnd]

theorem strip_append (ha : allBlank a = true) (s : List Char) : strip (a ++ s) = strip s :=
  congrArg trimEnd (trimStart_append ha s)

theorem mem_of_mem_trim {p : Char → Bool} {c : Char} (h : c ∈ trim p s) : c ∈ s := by
  rw [trim, dropEndWhile, List.mem_reverse] at h
  exact (List.dropWhile_sublist p).mem (List.mem_reverse.mp ((List.dropWhile_sublist p).mem h))

theorem trimEnd_trimEnd (s : List Char) : trimEnd (trimEnd s) = trimEnd s := by
  unfold trimEnd dropEndWhile
  rw [List.reverse_reverse, List.dropWhile_idempotent]

theorem strip_strip (s : List Char) : strip (strip s) = strip s := by
  have hstrip : strip s = trimEnd (trimStart s) := rfl
  cases hs : strip s with
  | nil => rfl
  | cons c u =>
    -- what is stripped starts where the text does, so not with a blank
    obtain ⟨b, -, hb⟩ := exists_trimEnd (trimStart s)
    have hc : isBlank c = false := by
      have hhead := List.head?_dropWhile_not isBlank s
      rw [show s.dropWhile isBlank = c :: (u ++ b) by rw [← List.cons_append, ← hs, hstrip]; exact hb] at hhead
      simpa using hhead
    have hstart : trimStart (c :: u) = c :: u := List.dropWhile_cons_of_neg (by simp [hc])
    calc strip (c :: u) = trimEnd (c :: u) := congrArg trimEnd hstart
      _ = c :: u := by rw [← hs, hstrip, trimEnd_trimEnd]

/-- A text without blanks at its ends keeps its place at the start when what follows is stripped. -/
theorem exists_strip_append (hne : s ≠ []) (h : strip s = s) (r : List Char) :
    ∃ r', strip (s ++ r) = s ++ r' := by
  obtain ⟨hstart, hend⟩ := trim_eq_self h
  have hstrip : strip (s ++ r) = trimEnd (s ++ r) := congrArg trimEnd (trimStart_append_eq_self hne hstart r)
  rw [hstrip]
  by_cases hr : allBlank r = true
  · exact ⟨[], by rw [trimEnd_append s hr, hend, List.append_nil]⟩
  · exact ⟨trimEnd r, trimEnd_append_of_not_allBlank s hr⟩

theorem strip_of_ends {c d : Char} (hc : isBlank c = false) (hd : isBlank d = false) (s : List Char) :
    strip (c :: s ++ [d]) = c :: s ++ [d] := by
  have hstart : (c :: s ++ [d]).dropWhile isBlank = c :: s ++ [d] := by
    rw [List.cons_append, List.dropWhile_cons_of_neg (by simp [hc])]
  rw [strip, trim, hstart, dropEndWhile, List.reverse_append, List.reverse_singleton,
    List.singleton_append, List.dropWhile_cons_of_neg (by simp [hd]), List.reverse_cons,
    List.reverse_reverse]

theorem lines_append_blank (s : List Char) (hb : allBlank b = true) :
    ∃ init last first more, lines s = init ++ [last] ∧ lines (s ++ b) = init ++ (last ++ first) :: more ∧
      allBlank first = true ∧ ∀ l ∈ more, allBlank l = true := by
  obtain ⟨init, last, first, more, hs, hlines, happ⟩ := lines_append s b
  have hblank : ∀ l ∈ first :: more, allBlank l = true :=
    fun l hl => allBlank_of_mem_lines hb (hlines ▸ hl)
  exact ⟨init, last, first, more, hs, happ, hblank first List.mem_cons_self,
    fun l hl => hblank l (List.mem_cons_of_mem _ hl)⟩

theorem unlines_cons (l : List Char) {ls : List (List Char)} (hne : ls ≠ []) :
    unlines (l :: ls) = l ++ '\n' :: unlines ls :=
  join_append (List.cons_ne_nil l []) hne

theorem unlines_lines_append (text : List Char) {ls : List (List Char)} (hne : ls ≠ []) :
    unlines (lines text ++ ls) = text ++ '\n' :: unlines ls := by
  have hlines : lines text ≠ [] := List.splitOn_ne_nil '\n' text
  have htext : join ['\n'] (lines text) = text := unlines_lines text
  rw [unlines, join_append hlines hne, htext]
  rfl

theorem trimEnd_unlines_append (text : List Char) {ls : List (List Char)}
    (h : ∀ l ∈ ls, allBlank l = true) : trimEnd (unlines (lines text ++ ls)) = trimEnd text := by
  by_cases hne : ls = []
  · rw [hne, List.append_nil, unlines_lines]
  · have hblank : allBlank (unlines ls) = true := by
      rw [allBlank_unlines]
      exact List.all_eq_true.mpr h
    have htail : allBlank ('\n' :: unlines ls) = true := allBlank_append (a := ['\n']) (by decide) hblank
    rw [unlines_lines_append text hne, trimEnd_append _ htail]

end Marginalia.Text
