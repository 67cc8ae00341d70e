import Mathlib.Data.List.Forall2
import Marginalia.Proofs.Script.Coverage
import Marginalia.Section

/-! # Which lines of a script the sections show

The sections of a script show disjoint runs of its lines, in order. A line with code on it is shown
unless its last character that is no blank belongs to a block comment: such a line stands before the
code of the comment that opens on it. This holds of every way to cut a script into pieces of which the
comments start with a slash, also where another scanner finds other comments.
-/
namespace Marginalia.Section

open Text Script

/-- The lines, counted from zero, that the sections of comments show in a script of `n` lines. -/
def spans (n : Nat) : List Comment → List (List Nat)
  | [] => []
  | c :: cs =>
    let last := match cs with
      | d :: _ => d.line - 1
      | [] => n
    List.range' (c.codeStart - 1) (last - (c.codeStart - 1)) :: spans n cs

/-- The lines of a text that are shown, as a section joins them. -/
def shown (f : List Char → List Char) (ls : List (List Char)) (span : List Nat) : List Char :=
  unlines (span.map fun i => f (ls.getD i []))

/-- The code of a section is made of the lines with the given numbers, as they stand or with their
leading tabs expanded. -/
def Shows (ls : List (List Char)) (s : Section) (span : List Nat) : Prop :=
  s.code = shown id ls span ∨ s.code = shown expandTabs ls span

theorem drop_take_eq_map (ls : List (List Char)) (a : Nat) {b : Nat} (hb : b ≤ ls.length) :
    (ls.take b).drop a = (List.range' a (b - a)).map fun i => ls.getD i [] := by
  apply List.ext_getElem?
  intro i
  rw [List.getElem?_drop, List.getElem?_take, List.getElem?_map]
  by_cases hi : a + i < b
  · have hlt : a + i < ls.length := by omega
    rw [if_pos hi, List.getElem?_range' (by omega)]
    simp [List.getElem?_eq_getElem hlt]
  · rw [if_neg hi, List.getElem?_eq_none (by rw [List.length_range']; omega)]
    rfl

/-- No comment's code starts more than one line after the last of `n` lines. -/
def Within (n : Nat) (cs : List Comment) : Prop :=
  ∀ c ∈ cs, c.codeStart ≤ n + 1

theorem Within.tail {n : Nat} {c : Comment} {cs : List Comment} (h : Within n (c :: cs)) :
    Within n cs :=
  fun d hd => h d (List.mem_cons_of_mem _ hd)

theorem shows_ofComments {ls : List (List Char)} {a : Nat} {cs : List Comment} (ho : Ordered a cs)
    (hw : Within ls.length cs) :
    List.Forall₂ (Shows ls) (ofComments ls cs) (spans ls.length cs) := by
  induction cs generalizing a with
  | nil => exact List.Forall₂.nil
  | cons c cs ih =>
    refine List.Forall₂.cons (Or.inr ?_) (ih ho.2.2 hw.tail)
    cases cs with
    | nil =>
      simp only [lineRange, shown, drop_take_eq_map _ _ le_rfl, List.map_map]
      rfl
    | cons d cs =>
      have hd := hw.tail d List.mem_cons_self
      have hline : d.line ≤ d.codeStart := ho.2.2.2.1
      have hlast : d.line - 1 ≤ ls.length := by omega
      simp only [lineRange, shown, drop_take_eq_map _ _ hlast, List.map_map]
      rfl

theorem Ordered.line_le {d : Comment} {cs : List Comment} {a : Nat} (ho : Ordered a (d :: cs))
    {e : Comment} (he : e ∈ d :: cs) : d.line ≤ e.line := by
  induction cs generalizing d a with
  | nil =>
    rw [List.mem_singleton.mp he]
  | cons f cs ih =>
    rcases List.mem_cons.mp he with rfl | he
    · exact le_rfl
    · exact (ho.2.1.trans ho.2.2.1).trans (ih ho.2.2 he)

/-- The shown lines are those from the first comment on that no comment covers. -/
theorem mem_spans {n a : Nat} {c : Comment} {cs : List Comment} (ha : 1 ≤ a)
    (ho : Ordered a (c :: cs)) (hw : Within n (c :: cs)) (i : Nat) :
    i ∈ (spans n (c :: cs)).flatten ↔ c.line ≤ i + 1 ∧ i < n ∧ ¬ Covered (c :: cs) (i + 1) := by
  induction cs generalizing a c with
  | nil =>
    obtain ⟨hac, hcc, _⟩ := ho
    have hcn := hw c List.mem_cons_self
    have hnil : ¬ Covered [] (i + 1) := by simp [Covered]
    rw [covered_cons, or_iff_left hnil]
    simp only [spans, List.flatten_cons, List.flatten_nil, List.append_nil, List.mem_range'_1,
      Comment.Covers]
    omega
  | cons d cs ih =>
    obtain ⟨hac, hcc, ho'⟩ := ho
    have hrest := ih (a := c.codeStart) (by omega) ho' hw.tail
    have hd := hw.tail d List.mem_cons_self
    have hcd : c.codeStart ≤ d.line := ho'.1
    have hdd : d.line ≤ d.codeStart := ho'.2.1
    rw [spans, List.flatten_cons, List.mem_append, hrest, covered_cons (c := c),
      List.mem_range'_1, Comment.Covers]
    -- the next comment parts the lines: those before it belong to the first comment or its code
    by_cases hi : i + 1 < d.line
    · have hnot : ¬ Covered (d :: cs) (i + 1) := by
        rintro ⟨e, he, hle, _⟩
        have := Ordered.line_le ho' he
        omega
      rw [or_iff_left hnot]
      omega
    · by_cases hcov : Covered (d :: cs) (i + 1)
      · simp only [hcov, not_true_eq_false, or_true, and_false, or_false, iff_false]
        omega
      · rw [or_iff_left hcov, and_iff_left hcov]
        omega

theorem pairwise_spans {n a : Nat} {cs : List Comment} (ha : 1 ≤ a) (ho : Ordered a cs)
    (hw : Within n cs) : (spans n cs).flatten.Pairwise (· < ·) := by
  induction cs generalizing a with
  | nil => exact List.Pairwise.nil
  | cons c cs ih =>
    obtain ⟨hac, hcc, ho'⟩ := ho
    have hrest := ih (a := c.codeStart) (by omega) ho' hw.tail
    cases cs with
    | nil => simpa [spans] using List.pairwise_lt_range'
    | cons d cs =>
      rw [spans, List.flatten_cons, List.pairwise_append]
      refine ⟨List.pairwise_lt_range', hrest, fun i hi j hj => ?_⟩
      have hle := ((mem_spans (by omega) ho' hw.tail j).mp hj).1
      have hcd : c.codeStart ≤ d.line := ho'.1
      rw [List.mem_range'_1] at hi
      omega

/-- The sections of a script that is cut into given pieces. -/
def ofPieces (ps : List Piece) : List Section :=
  match commentsFrom 1 ps with
  | [] => []
  | c :: cs => preamble (lines (spell ps)) c ++ ofComments (lines (spell ps)) (c :: cs)

theorem ofScript_eq_ofPieces (s : List Char) : ofScript s = ofPieces (pieces s) := by
  rw [ofPieces, spell_pieces]
  rfl

/-- Without their marks, the marked lines of pieces are the lines that they spell. -/
theorem map_markedLines_marks (ps : List Piece) :
    (markedLines (marks ps)).map (·.map (·.1)) = lines (spell ps) := by
  rw [map_markedLines, map_fst_marks]

theorem within_commentsFrom (ps : List Piece) :
    Within (lines (spell ps)).length (commentsFrom 1 ps) := by
  intro c hc
  have := codeStart_le_of_mem_commentsFrom hc
  rw [length_lines]
  simp only [lineCount] at this
  omega

theorem mem_unlines {ls : List (List Char)} {l : List Char} (hl : l ∈ ls) {c : Char} (hc : c ∈ l) :
    c ∈ unlines ls := by
  induction ls with
  | nil => simp at hl
  | cons m ls ih =>
    cases ls with
    | nil =>
      obtain rfl := List.mem_singleton.mp hl
      exact hc
    | cons m' ls =>
      rw [unlines, join_cons_cons]
      rcases List.mem_cons.mp hl with rfl | hl
      · simp [hc]
      · exact List.mem_append_right _ (ih hl)

section Pieces

variable {ps : List Piece}

/-- A text is not blank when code stands on one of its lines. -/
theorem allBlank_eq_false_of_hasCode {i k : Nat} {l : List Mark} (hi : i < k)
    (hl : (markedLines (marks ps))[i]? = some l) (hcode : hasCode l = true) :
    allBlank (unlines ((lines (spell ps)).take k)) = false := by
  obtain ⟨m, hm, hb⟩ := List.any_eq_true.mp hcode
  rw [allBlank, List.all_eq_false]
  refine ⟨m.1, mem_unlines (l := l.map (·.1)) ?_ (List.mem_map_of_mem hm), ?_⟩
  · have hget : (lines (spell ps))[i]? = some (l.map (·.1)) := by
      rw [← map_markedLines_marks, List.getElem?_map, hl]
      rfl
    exact List.mem_of_getElem? (by rw [List.getElem?_take, if_pos hi]; exact hget)
  · simp only [Bool.and_eq_true, Bool.not_eq_true'] at hb
    simp [hb.2]

/-- Whether a comment covers a line with code can be read off the line. -/
theorem covered_commentsFrom_iff (hps : Slashed ps) {i : Nat} {l : List Mark}
    (hl : (markedLines (marks ps))[i]? = some l) (hcode : hasCode l = true) :
    Covered (commentsFrom 1 ps) (i + 1) ↔ endsInComment l = true := by
  have htold := told_comments hps 1
  cases i with
  | zero => exact htold.first l hl
  | succ j =>
    have := htold.later j l hl hcode
    rwa [Nat.add_comm 1] at this

/-- The sections of pieces with comments show disjoint runs of the lines that the pieces spell, in order.
Of the lines with code, exactly those are shown whose last character that is no blank lies outside the
comments. -/
theorem ofPieces_shows_code_once (hps : Slashed ps) (hs : commentsFrom 1 ps ≠ []) :
    ∃ shownLines : List (List Nat),
      List.Forall₂ (Shows (lines (spell ps))) (ofPieces ps) shownLines ∧
      shownLines.flatten.Pairwise (· < ·) ∧
      (∀ i ∈ shownLines.flatten, i < (lines (spell ps)).length) ∧
      ∀ i l, (markedLines (marks ps))[i]? = some l → hasCode l = true →
        (i ∈ shownLines.flatten ↔ endsInComment l = false) := by
  obtain ⟨c, cs, hcs⟩ := List.exists_cons_of_ne_nil hs
  have ho : Ordered 1 (c :: cs) := hcs ▸ ordered_commentsFrom hps
  have hw : Within (lines (spell ps)).length (c :: cs) := hcs ▸ within_commentsFrom ps
  have hone : 1 ≤ c.line := ho.1
  have hcn : c.line ≤ (lines (spell ps)).length + 1 := ho.2.1.trans (hw c List.mem_cons_self)
  have hmem := fun i => mem_spans le_rfl ho hw i
  have hrest := shows_ofComments ho hw
  have hpair := pairwise_spans le_rfl ho hw
  -- the lines of a comment or after it are shown by the sections of the comments
  have hlater : ∀ i l, (markedLines (marks ps))[i]? = some l → hasCode l = true → c.line ≤ i + 1 →
      (i ∈ (spans (lines (spell ps)).length (c :: cs)).flatten ↔ endsInComment l = false) := by
    intro i l hl hcode hle
    have hlt : i < (lines (spell ps)).length := by
      rw [← map_markedLines_marks, List.length_map]
      exact (List.getElem?_eq_some_iff.mp hl).1
    have hcov := covered_commentsFrom_iff hps hl hcode
    rw [hcs] at hcov
    rw [hmem, hcov]
    simp [hle, hlt]
  have hearly : ∀ i l, (markedLines (marks ps))[i]? = some l → hasCode l = true → i + 1 < c.line →
      endsInComment l = false := by
    intro i l hl hcode hlt
    have hnot : ¬ Covered (commentsFrom 1 ps) (i + 1) := by
      rintro ⟨e, he, hle, _⟩
      rw [hcs] at he
      have := Ordered.line_le ho he
      omega
    rwa [covered_commentsFrom_iff hps hl hcode, Bool.not_eq_true] at hnot
  simp only [ofPieces, hcs, preamble]
  split
  · -- a blank text before the first comment is left out: no code stands there
    next hblank =>
    refine ⟨spans (lines (spell ps)).length (c :: cs), hrest, hpair, fun i hi => ((hmem i).mp hi).2.1, ?_⟩
    intro i l hl hcode
    refine hlater i l hl hcode (Nat.le_of_not_lt fun hlt => ?_)
    rw [allBlank_eq_false_of_hasCode (by omega : i < c.line - 1) hl hcode] at hblank
    exact absurd hblank (by simp)
  · refine ⟨List.range' 0 (c.line - 1) :: spans (lines (spell ps)).length (c :: cs), ?_, ?_, ?_, ?_⟩
    · refine List.Forall₂.cons (Or.inl ?_) hrest
      have := drop_take_eq_map (lines (spell ps)) 0 (b := c.line - 1) (by omega)
      simpa [shown] using congrArg unlines this
    · rw [List.flatten_cons, List.pairwise_append]
      refine ⟨List.pairwise_lt_range', hpair, fun i hi j hj => ?_⟩
      have hle := ((hmem j).mp hj).1
      rw [List.mem_range'_1] at hi
      omega
    · intro i hi
      rw [List.flatten_cons, List.mem_append, List.mem_range'_1] at hi
      rcases hi with hi | hi
      · omega
      · exact ((hmem i).mp hi).2.1
    · intro i l hl hcode
      rw [List.flatten_cons, List.mem_append, List.mem_range'_1]
      by_cases hlt : i + 1 < c.line
      · have := hearly i l hl hcode hlt
        simp only [this, iff_true]
        exact Or.inl (by omega)
      · have hno : ¬ (0 ≤ i ∧ i < 0 + (c.line - 1)) := by omega
        rw [or_iff_right hno]
        exact hlater i l hl hcode (by omega)

end Pieces

/-- The lines of a script, each character marked with whether a block comment holds it. -/
def scriptLines (s : List Char) : List (List Mark) :=
  markedLines (marks (pieces s))

/-- The sections of a script with comments show disjoint runs of its lines, in order. Of the lines with
code, exactly those are shown whose last character that is no blank lies outside the block comments. -/
theorem ofScript_shows_code_once (s : List Char) (hs : comments s ≠ []) :
    ∃ shownLines : List (List Nat),
      List.Forall₂ (Shows (lines s)) (ofScript s) shownLines ∧
      shownLines.flatten.Pairwise (· < ·) ∧
      (∀ i ∈ shownLines.flatten, i < (lines s).length) ∧
      ∀ i l, (scriptLines s)[i]? = some l → hasCode l = true →
        (i ∈ shownLines.flatten ↔ endsInComment l = false) := by
  have h := ofPieces_shows_code_once (slashed_pieces s) hs
  rwa [← ofScript_eq_ofPieces, spell_pieces] at h

theorem ofScript_loses_line_ending_in_comment :
    comments "x /* a */\ny".toList ≠ [] ∧
      ∃ shownLines : List (List Nat),
        List.Forall₂ (Shows (lines "x /* a */\ny".toList)) (ofScript "x /* a */\ny".toList) shownLines ∧
        0 ∉ shownLines.flatten ∧ 1 ∈ shownLines.flatten := by
  have hs : comments "x /* a */\ny".toList ≠ [] := by decide
  obtain ⟨shownLines, hshow, _, _, hmem⟩ := ofScript_shows_code_once _ hs
  have h0 := hmem 0 _ rfl (by decide)
  have h1 := hmem 1 _ rfl (by decide)
  refine ⟨hs, shownLines, hshow, ?_, ?_⟩
  · rw [h0]
    decide
  · rw [h1]
    decide

end Marginalia.Section
