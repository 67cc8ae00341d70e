import Mathlib.Data.List.Basic
import Marginalia.Proofs.Text.Lines
import Marginalia.Script.Comment

/-! # Which characters of a script are comment

Every character of a script is marked with whether a block comment holds it. The lines of the marks
are the lines of the script. A comment covers the lines from its opening to the line before its code
starts; a line with code on it is covered exactly when its last character that is no blank is comment.
-/
namespace Marginalia.Script

open Text

/-- A character, and whether a block comment holds it. -/
abbrev Mark := Char × Bool

/-- The marks of a piece. -/
def Piece.marks (p : Piece) : List Mark :=
  p.text.map fun c => (c, p.comment)

/-- The marks of pieces. -/
def marks (ps : List Piece) : List Mark :=
  ps.flatMap Piece.marks

/-- Whether a mark ends a line. -/
def Mark.isEnd (m : Mark) : Bool :=
  m.1 == '\n'

/-- The lines of marks. -/
def markedLines (ms : List Mark) : List (List Mark) :=
  ms.splitOnP Mark.isEnd

/-- Whether code stands on a line: a character that is no blank, outside the block comments. -/
def hasCode (l : List Mark) : Bool :=
  l.any fun m => !m.2 && !isBlank m.1

/-- Whether the last character of a line that is no ASCII blank belongs to a block comment. -/
def endsInComment (l : List Mark) : Bool :=
  (l.reverse.find? fun m => !isAsciiBlank m.1).any (·.2)

/-- Whether a line has other characters than ASCII blanks. -/
def isInked (l : List Mark) : Bool :=
  l.any fun m => !isAsciiBlank m.1

theorem marks_cons (p : Piece) (ps : List Piece) : marks (p :: ps) = p.marks ++ marks ps := by
  simp [marks]

theorem map_fst_marks (ps : List Piece) : (marks ps).map (·.1) = spell ps := by
  induction ps with
  | nil => rfl
  | cons p ps ih => simp [marks_cons, spell_cons, ih, Piece.marks, Function.comp_def]

theorem map_markedLines (ms : List Mark) :
    (markedLines ms).map (·.map (·.1)) = lines (ms.map (·.1)) := by
  induction ms with
  | nil => simp [markedLines, lines]
  | cons m ms ih =>
    obtain ⟨a, as, hs⟩ := List.exists_cons_of_ne_nil (List.splitOnP_ne_nil Mark.isEnd ms)
    simp only [markedLines, lines, hs] at ih
    simp only [markedLines, lines, List.map_cons, List.splitOnP_cons_eq_if_modifyHead,
      List.splitOn_cons_eq_if_modifyHead, ← ih, hs, Mark.isEnd]
    split <;> simp

theorem endsInComment_append (l r : List Mark) :
    endsInComment (l ++ r) = if isInked r then endsInComment r else endsInComment l := by
  simp only [endsInComment, List.reverse_append, List.find?_append]
  cases h : r.reverse.find? fun m => !isAsciiBlank m.1 with
  | none =>
    have hr : isInked r = false := by
      simp only [List.find?_eq_none, List.mem_reverse] at h
      simpa [isInked] using h
    simp [hr]
  | some m =>
    have hm := List.find?_some h
    have hmem := List.mem_reverse.mp (List.mem_of_find?_eq_some h)
    have hr : isInked r = true := List.any_eq_true.mpr ⟨m, hmem, hm⟩
    simp [hr]

theorem endsInComment_of_not_isInked {l : List Mark} (h : isInked l = false) :
    endsInComment l = false := by
  have hf : (l.reverse.find? fun m => !isAsciiBlank m.1) = none := by
    rw [List.find?_eq_none]
    simpa [isInked] using h
  simp [endsInComment, hf]

theorem endsInComment_of_all_code {l : List Mark} (h : ∀ m ∈ l, m.2 = false) :
    endsInComment l = false := by
  cases hf : l.reverse.find? fun m => !isAsciiBlank m.1 with
  | none => simp [endsInComment, hf]
  | some m =>
    have hm := List.mem_reverse.mp (List.mem_of_find?_eq_some hf)
    simp [endsInComment, hf, h m hm]

theorem endsInComment_of_all_comment {l : List Mark} (h : ∀ m ∈ l, m.2 = true)
    (hink : isInked l = true) : endsInComment l = true := by
  obtain ⟨m, hm, hb⟩ := List.any_eq_true.mp hink
  cases hf : l.reverse.find? fun m => !isAsciiBlank m.1 with
  | none =>
    rw [List.find?_eq_none] at hf
    exact absurd hb (hf m (List.mem_reverse.mpr hm))
  | some n =>
    have hn := List.mem_reverse.mp (List.mem_of_find?_eq_some hf)
    simp [endsInComment, hf, h n hn]

theorem hasCode_eq_false_of_all_comment {l : List Mark} (h : ∀ m ∈ l, m.2 = true) :
    hasCode l = false := by
  rw [hasCode, List.any_eq_false]
  intro m hm
  simp [h m hm]

theorem isInked_of_hasCode {l : List Mark} (h : hasCode l = true) : isInked l = true := by
  obtain ⟨m, hm, hb⟩ := List.any_eq_true.mp h
  refine List.any_eq_true.mpr ⟨m, hm, ?_⟩
  cases ha : isAsciiBlank m.1 with
  | false => rfl
  | true => simp [isBlank_of_isAsciiBlank ha] at hb

theorem hasCode_append_of_all_comment {l r : List Mark} (h : ∀ m ∈ l, m.2 = true) :
    hasCode (l ++ r) = hasCode r := by
  have hl := hasCode_eq_false_of_all_comment h
  simp only [hasCode] at hl ⊢
  rw [List.any_append, hl, Bool.false_or]

/-- Code follows a place exactly when the rest of its line is not blank. -/
theorem codeFollows_spell {ps : List Piece} {l : List Mark} {ls : List (List Mark)}
    (h : markedLines (marks ps) = l :: ls) : codeFollows (spell ps) = isInked l := by
  have hmap := map_markedLines (marks ps)
  have hhead := head?_lines (spell ps)
  rw [h, map_fst_marks] at hmap
  rw [← hmap, List.map_cons, List.head?_cons, Option.some_inj] at hhead
  rw [codeFollows, ← hhead, isInked, List.any_map]
  rfl

end Marginalia.Script
