import Marginalia.Proofs.Section.Coverage
import Marginalia.Proofs.Text.Trim

/-! # The sections of a script tile its lines

The lines of a script with comments are those before the first comment and, for each comment, the lines
that it covers and the lines that its section shows. No two of these runs overlap, and none reaches past
the script.
-/
namespace Marginalia.Section

open Text Script

theorem lineRange_append (ls : List (List Char)) {a b c : Nat} (ha : 1 ≤ a) (hab : a ≤ b) (hbc : b ≤ c) :
    lineRange ls a (b - 1) ++ lineRange ls b (c - 1) = lineRange ls a (c - 1) := by
  have hfirst : (ls.take (b - 1)).drop (a - 1) = ((ls.take (c - 1)).drop (a - 1)).take (b - a) := by
    rw [List.take_drop, List.take_take]
    congr 2
    omega
  have hsecond : (ls.take (c - 1)).drop (b - 1) = ((ls.take (c - 1)).drop (a - 1)).drop (b - a) := by
    rw [List.drop_drop]
    congr 1
    omega
  rw [lineRange, lineRange, lineRange, hfirst, hsecond, List.take_append_drop]

/-- The line on which the comment after each comment opens; after the last one, the line after all `n`
lines. -/
def nextLines (n : Nat) (cs : List Comment) : List Nat :=
  cs.tail.map (·.line) ++ [n + 1]

theorem nextLines_cons_cons (n : Nat) (c d : Comment) (cs : List Comment) :
    nextLines n (c :: d :: cs) = d.line :: nextLines n (d :: cs) := rfl

/-- The lines of a comment and of its section: those it covers and those shown beside it. -/
def tile (ls : List (List Char)) (c : Comment) (next : Nat) : List (List Char) :=
  lineRange ls c.line (c.codeStart - 1) ++ lineRange ls c.codeStart (next - 1)

/-- The section of a comment that the next one follows on a given line. -/
def ofComment (ls : List (List Char)) (c : Comment) (next : Nat) : Section where
  docs := c.description
  code := unlines ((lineRange ls c.codeStart (next - 1)).map expandTabs)

theorem ofComments_eq_zipWith (ls : List (List Char)) (cs : List Comment) :
    ofComments ls cs = List.zipWith (ofComment ls) cs (nextLines ls.length cs) := by
  induction cs with
  | nil => rfl
  | cons c cs ih =>
    cases cs with
    | nil => rfl
    | cons d cs =>
      rw [nextLines_cons_cons, List.zipWith_cons_cons, ← ih]
      rfl

/-- What the order of comments says of each one and of where the next one opens. -/
theorem bounds_of_ordered {n a : Nat} {cs : List Comment} (ho : Ordered a cs) (hw : Within n cs) :
    ∀ x ∈ cs.zip (nextLines n cs),
      a ≤ x.1.line ∧ x.1.line ≤ x.1.codeStart ∧ x.1.codeStart ≤ x.2 ∧ x.2 ≤ n + 1 := by
  induction cs generalizing a with
  | nil => simp
  | cons c cs ih =>
    have hc : c.codeStart ≤ n + 1 := hw c List.mem_cons_self
    intro x hx
    cases cs with
    | nil =>
      obtain rfl : x = (c, n + 1) := by simpa [nextLines] using hx
      exact ⟨ho.1, ho.2.1, hc, le_rfl⟩
    | cons d cs =>
      rw [nextLines_cons_cons, List.zip_cons_cons, List.mem_cons] at hx
      rcases hx with rfl | hx
      · have hd : d.codeStart ≤ n + 1 := hw.tail d List.mem_cons_self
        exact ⟨ho.1, ho.2.1, ho.2.2.1, ho.2.2.2.1.trans hd⟩
      · obtain ⟨hline, hrest⟩ := ih ho.2.2 hw.tail x hx
        exact ⟨(ho.1.trans ho.2.1).trans hline, hrest⟩

/-- The tiles of comments are the lines from the first comment on. -/
theorem flatten_tiles {ls : List (List Char)} {a : Nat} {c : Comment} {cs : List Comment} (ha : 1 ≤ a)
    (ho : Ordered a (c :: cs)) (hw : Within ls.length (c :: cs)) :
    (List.zipWith (tile ls) (c :: cs) (nextLines ls.length (c :: cs))).flatten =
      lineRange ls c.line ls.length := by
  have hline : 1 ≤ c.line := ha.trans ho.1
  have hstart : c.codeStart ≤ ls.length + 1 := hw c List.mem_cons_self
  induction cs generalizing a c with
  | nil =>
    have hcut := lineRange_append ls hline ho.2.1 hstart
    simpa [nextLines, tile] using hcut
  | cons d cs ih =>
    have hd : 1 ≤ d.line := hline.trans (ho.2.1.trans ho.2.2.1)
    have hrest := ih (hline.trans ho.2.1) ho.2.2 hw.tail hd (hw.tail d List.mem_cons_self)
    have hdn : d.line ≤ ls.length + 1 := ho.2.2.2.1.trans (hw.tail d List.mem_cons_self)
    have hcut := lineRange_append ls hline ho.2.1 ho.2.2.1
    have hjoin := lineRange_append ls hline (ho.2.1.trans ho.2.2.1) hdn
    rw [nextLines_cons_cons, List.zipWith_cons_cons, List.flatten_cons, hrest, tile, hcut]
    exact hjoin

/-- The sections of pieces with comments tile the lines that the pieces spell. The lines are those before
the first comment and, comment by comment, those the comment covers and those its section shows; the bounds
of these runs are in order. The lines before the first comment are a section of their own exactly when one
of them is not blank; then each comment has its section, with the leading tabs of its lines expanded. -/
theorem ofPieces_tiles {ps : List Piece} (hps : Slashed ps) {ls : List (List Char)} (hls : lines (spell ps) = ls)
    {c : Comment} {cs : List Comment} (hcs : commentsFrom 1 ps = c :: cs) :
    ls = lineRange ls 1 (c.line - 1) ++
      (List.zipWith (tile ls) (c :: cs) (nextLines ls.length (c :: cs))).flatten ∧
    ofPieces ps =
      (if (lineRange ls 1 (c.line - 1)).any (·.any fun x => !isBlank x) then
        [{ docs := [], code := unlines (lineRange ls 1 (c.line - 1)) }] else []) ++
      List.zipWith (ofComment ls) (c :: cs) (nextLines ls.length (c :: cs)) ∧
    ∀ x ∈ (c :: cs).zip (nextLines ls.length (c :: cs)),
      1 ≤ x.1.line ∧ x.1.line ≤ x.1.codeStart ∧ x.1.codeStart ≤ x.2 ∧ x.2 ≤ ls.length + 1 := by
  have ho : Ordered 1 (c :: cs) := hcs ▸ ordered_commentsFrom hps
  have hw : Within ls.length (c :: cs) := hls ▸ hcs ▸ within_commentsFrom ps
  refine ⟨?_, ?_, bounds_of_ordered ho hw⟩
  · rw [flatten_tiles le_rfl ho hw]
    simp [lineRange]
  · have hlead : ls.take (c.line - 1) = lineRange ls 1 (c.line - 1) := by simp [lineRange]
    have hblank : allBlank (unlines (lineRange ls 1 (c.line - 1))) =
        !(lineRange ls 1 (c.line - 1)).any (·.any fun x => !isBlank x) := by
      rw [allBlank_unlines]
      simp [List.all_eq_not_any_not]
    simp only [ofPieces, hls, hcs, preamble, hlead, hblank, ofComments_eq_zipWith]
    cases (lineRange ls 1 (c.line - 1)).any (·.any fun x => !isBlank x) <;> rfl

/-- The sections of a script with comments tile its lines. The lines are those before the first comment
and, comment by comment, those the comment covers and those its section shows; the bounds of these runs
are in order. The lines before the first comment are a section of their own exactly when one of them is
not blank; then each comment has its section, with the leading tabs of its lines expanded. -/
theorem ofScript_tiles (s : List Char) {c : Comment} {cs : List Comment} (hcs : comments s = c :: cs) :
    lines s = lineRange (lines s) 1 (c.line - 1) ++
      (List.zipWith (tile (lines s)) (c :: cs) (nextLines (lines s).length (c :: cs))).flatten ∧
    ofScript s =
      (if (lineRange (lines s) 1 (c.line - 1)).any (·.any fun x => !isBlank x) then
        [{ docs := [], code := unlines (lineRange (lines s) 1 (c.line - 1)) }] else []) ++
      List.zipWith (ofComment (lines s)) (c :: cs) (nextLines (lines s).length (c :: cs)) ∧
    ∀ x ∈ (c :: cs).zip (nextLines (lines s).length (c :: cs)),
      1 ≤ x.1.line ∧ x.1.line ≤ x.1.codeStart ∧ x.1.codeStart ≤ x.2 ∧ x.2 ≤ (lines s).length + 1 := by
  rw [ofScript_eq_ofPieces]
  exact ofPieces_tiles (slashed_pieces s) (congrArg lines (spell_pieces s)) hcs

/-- Two comments of which the second opens where the first one closes: the first has no line of its own to
show, and the blank line before both is no section. -/
theorem ofScript_tiles_adjacent :
    comments "\n/* a */ /* b */\n\tx".toList = [⟨2, 2, true, "a".toList⟩, ⟨2, 2, false, "b".toList⟩] ∧
      ofScript "\n/* a */ /* b */\n\tx".toList =
        [{ docs := "a".toList, code := [] }, { docs := "b".toList, code := "    x".toList }] := by
  have hcs : comments "\n/* a */ /* b */\n\tx".toList =
      [⟨2, 2, true, "a".toList⟩, ⟨2, 2, false, "b".toList⟩] := by decide
  obtain ⟨-, hsections, -⟩ := ofScript_tiles _ hcs
  exact ⟨hcs, hsections.trans (by decide)⟩

/-- A section does not always hold the lines of its run as they stand: leading tabs are expanded. -/
theorem ofScript_expands_tabs :
    comments "/* a */\n\tx".toList = [⟨1, 1, false, "a".toList⟩] ∧
      lineRange (lines "/* a */\n\tx".toList) 2 2 = ["\tx".toList] ∧
      ofScript "/* a */\n\tx".toList ≠ [{ docs := "a".toList, code := unlines ["\tx".toList] }] := by
  decide

end Marginalia.Section
