import Mathlib.Order.Nat
import Marginalia.Proofs.Script.Marks

/-! # The lines that comments cover

Comments stand in order and do not overlap: each one's code starts no later than the next one opens. So
the lines of a script are those covered by a comment and those in between, and which of them a comment
covers can be read off the marks of the line alone.
-/
namespace Marginalia.Script

open Text

section Steps

variable {st : State} {c : Char} {s : List Char}

theorem openBrace_comment : (State.openBrace st).comment = false := by
  unfold State.openBrace
  repeat' split
  all_goals rfl

theorem close_comment : (State.close st).comment = false := by
  unfold State.close
  split <;> rfl

theorem colon_comment : (State.colon st).comment = false := by
  unfold State.colon
  split <;> rfl

theorem word_comment (w : List Char) : (State.word st w s).comment = false := by
  unfold State.word
  repeat' split
  all_goals rfl

theorem codeStep_comment (h : (codeStep st c s).comment = true) : c = '/' := by
  unfold codeStep at h
  split at h
  · exact absurd h (by simp [State.skipBlank])
  · split at h
    case h_1 => rfl
    case h_2 => rfl
    case h_3 => rfl
    all_goals
      exfalso
      revert h
      repeat' split
      all_goals simp [State.read, State.skip, State.enter, State.leaveTo, openBrace_comment, close_comment,
        colon_comment, word_comment]

theorem tagStep_comment (h : (tagStep st c s).comment = true) : c = '/' := by
  unfold tagStep at h
  split at h
  all_goals first | rfl | exact absurd h (by simp [State.skip, State.enter])

theorem endTagStep_comment (h : (endTagStep st c s).comment = true) : c = '/' := by
  unfold endTagStep at h
  split at h
  all_goals first | rfl | exact absurd h (by simp [State.skip])

theorem templateStep_comment : (templateStep st c s).comment = false := by
  unfold templateStep
  split <;> rfl

theorem childrenStep_comment : (childrenStep st c s).comment = false := by
  unfold childrenStep
  split <;> rfl

theorem step_comment (h : (step st c s).comment = true) : c = '/' := by
  unfold step at h
  split at h
  · exact absurd h (by simp [templateStep_comment])
  · exact tagStep_comment h
  · exact endTagStep_comment h
  · exact absurd h (by simp [childrenStep_comment])
  · exact codeStep_comment h

end Steps

/-- Every comment among pieces starts with a slash. -/
def Slashed (ps : List Piece) : Prop :=
  ∀ p ∈ ps, p.comment = true → ∃ r, p.text = '/' :: r

theorem slashed_piecesFrom (fuel : Nat) (st : State) (s : List Char) :
    Slashed (piecesFrom fuel st s) := by
  induction fuel generalizing st s with
  | zero => cases s <;> simp [piecesFrom, Slashed]
  | succ fuel ih =>
    cases s with
    | nil => simp [piecesFrom, Slashed]
    | cons c s =>
      intro p hp hc
      simp only [piecesFrom] at hp
      rcases List.mem_cons.mp hp with rfl | hp
      · exact ⟨_, by rw [step_comment hc]⟩
      · exact ih _ _ p hp hc

theorem slashed_pieces (s : List Char) : Slashed (pieces s) := by
  unfold pieces
  split
  · intro p hp hc
    rcases List.mem_cons.mp hp with rfl | hp
    · simp at hc
    · exact slashed_piecesFrom _ _ _ p hp hc
  · exact slashed_piecesFrom _ _ _

/-- A comment covers the lines from its opening up to where its code starts. -/
def Comment.Covers (c : Comment) (line : Nat) : Prop :=
  c.line ≤ line ∧ line < c.codeStart

/-- Comments stand in order, none before the given line, and each one's code starts no later than the
next one opens. -/
def Ordered : Nat → List Comment → Prop
  | _, [] => True
  | line, c :: cs => line ≤ c.line ∧ c.line ≤ c.codeStart ∧ Ordered c.codeStart cs

theorem Ordered.weaken {a b : Nat} {cs : List Comment} (h : Ordered b cs) (hab : a ≤ b) :
    Ordered a cs := by
  cases cs with
  | nil => trivial
  | cons c cs => exact ⟨hab.trans h.1, h.2⟩

theorem line_le_of_mem_commentsFrom {line : Nat} {ps : List Piece} {c : Comment}
    (h : c ∈ commentsFrom line ps) : line ≤ c.line := by
  induction ps generalizing line with
  | nil => simp [commentsFrom] at h
  | cons p ps ih =>
    simp only [commentsFrom] at h
    split at h
    · rcases List.mem_cons.mp h with rfl | h
      · exact le_rfl
      · exact (Nat.le_add_right _ _).trans (ih h)
    · exact (Nat.le_add_right _ _).trans (ih h)

theorem le_codeStart {line k : Nat} {follows : Bool} {d : List Char} :
    line + k ≤ (Comment.mk line (line + k) follows d).codeStart := by
  cases follows <;> simp [Comment.codeStart]

/-- Where the next comment opens on the closing line of one, code follows that one. -/
theorem codeFollows_of_line_eq {line : Nat} {ps : List Piece} (hps : Slashed ps) {c : Comment}
    {cs : List Comment} (h : commentsFrom line ps = c :: cs) (hc : c.line = line) :
    codeFollows (spell ps) = true := by
  induction ps with
  | nil => simp [commentsFrom] at h
  | cons p ps ih =>
    have hps' : Slashed ps := fun q hq => hps q (List.mem_cons_of_mem _ hq)
    simp only [commentsFrom] at h
    split at h
    · next hp =>
      -- a comment opens with a slash, which is code for what stands before it
      obtain ⟨r, hr⟩ := hps p List.mem_cons_self hp
      rw [spell_cons, hr, codeFollows, List.any_eq_true]
      refine ⟨'/', ?_, by decide⟩
      simp
    · -- a piece without a line end before a comment on the same line
      have hmem : c ∈ commentsFrom (line + lineCount p.text) ps := by simp [h]
      have hle := line_le_of_mem_commentsFrom hmem
      have hk : lineCount p.text = 0 := by omega
      rw [hk] at h
      have hrest := ih hps' h
      rw [codeFollows, List.any_eq_true] at hrest ⊢
      obtain ⟨m, hm, hb⟩ := hrest
      refine ⟨m, ?_, hb⟩
      have hnl : ∀ x ∈ p.text, decide (x ≠ '\n') = true := by
        intro x hx
        have : x ≠ '\n' := fun he => by
          subst he
          exact List.count_pos_iff.mpr hx |>.ne' hk
        simpa using this
      rw [spell_cons, List.takeWhile_append_of_pos hnl]
      exact List.mem_append_right _ hm

/-- The comments of pieces are in order. -/
theorem ordered_commentsFrom {line : Nat} {ps : List Piece} (hps : Slashed ps) :
    Ordered line (commentsFrom line ps) := by
  induction ps generalizing line with
  | nil => trivial
  | cons p ps ih =>
    have hps' : Slashed ps := fun q hq => hps q (List.mem_cons_of_mem _ hq)
    have hrest : Ordered _ (commentsFrom (line + lineCount p.text) ps) := ih hps'
    simp only [commentsFrom]
    split
    · refine ⟨le_rfl, ?_, ?_⟩
      · exact (Nat.le_add_right _ _).trans le_codeStart
      · cases hcs : commentsFrom (line + lineCount p.text) ps with
        | nil => trivial
        | cons c cs =>
          rw [hcs] at hrest
          refine ⟨?_, hrest.2⟩
          have hle := hrest.1
          by_cases hc : c.line = line + lineCount p.text
          · simp only [Comment.codeStart, codeFollows_of_line_eq hps' hcs hc, ↓reduceIte]
            exact hle
          · simp only [Comment.codeStart]
            split <;> omega
    · exact hrest.weaken (Nat.le_add_right _ _)

/-- The code after the last comment starts at most one line after the last line of the script. -/
theorem codeStart_le_of_mem_commentsFrom {line : Nat} {ps : List Piece} {c : Comment}
    (h : c ∈ commentsFrom line ps) : c.codeStart ≤ line + lineCount (spell ps) + 1 := by
  induction ps generalizing line with
  | nil => simp [commentsFrom] at h
  | cons p ps ih =>
    have hcount : lineCount (spell (p :: ps)) = lineCount p.text + lineCount (spell ps) := by
      simp [spell_cons, lineCount]
    simp only [commentsFrom] at h
    split at h
    · rcases List.mem_cons.mp h with rfl | h
      · simp only [Comment.codeStart]
        split <;> omega
      · have := ih h
        omega
    · have := ih h
      omega

/-- How the marks of a piece continue with further marks: `init` are the lines that the piece ends by
itself, `last` stands before the first line of the marks that follow. -/
structure Split (p : Piece) (init : List (List Mark)) (last : List Mark) : Prop where
  length : init.length = lineCount p.text
  marked : ∀ l ∈ init ++ [last], ∀ m ∈ l, m.2 = p.comment
  head : ∀ r, p.text = '/' :: r → ∀ l ls, init ++ [last] = l :: ls → isInked l = true
  append : ∀ ms, markedLines (p.marks ++ ms) = init ++ (markedLines ms).modifyHead (last ++ ·)

theorem exists_split (p : Piece) : ∃ init last, Split p init last := by
  obtain ⟨init, last, heq, hlen, happ⟩ := splitOnP_append Mark.isEnd p.marks
  refine ⟨init, last, ?_, ?_, ?_, happ⟩
  · rw [hlen, Piece.marks, List.countP_map, lineCount, List.count]
    rfl
  · intro l hl m hm
    have hsub : ∀ m ∈ l, m ∈ p.marks := by
      rw [← heq] at hl
      exact fun m hm => mem_of_mem_splitOnP hl hm
    obtain ⟨c, _, rfl⟩ := List.mem_map.mp (hsub m hm)
    rfl
  · intro r hr l ls hls
    rw [← heq, Piece.marks, hr, List.map_cons, List.splitOnP_cons_eq_if_modifyHead] at hls
    obtain ⟨a, as, ha⟩ := List.exists_cons_of_ne_nil
      (List.splitOnP_ne_nil Mark.isEnd (r.map fun c => (c, p.comment)))
    rw [ha] at hls
    simp only [Mark.isEnd, Char.reduceBEq, Bool.false_eq_true, ↓reduceIte, List.modifyHead_cons,
      List.cons.injEq] at hls
    rw [← hls.1]
    simp [isInked, isAsciiBlank]

/-- Some comment covers a line. -/
def Covered (cs : List Comment) (line : Nat) : Prop :=
  ∃ c ∈ cs, c.Covers line

theorem covered_cons {c : Comment} {cs : List Comment} {line : Nat} :
    Covered (c :: cs) line ↔ c.Covers line ∨ Covered cs line := by
  simp [Covered]

theorem not_covered_of_lt {line k : Nat} {ps : List Piece} (h : line < k) :
    ¬ Covered (commentsFrom k ps) line := by
  rintro ⟨c, hc, hle, _⟩
  have := line_le_of_mem_commentsFrom hc
  omega

theorem endsInComment_append_code {l r : List Mark} (h : ∀ m ∈ l, m.2 = false) :
    endsInComment (l ++ r) = endsInComment r := by
  rw [endsInComment_append]
  split
  · rfl
  · next hr =>
    rw [endsInComment_of_all_code h, endsInComment_of_not_isInked (by simpa using hr)]

/-- What the marks of the lines say about the comments that start on a given line or later: `first` is
the rest of that line, the other lines are whole. -/
structure Told (cs : List Comment) (line : Nat) (ls : List (List Mark)) : Prop where
  first : ∀ l, ls[0]? = some l → (Covered cs line ↔ endsInComment l = true)
  later : ∀ j l, ls[j + 1]? = some l → hasCode l = true →
    (Covered cs (line + (j + 1)) ↔ endsInComment l = true)

/-- Lines are told by what stands before a line, by that line, and by what stands behind it. -/
theorem told_of_append {cs : List Comment} {line : Nat} {init ls : List (List Mark)} {closing : List Mark}
    (hbefore : ∀ j l, init[j]? = some l → (j = 0 ∨ hasCode l = true) →
      (Covered cs (line + j) ↔ endsInComment l = true))
    (hclosing : init = [] ∨ hasCode closing = true →
      (Covered cs (line + init.length) ↔ endsInComment closing = true))
    (hafter : ∀ k l, ls[k]? = some l → hasCode l = true →
      (Covered cs (line + init.length + (k + 1)) ↔ endsInComment l = true)) :
    Told cs line (init ++ closing :: ls) := by
  have hall : ∀ j l, (init ++ closing :: ls)[j]? = some l → (j = 0 ∨ hasCode l = true) →
      (Covered cs (line + j) ↔ endsInComment l = true) := by
    intro j l hl hcode
    rcases Nat.lt_or_ge j init.length with hj | hj
    · rw [List.getElem?_append_left hj] at hl
      exact hbefore j l hl hcode
    · rw [List.getElem?_append_right hj] at hl
      obtain ⟨k, rfl⟩ := Nat.exists_eq_add_of_le hj
      rw [Nat.add_sub_cancel_left] at hl
      cases k with
      | zero =>
        obtain rfl := Option.some.inj hl
        exact hclosing (hcode.imp_left List.eq_nil_of_length_eq_zero)
      | succ k =>
        rw [← Nat.add_assoc]
        exact hafter k l hl (hcode.resolve_left (by omega))
  exact ⟨fun l hl => hall 0 l hl (Or.inl rfl), fun j l hl hcode => hall (j + 1) l hl (Or.inr hcode)⟩

theorem Told.code {p : Piece} (hp : p.comment = false) {line : Nat} {ps : List Piece}
    (h : Told (commentsFrom (line + lineCount p.text) ps) (line + lineCount p.text)
      (markedLines (marks ps))) :
    Told (commentsFrom (line + lineCount p.text) ps) line (markedLines (marks (p :: ps))) := by
  obtain ⟨init, last, hsplit⟩ := exists_split p
  obtain ⟨l₀, ls, hls⟩ := List.exists_cons_of_ne_nil (List.splitOnP_ne_nil Mark.isEnd (marks ps))
  have hmark : ∀ l ∈ init ++ [last], ∀ m ∈ l, m.2 = false := hp ▸ hsplit.marked
  have hlen := hsplit.length
  rw [marks_cons, hsplit.append, markedLines, hls, List.modifyHead_cons]
  refine told_of_append (fun j l hl _ => ?_) (fun _ => ?_) (fun k l hl hcode => ?_)
  · -- a line of the piece alone is code and ends before the first comment
    have hj : j < init.length := (List.getElem?_eq_some_iff.mp hl).1
    rw [endsInComment_of_all_code (hmark l (List.mem_append_left _ (List.mem_of_getElem? hl)))]
    simpa using not_covered_of_lt (by omega)
  · rw [hlen, h.first l₀ (by simp [markedLines, hls]), endsInComment_append_code (hmark last (by simp))]
  · rw [hlen, h.later k l (by simpa [markedLines, hls] using hl) hcode]

theorem Told.comment {p : Piece} (hp : p.comment = true) {r : List Char} (hr : p.text = '/' :: r)
    {line : Nat} {ps : List Piece} {c : Comment} (hline : c.line = line)
    (hend : c.endLine = line + lineCount p.text) (hcode : c.trailingCode = codeFollows (spell ps))
    (h : Told (commentsFrom (line + lineCount p.text) ps) (line + lineCount p.text)
      (markedLines (marks ps))) :
    Told (c :: commentsFrom (line + lineCount p.text) ps) line (markedLines (marks (p :: ps))) := by
  obtain ⟨init, last, hsplit⟩ := exists_split p
  obtain ⟨l₀, ls, hls⟩ := List.exists_cons_of_ne_nil (List.splitOnP_ne_nil Mark.isEnd (marks ps))
  have hmark : ∀ l ∈ init ++ [last], ∀ m ∈ l, m.2 = true := hp ▸ hsplit.marked
  have hlast := hmark last (by simp)
  have hlen := hsplit.length
  have hfirst := h.first l₀ (by simp [markedLines, hls])
  have hstart : c.codeStart = if isInked l₀ then c.endLine else c.endLine + 1 := by
    rw [Comment.codeStart, hcode, codeFollows_spell (by simpa [markedLines] using hls)]
  have hcovers : c.Covers (line + init.length) ↔ isInked l₀ = false := by
    rw [Comment.Covers, hstart, hline, hend, hlen]
    cases isInked l₀ <;> simp
  rw [marks_cons, hsplit.append, markedLines, hls, List.modifyHead_cons]
  refine told_of_append (fun j l hl hj => ?_) (fun hclosing => ?_) (fun k l hl hl' => ?_)
  · have hl' := hmark l (List.mem_append_left _ (List.mem_of_getElem? hl))
    rcases hj with rfl | hj
    · -- the comment opens here and goes on, so it covers the line
      obtain ⟨hpos, hi⟩ := List.getElem?_eq_some_iff.mp hl
      have hink : isInked l = true := by
        obtain ⟨i, init', rfl⟩ := List.exists_cons_of_length_pos hpos
        exact hi ▸ hsplit.head r hr i (init' ++ [last]) rfl
      have hcov : c.Covers line := by
        refine ⟨hline.le, ?_⟩
        rw [hstart]
        split <;> omega
      rw [endsInComment_of_all_comment hl' hink, covered_cons]
      simp [hcov]
    · -- a whole line inside the comment holds no code
      rw [hasCode_eq_false_of_all_comment hl'] at hj
      cases hj
  · -- the line on which the comment closes is covered unless code follows on it
    rw [covered_cons, hcovers, hlen, hfirst, endsInComment_append]
    cases hink : isInked l₀ with
    | true => simp
    | false =>
      rcases hclosing with rfl | hcode'
      · simp [endsInComment_of_not_isInked hink,
          endsInComment_of_all_comment hlast (hsplit.head r hr last [] rfl)]
      · rw [hasCode_append_of_all_comment hlast] at hcode'
        rw [isInked_of_hasCode hcode'] at hink
        cases hink
  · -- past that line only later comments matter
    have hnot : ¬ c.Covers (line + init.length + (k + 1)) := by
      rintro ⟨_, hlt⟩
      rw [hstart] at hlt
      split at hlt <;> omega
    rw [covered_cons, or_iff_right hnot, hlen, h.later k l (by simpa [markedLines, hls] using hl) hl']

/-- The marks of each line tell whether a comment covers it. -/
theorem told_comments {ps : List Piece} (hps : Slashed ps) (line : Nat) :
    Told (commentsFrom line ps) line (markedLines (marks ps)) := by
  induction ps generalizing line with
  | nil =>
    refine ⟨fun l hl => ?_, fun j l hl => ?_⟩
    · have : l = [] := by simpa [marks, markedLines] using hl.symm
      simp [this, commentsFrom, Covered, endsInComment]
    · simp [marks, markedLines] at hl
  | cons p ps ih =>
    have hrest := ih (fun q hq => hps q (List.mem_cons_of_mem _ hq)) (line + lineCount p.text)
    simp only [commentsFrom]
    cases hp : p.comment with
    | true =>
      obtain ⟨r, hr⟩ := hps p List.mem_cons_self hp
      exact Told.comment hp hr rfl rfl rfl hrest
    | false => exact Told.code hp hrest

end Marginalia.Script
