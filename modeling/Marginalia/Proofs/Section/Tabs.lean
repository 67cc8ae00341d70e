import Marginalia.Proofs.Section.Tiles

/-! # Tabs in front of shown lines

The code beside a comment is made of lines of the script with four spaces for each tab they start with.
The lines before the first comment are shown as they stand: only there can a shown line start with a tab.
-/
namespace Marginalia.Section

open Text Script

section Line

def leadingTabs (l : List Char) : Nat :=
  (l.takeWhile (· = '\t')).length

/-- A line with four spaces in place of each of the tabs it starts with. -/
def spaced (l : List Char) : List Char :=
  List.replicate (4 * leadingTabs l) ' ' ++ l.drop (leadingTabs l)

theorem leadingTabs_cons_tab (l : List Char) : leadingTabs ('\t' :: l) = leadingTabs l + 1 := by
  simp [leadingTabs]

theorem leadingTabs_eq_zero {l : List Char} (h : l.head? ≠ some '\t') : leadingTabs l = 0 := by
  cases l with
  | nil => rfl
  | cons c l =>
    have hc : c ≠ '\t' := by simpa using h
    simp [leadingTabs, hc]

theorem spaced_cons_tab (l : List Char) : spaced ('\t' :: l) = ' ' :: ' ' :: ' ' :: ' ' :: spaced l := by
  rw [spaced, leadingTabs_cons_tab, Nat.mul_succ, Nat.add_comm, List.replicate_add]
  rfl

theorem spaced_eq_self {l : List Char} (h : l.head? ≠ some '\t') : spaced l = l := by
  rw [spaced, leadingTabs_eq_zero h]
  rfl

theorem expandTabs_eq_spaced (l : List Char) : expandTabs l = spaced l := by
  fun_induction expandTabs l with
  | case1 l ih => rw [ih, spaced_cons_tab]
  | case2 l hl =>
    have hhead : l.head? ≠ some '\t' := by
      intro h
      obtain ⟨r, hr⟩ := List.head?_eq_some_iff.mp h
      exact hl r hr
    rw [spaced_eq_self hhead]

theorem head?_spaced (l : List Char) : (spaced l).head? ≠ some '\t' := by
  by_cases h : l.head? = some '\t'
  · obtain ⟨r, rfl⟩ := List.head?_eq_some_iff.mp h
    simp [spaced_cons_tab]
  · rwa [spaced_eq_self h]

theorem not_mem_spaced {c : Char} {l : List Char} (hc : c ≠ ' ') (hl : c ∉ l) : c ∉ spaced l := by
  rw [spaced, List.mem_append, List.mem_replicate]
  rintro (⟨-, h⟩ | h)
  · exact hc h
  · exact hl (List.mem_of_mem_drop h)

end Line

section Run

/-- The code of a section has the lines of a run, one for one, each changed by `f`. A run without a line
leaves the code empty. -/
def StandsFor (f : List Char → List Char) (x : Section) (run : List (List Char)) : Prop :=
  if run = [] then x.code = [] else lines x.code = run.map f

/-- The code of a section has the lines of a run with four spaces for each tab they start with, and so no
line that starts with a tab. -/
structure Untabbed (x : Section) (run : List (List Char)) : Prop where
  stands : StandsFor spaced x run
  no_tab : ∀ l ∈ lines x.code, l.head? ≠ some '\t'

variable {f : List Char → List Char} {x : Section} {run : List (List Char)}

theorem standsFor_unlines (hno : ∀ l ∈ run.map f, '\n' ∉ l) (hx : x.code = unlines (run.map f)) :
    StandsFor f x run := by
  rw [StandsFor, hx]
  split
  · next hrun =>
    rw [hrun]
    rfl
  · next hrun => exact lines_unlines (by simpa using hrun) hno

theorem StandsFor.untabbed (h : StandsFor spaced x run) : Untabbed x run := by
  refine ⟨h, ?_⟩
  rw [StandsFor] at h
  split at h
  · -- an empty code has one line, which is empty too
    simp [h, lines]
  · rw [h]
    exact List.forall_mem_map.mpr fun l _ => head?_spaced l

theorem StandsFor.untabbed_iff (h : StandsFor id x run) :
    Untabbed x run ↔ ∀ l ∈ run, l.head? ≠ some '\t' := by
  constructor
  · intro hx l hl
    have hrun : run ≠ [] := List.ne_nil_of_mem hl
    rw [StandsFor, if_neg hrun, List.map_id] at h
    exact hx.no_tab l (h ▸ hl)
  · intro hrun
    have hmap : run.map id = run.map spaced :=
      List.map_congr_left fun l hl => (spaced_eq_self (hrun l hl)).symm
    have hx : StandsFor spaced x run := by rwa [StandsFor, ← hmap]
    exact hx.untabbed

end Run

section Script

/-- The run of lines that each comment leaves to its section: from where its code starts up to the next
comment. -/
def codeRunsOf (ls : List (List Char)) (cs : List Comment) : List (List (List Char)) :=
  List.zipWith (fun c next => lineRange ls c.codeStart (next - 1)) cs (nextLines ls.length cs)

/-- The run of lines before the first comment; there is none if these lines are blank. -/
def leadRunsOf (ls : List (List Char)) (cs : List Comment) : List (List (List Char)) :=
  match cs with
  | [] => []
  | c :: _ =>
    let run := lineRange ls 1 (c.line - 1)
    if run.all (·.all isBlank) then [] else [run]

def codeRuns (s : List Char) : List (List (List Char)) :=
  codeRunsOf (lines s) (comments s)

def leadRuns (s : List Char) : List (List (List Char)) :=
  leadRunsOf (lines s) (comments s)

theorem not_mem_of_mem_lineRange {s l : List Char} {a b : Nat} (hl : l ∈ lineRange (lines s) a b) :
    '\n' ∉ l :=
  not_mem_of_mem_splitOn (List.mem_of_mem_take (List.mem_of_mem_drop hl))

theorem standsFor_ofComments (s : List Char) (cs : List Comment) :
    List.Forall₂ (StandsFor spaced) (ofComments (lines s) cs) (codeRunsOf (lines s) cs) := by
  rw [ofComments_eq_zipWith, codeRunsOf, ← List.map_uncurry_zip_eq_zipWith,
    ← List.map_uncurry_zip_eq_zipWith, List.forall₂_map_left_iff, List.forall₂_map_right_iff,
    List.forall₂_same]
  rintro ⟨c, next⟩ -
  have hmap : (lineRange (lines s) c.codeStart (next - 1)).map expandTabs =
      (lineRange (lines s) c.codeStart (next - 1)).map spaced :=
    List.map_congr_left fun l _ => expandTabs_eq_spaced l
  refine standsFor_unlines (List.forall_mem_map.mpr fun l hl => ?_) (congrArg unlines hmap)
  exact not_mem_spaced (by decide) (not_mem_of_mem_lineRange hl)

theorem exists_standsFor_lead (ps : List Piece) :
    ∃ lead, ofPieces ps = lead ++ ofComments (lines (spell ps)) (commentsFrom 1 ps) ∧
      List.Forall₂ (StandsFor id) lead (leadRunsOf (lines (spell ps)) (commentsFrom 1 ps)) := by
  cases hcs : commentsFrom 1 ps with
  | nil => exact ⟨[], by simp [ofPieces, ofComments, hcs], by simp [leadRunsOf]⟩
  | cons c cs =>
    refine ⟨preamble (lines (spell ps)) c, by simp [ofPieces, hcs], ?_⟩
    have hrun : (lines (spell ps)).take (c.line - 1) = lineRange (lines (spell ps)) 1 (c.line - 1) := by
      simp [lineRange]
    simp only [leadRunsOf, preamble, hrun, allBlank_unlines]
    split
    · exact List.Forall₂.nil
    · -- the text before the first comment is joined without a look at its tabs
      have hno : ∀ l ∈ lineRange (lines (spell ps)) 1 (c.line - 1), '\n' ∉ l :=
        fun l hl => not_mem_of_mem_lineRange hl
      exact List.Forall₂.cons (standsFor_unlines (by simpa using hno) (by simp)) List.Forall₂.nil

theorem forall₂_untabbed_append_iff {xs ys : List Section} {runs more : List (List (List Char))}
    (hx : List.Forall₂ (StandsFor id) xs runs) (hy : List.Forall₂ Untabbed ys more) :
    List.Forall₂ Untabbed (xs ++ ys) (runs ++ more) ↔ ∀ l ∈ runs.flatten, l.head? ≠ some '\t' := by
  induction hx with
  | nil => simpa using hy
  | cons hhead _ ih =>
    rw [List.cons_append, List.cons_append, List.forall₂_cons, hhead.untabbed_iff, ih, List.flatten_cons,
      List.forall_mem_append]

/-- The section of each comment shows its run of lines with four spaces for each tab they start with; the
run before the first comment is shown as it stands. So all sections of pieces are without leading tabs
exactly when no line of the run before the first comment starts with one. -/
theorem ofPieces_untabbed_iff (ps : List Piece) :
    (∃ lead beside, ofPieces ps = lead ++ beside ∧
      List.Forall₂ (StandsFor id) lead (leadRunsOf (lines (spell ps)) (commentsFrom 1 ps)) ∧
      List.Forall₂ Untabbed beside (codeRunsOf (lines (spell ps)) (commentsFrom 1 ps))) ∧
    (List.Forall₂ Untabbed (ofPieces ps) (leadRunsOf (lines (spell ps)) (commentsFrom 1 ps) ++
        codeRunsOf (lines (spell ps)) (commentsFrom 1 ps)) ↔
      ∀ l ∈ (leadRunsOf (lines (spell ps)) (commentsFrom 1 ps)).flatten, l.head? ≠ some '\t') := by
  obtain ⟨lead, hpieces, hlead⟩ := exists_standsFor_lead ps
  have hbeside : List.Forall₂ Untabbed (ofComments (lines (spell ps)) (commentsFrom 1 ps))
      (codeRunsOf (lines (spell ps)) (commentsFrom 1 ps)) :=
    (standsFor_ofComments _ _).imp fun _ _ h => h.untabbed
  refine ⟨⟨lead, _, hpieces, hlead, hbeside⟩, ?_⟩
  rw [hpieces]
  exact forall₂_untabbed_append_iff hlead hbeside

/-- The section of each comment shows its run of lines with four spaces for each tab they start with; the
run before the first comment is shown as it stands. So all sections of a script are without leading tabs
exactly when no line of the run before its first comment starts with one. -/
theorem ofScript_untabbed_iff (s : List Char) :
    (∃ lead beside, ofScript s = lead ++ beside ∧ List.Forall₂ (StandsFor id) lead (leadRuns s) ∧
      List.Forall₂ Untabbed beside (codeRuns s)) ∧
    (List.Forall₂ Untabbed (ofScript s) (leadRuns s ++ codeRuns s) ↔
      ∀ l ∈ (leadRuns s).flatten, l.head? ≠ some '\t') := by
  have h := ofPieces_untabbed_iff (pieces s)
  rwa [← ofScript_eq_ofPieces, spell_pieces] at h

/-- A tab before the first comment stays, one beside the comment does not. -/
theorem ofScript_keeps_leading_tab :
    ofScript "\tx\n/* a */\n\ty".toList =
        [{ docs := [], code := "\tx".toList }, { docs := "a".toList, code := "    y".toList }] ∧
      ¬ List.Forall₂ Untabbed (ofScript "\tx\n/* a */\n\ty".toList)
        (leadRuns "\tx\n/* a */\n\ty".toList ++ codeRuns "\tx\n/* a */\n\ty".toList) := by
  refine ⟨by decide, ?_⟩
  rw [(ofScript_untabbed_iff _).2]
  decide

end Script

end Marginalia.Section
