import Marginalia.Proofs.Text.Trim
import Marginalia.Script.Comment

/-! # What a description keeps of a comment

A description is the prose of a comment up to its first line that starts with a tag, without the blanks at
its end. A tag that stands behind blanks does not end it, unless the prose starts with that tag.
-/
namespace Marginalia.Script

open Text

/-- Whether a line starts with a tag. -/
def startsTag (l : List Char) : Bool :=
  l.head? = some '@'

/-- Whether the first character of a line that is no blank starts a tag. -/
def isTagLine (l : List Char) : Bool :=
  startsTag (trimStart l)

/-- The lines before the first one that starts with a tag. -/
def untagged (ls : List (List Char)) : List (List Char) :=
  ls.takeWhile fun l => !startsTag l

/-- What stands between the signs of a comment, without its gutter and its outer blanks. -/
def prose (raw : List Char) : List Char :=
  strip (unlines ((lines (body raw)).map dropGutter))

section Tags

variable {l m : List Char} {ls : List (List Char)}

theorem untagged_cons_of_startsTag (h : startsTag l = true) : untagged (l :: ls) = [] := by
  simp [untagged, h]

theorem untagged_cons (h : startsTag l = false) : untagged (l :: ls) = l :: untagged ls := by
  simp [untagged, h]

theorem untagged_eq_self (h : ∀ l ∈ ls, startsTag l = false) : untagged ls = ls :=
  List.takeWhile_eq_self_iff.mpr fun l hl => by simp [h l hl]

theorem untagged_append (h : ∀ l ∈ ls, startsTag l = false) (ms : List (List Char)) :
    untagged (ls ++ ms) = ls ++ untagged ms :=
  List.takeWhile_append_of_pos fun l hl => by simp [h l hl]

theorem startsTag_of_mem_untagged (h : l ∈ untagged ls) : startsTag l = false := by
  simpa using List.mem_takeWhile_imp h

theorem startsTag_append_newline (l x : List Char) : startsTag (l ++ '\n' :: x) = startsTag l := by
  cases l with
  | nil => rfl
  | cons c l => rfl

theorem startsTag_unlines (l : List Char) (ls : List (List Char)) :
    startsTag (unlines (l :: ls)) = startsTag l := by
  cases ls with
  | nil => rfl
  | cons m ls =>
    rw [unlines_cons l (List.cons_ne_nil m ls)]
    exact startsTag_append_newline l _

theorem startsTag_of_allBlank (h : allBlank l = true) : startsTag l = false := by
  cases l with
  | nil => rfl
  | cons c l =>
    have hc := isBlank_of_mem h List.mem_cons_self
    have hat : c ≠ '@' := by
      rintro rfl
      exact absurd hc (by decide)
    simpa [startsTag] using hat

end Tags

section Cut

variable {l x : List Char}

theorem after?_tag_of_ne {c : Char} (hc : c ≠ '\n') (s : List Char) : after? ['\n', '@'] (c :: s) = none := by
  simp [after?, Ne.symm hc]

theorem after?_tag (h : startsTag x = false) : after? ['\n', '@'] ('\n' :: x) = none := by
  cases x with
  | nil => rfl
  | cons d x =>
    have hd : '@' ≠ d := by
      rintro rfl
      cases h
    simp [after?, hd]

theorem cut?_of_no_newline (hl : '\n' ∉ l) : cut? ['\n', '@'] l = none := by
  induction l with
  | nil => rfl
  | cons c l ih =>
    have hc : '\n' ≠ c := List.ne_of_not_mem_cons hl
    have hl : '\n' ∉ l := List.not_mem_of_not_mem_cons hl
    rw [cut?, after?_tag_of_ne (Ne.symm hc), ih hl]
    rfl

theorem cut?_tag (hl : '\n' ∉ l) (r : List Char) :
    cut? ['\n', '@'] (l ++ '\n' :: '@' :: r) = some (l, r) := by
  induction l with
  | nil => rfl
  | cons c l ih =>
    have hc : '\n' ≠ c := List.ne_of_not_mem_cons hl
    have hl : '\n' ∉ l := List.not_mem_of_not_mem_cons hl
    rw [List.cons_append, cut?, after?_tag_of_ne (Ne.symm hc), ih hl]
    rfl

theorem cut?_line (hl : '\n' ∉ l) (hx : startsTag x = false) :
    cut? ['\n', '@'] (l ++ '\n' :: x) =
      (cut? ['\n', '@'] x).map fun p => (l ++ '\n' :: p.1, p.2) := by
  induction l with
  | nil =>
    rw [List.nil_append, cut?, after?_tag hx]
    rfl
  | cons c l ih =>
    have hc : '\n' ≠ c := List.ne_of_not_mem_cons hl
    have hl : '\n' ∉ l := List.not_mem_of_not_mem_cons hl
    rw [List.cons_append, cut?, after?_tag_of_ne (Ne.symm hc), ih hl, Option.map_map]
    rfl

/-- Of a text that does not start with a tag, the lines before the first tag are kept. -/
theorem cut?_unlines {l : List Char} {ls : List (List Char)} (h : ∀ m ∈ l :: ls, '\n' ∉ m) :
    (cut? ['\n', '@'] (unlines (l :: ls))).elim (unlines (l :: ls)) (·.1) = unlines (l :: untagged ls) := by
  -- the lines before the first tag grow by one as long as the next line starts with none
  induction ls generalizing l with
  | nil =>
    have hcut : cut? ['\n', '@'] (unlines [l]) = none := cut?_of_no_newline (h l List.mem_cons_self)
    rw [hcut]
    rfl
  | cons m ls ih =>
    have hl := h l List.mem_cons_self
    have hunlines : ∀ ms, unlines (l :: m :: ms) = l ++ '\n' :: unlines (m :: ms) := by
      intro ms
      apply unlines_cons
      simp
    rw [hunlines]
    cases hm : startsTag m with
    | true =>
      obtain ⟨r, hr⟩ : ∃ r, unlines (m :: ls) = '@' :: r := by
        have hstart : startsTag (unlines (m :: ls)) = true := by rw [startsTag_unlines, hm]
        exact List.head?_eq_some_iff.mp (of_decide_eq_true hstart)
      rw [hr, cut?_tag hl, untagged_cons_of_startsTag hm]
      rfl
    | false =>
      have ih := ih fun k hk => h k (List.mem_cons_of_mem _ hk)
      have hstart : startsTag (unlines (m :: ls)) = false := by rw [startsTag_unlines, hm]
      rw [cut?_line hl hstart, untagged_cons hm, hunlines, ← ih]
      cases cut? ['\n', '@'] (unlines (m :: ls)) <;> rfl

theorem beforeTags_eq (s : List Char) : beforeTags s = trimEnd (unlines (untagged (lines s))) := by
  obtain ⟨l, ls, hs⟩ := List.exists_cons_of_ne_nil (List.splitOn_ne_nil '\n' s)
  have hlines : lines s = l :: ls := hs
  have htext : s = unlines (l :: ls) := by rw [← hlines, unlines_lines]
  have hno : ∀ m ∈ l :: ls, '\n' ∉ m := fun m hm => not_mem_of_mem_splitOn (hs ▸ hm)
  have hstart : startsTag s = startsTag l := by rw [htext, startsTag_unlines]
  rw [hlines]
  unfold beforeTags
  split
  · rw [untagged_cons_of_startsTag (hstart.symm.trans rfl)]
    rfl
  · next hne =>
    have hl : startsTag l = false := by
      rw [← hstart, Bool.eq_false_iff]
      intro h
      obtain ⟨r, hr⟩ := List.head?_eq_some_iff.mp (of_decide_eq_true h)
      exact hne r hr
    rw [untagged_cons hl, ← cut?_unlines hno, ← htext]

end Cut

section Trim

variable {b s : List Char}

theorem startsTag_append_blank (l : List Char) (hb : allBlank b = true) :
    startsTag (l ++ b) = startsTag l := by
  cases l with
  | nil => exact startsTag_of_allBlank hb
  | cons c l => rfl

theorem isTagLine_append_blank (l : List Char) (hb : allBlank b = true) :
    isTagLine (l ++ b) = isTagLine l := by
  unfold isTagLine trimStart
  rw [List.dropWhile_append]
  split
  · next hl =>
    rw [List.isEmpty_iff.mp hl, show b.dropWhile isBlank = [] from trimStart_of_allBlank hb]
  · exact startsTag_append_blank _ hb

/-- What blanks at the end of a line do not decide is decided alike with and without the blanks at the end
of a text. -/
theorem forall_lines_trimEnd {q : List Char → Bool}
    (hq : ∀ l b, allBlank b = true → q (l ++ b) = q l) (hnil : q [] = false) (s : List Char) :
    (∀ l ∈ lines (trimEnd s), q l = false) ↔ ∀ l ∈ lines s, q l = false := by
  obtain ⟨b, hb, hs⟩ := exists_trimEnd s
  obtain ⟨init, last, first, more, hlines, happ, hfirst, hmore⟩ := lines_append_blank (trimEnd s) hb
  have hblank : ∀ l ∈ more, q l = false := fun l hl => (hq [] l (hmore l hl)).trans hnil
  rw [← hs] at happ
  rw [hlines, happ]
  simp only [List.forall_mem_append, List.forall_mem_cons, hq last first hfirst]
  exact ⟨fun h => ⟨h.1, h.2.1, hblank⟩, fun h => ⟨h.1, h.2.1, by simp⟩⟩

/-- The blanks at the end of a text do not count for the prose before its tags. -/
theorem beforeTags_trimEnd (s : List Char) :
    beforeTags (trimEnd s) = trimEnd (unlines (untagged (lines s))) := by
  obtain ⟨b, hb, hs⟩ := exists_trimEnd s
  rw [beforeTags_eq]
  by_cases hall : ∀ l ∈ lines (trimEnd s), startsTag l = false
  · have hall' := (forall_lines_trimEnd (fun l b => startsTag_append_blank l) rfl s).mp hall
    rw [untagged_eq_self hall, untagged_eq_self hall', unlines_lines, unlines_lines]
    conv_rhs => rw [hs, trimEnd_append _ hb]
  · -- a line that starts with a tag is no blank, so the lines before it are the same
    obtain ⟨init, last, first, more, hlines, happ, hfirst, -⟩ := lines_append_blank (trimEnd s) hb
    rw [← hs] at happ
    suffices hsame : untagged (lines (trimEnd s)) = untagged (lines s) by rw [hsame]
    rw [hlines, happ]
    by_cases hinit : ∀ l ∈ init, startsTag l = false
    · have hlast : startsTag last = true := by
        rw [← Bool.not_eq_false]
        intro hlast
        apply hall
        rw [hlines]
        simpa [or_imp, forall_and] using ⟨hinit, hlast⟩
      have hlast' : startsTag (last ++ first) = true := (startsTag_append_blank last hfirst).trans hlast
      rw [untagged_append hinit, untagged_append hinit, untagged_cons_of_startsTag hlast,
        untagged_cons_of_startsTag hlast']
    · have hlen : (init.takeWhile fun l => !startsTag l).length ≠ init.length := by
        intro hlen
        apply hinit
        have hself := (List.takeWhile_prefix _).eq_of_length hlen
        intro l hl
        rw [← hself] at hl
        exact startsTag_of_mem_untagged hl
      rw [untagged, untagged, List.takeWhile_append, List.takeWhile_append, if_neg hlen, if_neg hlen]

end Trim

section Ends

theorem description_eq (raw : List Char) :
    description raw = trimEnd (unlines (untagged (lines (prose raw)))) :=
  beforeTags_eq _

theorem forall_lines_untagged {q : List Char → Bool} (hnil : q [] = false) (s : List Char) :
    (∀ l ∈ lines (unlines (untagged (lines s))), q l = false) ↔ ∀ l ∈ untagged (lines s), q l = false := by
  by_cases hne : untagged (lines s) = []
  · rw [hne]
    simpa [unlines, join, lines] using hnil
  · have hno : ∀ l ∈ untagged (lines s), '\n' ∉ l :=
      fun l hl => not_mem_of_mem_splitOn (List.takeWhile_subset _ hl)
    rw [lines_unlines hne hno]

/-- A description ends before the first line of the prose that starts with a tag, so none of its lines
does. Its lines have no tag behind blanks either exactly when none of the lines before that one has. -/
theorem description_ends_at_tag (raw : List Char) :
    description raw = trimEnd (unlines ((lines (prose raw)).takeWhile fun l => !startsTag l)) ∧
    (∀ l ∈ lines (description raw), startsTag l = false) ∧
    ((∀ l ∈ lines (description raw), isTagLine l = false) ↔
      ∀ l ∈ (lines (prose raw)).takeWhile (fun l => !startsTag l), isTagLine l = false) := by
  refine ⟨description_eq raw, ?_, ?_⟩
  · rw [description_eq, forall_lines_trimEnd (fun l b => startsTag_append_blank l) rfl,
      forall_lines_untagged rfl]
    exact fun l hl => startsTag_of_mem_untagged hl
  · rw [description_eq, forall_lines_trimEnd (fun l b => isTagLine_append_blank l) rfl,
      forall_lines_untagged rfl]
    rfl

/-- In a comment without a gutter, a tag that is indented as the text before it stays. -/
theorem description_keeps_indented_tag :
    description "/*\n  Text.\n  @private\n*/".toList = "Text.\n  @private".toList ∧
      ¬ ∀ l ∈ lines (description "/*\n  Text.\n  @private\n*/".toList), isTagLine l = false := by
  refine ⟨by decide, fun h => ?_⟩
  have hall := (description_ends_at_tag _).2.2.mp h
  exact absurd (hall "  @private".toList (by decide)) (by decide)

end Ends

end Marginalia.Script
