import Marginalia.Proofs.Script.Description

/-! # Comments written from a text

A text becomes a comment by a star gutter before each of its lines, however far each is indented, between a
line that opens the comment and one that closes it. Its description undoes this: it is the text again, also
when tags follow the text.
-/
namespace Marginalia.Script

open Text

/-- Spaces and tabs. -/
def IsIndent (s : List Char) : Prop :=
  ∀ c ∈ s, c = ' ' ∨ c = '\t'

instance (s : List Char) : Decidable (IsIndent s) :=
  List.decidableBAll (fun c => c = ' ' ∨ c = '\t') s

/-- A line of a comment with its gutter: an indentation, a star and a space. The space may be left out
before an empty line. -/
structure Row where
  indent : List Char
  line : List Char
  /-- Whether the star ends the row. -/
  bare : Bool
  isIndent : IsIndent indent
  isLine : '\n' ∉ line
  line_of_bare : bare = true → line = []

def Row.text (r : Row) : List Char :=
  r.indent ++ '*' :: if r.bare then [] else ' ' :: r.line

/-- The comment made of rows, with its closing sign behind an indentation. -/
def written (rows : List Row) (indent : List Char) : List Char :=
  unlines ("/**".toList :: (rows.map Row.text ++ [indent ++ "*/".toList]))

section Rows

variable {indent : List Char}

theorem IsIndent.no_newline (h : IsIndent indent) : '\n' ∉ indent := by
  intro hn
  rcases h _ hn with h | h <;> exact absurd h (by decide)

theorem IsIndent.allBlank (h : IsIndent indent) : allBlank indent = true := by
  refine List.all_eq_true.mpr fun c hc => ?_
  rcases h c hc with rfl | rfl <;> decide

theorem IsIndent.dropWhile_append (h : IsIndent indent) (s : List Char) :
    (indent ++ s).dropWhile (fun c => c = ' ' || c = '\t') = s.dropWhile fun c => c = ' ' || c = '\t' :=
  List.dropWhile_append_of_pos fun c hc => by simpa using h c hc

theorem dropGutter_indent (h : IsIndent indent) : dropGutter indent = indent := by
  have hnil := h.dropWhile_append []
  rw [List.append_nil] at hnil
  rw [dropGutter, hnil]
  rfl

theorem dropGutter_text (r : Row) : dropGutter r.text = r.line := by
  rw [dropGutter, Row.text, r.isIndent.dropWhile_append]
  cases hbare : r.bare with
  | true => exact (r.line_of_bare hbare).symm
  | false => rfl

theorem Row.no_newline (r : Row) : '\n' ∉ r.text := by
  simpa [text] using ⟨r.isIndent.no_newline, fun _ => r.isLine⟩

end Rows

section Body

theorem endsWith_append (w s : List Char) : endsWith w (s ++ w) = true := by
  have hafter : after? w.reverse (s ++ w).reverse = some s.reverse :=
    after?_eq_some_iff.mpr (by rw [List.reverse_append])
  rw [endsWith, beforeEnd?, hafter]
  rfl

theorem body_block (s : List Char) : body ("/**".toList ++ s ++ "*/".toList) = s := by
  have hends : endsWith ['*', '/'] ("/**".toList ++ s ++ "*/".toList) = true := endsWith_append ..
  have hlen : ("/**".toList ++ s ++ "*/".toList).length - 2 = ("/**".toList ++ s).length := by simp
  have hinner : (("/**".toList ++ s ++ "*/".toList).take
      (("/**".toList ++ s ++ "*/".toList).length - 2)).drop 2 = '*' :: s := by
    rw [hlen, List.take_left]
    rfl
  simp only [body, hends, ↓reduceIte, hinner]

theorem unlines_concat_append (ls : List (List Char)) (l w : List Char) :
    unlines (ls ++ [l ++ w]) = unlines (ls ++ [l]) ++ w := by
  by_cases hls : ls = []
  · subst hls
    rfl
  · rw [unlines, unlines, join_append hls (by simp), join_append hls (by simp)]
    simp [join]

theorem lines_body_written (rows : List Row) {indent : List Char} (hindent : IsIndent indent) :
    lines (body (written rows indent)) = [] :: (rows.map Row.text ++ [indent]) := by
  have hwritten : written rows indent =
      "/**".toList ++ unlines ([] :: (rows.map Row.text ++ [indent])) ++ "*/".toList := by
    rw [written, unlines_cons _ (by simp), unlines_concat_append, unlines_cons _ (by simp)]
    simp
  rw [hwritten, body_block, lines_unlines (by simp)]
  intro l hl
  simp only [List.mem_cons, List.mem_append, List.mem_map, List.not_mem_nil, or_false] at hl
  rcases hl with rfl | ⟨r, -, rfl⟩ | rfl
  · simp
  · exact r.no_newline
  · exact hindent.no_newline

/-- The prose of a written comment is made of the lines it was written from. -/
theorem prose_written (rows : List Row) {indent : List Char} (hindent : IsIndent indent) :
    prose (written rows indent) = strip (unlines ([] :: (rows.map (·.line) ++ [indent]))) := by
  have hlines : (rows.map Row.text).map dropGutter = rows.map (·.line) := by
    rw [List.map_map]
    exact List.map_congr_left fun r _ => dropGutter_text r
  rw [prose, lines_body_written rows hindent, List.map_cons, List.map_append, hlines, List.map_singleton,
    dropGutter_indent hindent]
  rfl

end Body

section Prose

variable {text indent : List Char} {tags : List (List Char)}

theorem beforeTags_strip_of_startsTag {s : List Char} (h : startsTag s = true) :
    beforeTags (strip s) = [] := by
  obtain ⟨r, rfl⟩ := List.head?_eq_some_iff.mp (of_decide_eq_true h)
  obtain ⟨b, hb, hr⟩ := exists_trimEnd ('@' :: r)
  have htrim : startsTag (trimEnd ('@' :: r)) = true := by
    rw [← startsTag_append_blank _ hb, ← hr, h]
  have hstrip : strip ('@' :: r) = trimEnd ('@' :: r) := rfl
  obtain ⟨r', hr'⟩ := List.head?_eq_some_iff.mp (of_decide_eq_true htrim)
  rw [hstrip, hr']
  rfl

theorem unlines_gap (gap : Nat) {ls : List (List Char)} (hne : ls ≠ []) :
    unlines (List.replicate gap [] ++ ls) = List.replicate gap '\n' ++ unlines ls := by
  induction gap with
  | zero => rfl
  | succ gap ih =>
    rw [List.replicate_succ, List.cons_append, unlines_cons _ (by simp [hne]), ih]
    rfl

variable (gap : Nat) (htags : ∀ l ∈ tags.head?, startsTag l = true) (hindent : IsIndent indent)
include htags hindent

theorem beforeTags_gap :
    beforeTags (strip (unlines (List.replicate gap [] ++ (tags ++ [indent])))) = [] := by
  have hgap : allBlank (List.replicate gap '\n') = true := by simp [allBlank, isBlank_newline]
  rw [unlines_gap gap (by simp), strip_append hgap]
  cases tags with
  | nil =>
    have hblank : trimStart (unlines [indent]) = [] := trimStart_of_allBlank hindent.allBlank
    rw [List.nil_append, strip, trim, ← trimStart, hblank]
    rfl
  | cons l ls =>
    apply beforeTags_strip_of_startsTag
    rw [List.cons_append, startsTag_unlines]
    exact htags l rfl

/-- Empty lines and tags behind a text leave blank lines at most. -/
theorem allBlank_untagged :
    ∀ l ∈ untagged (List.replicate gap [] ++ (tags ++ [indent])), allBlank l = true := by
  have hgap : ∀ l ∈ List.replicate gap ([] : List Char), l = [] := fun l hl => (List.mem_replicate.mp hl).2
  rw [untagged_append fun l hl => by rw [hgap l hl]; rfl]
  intro l hl
  rcases List.mem_append.mp hl with hl | hl
  · rw [hgap l hl]
    rfl
  · cases tags with
    | nil =>
      have hmem : l ∈ [indent] := List.takeWhile_subset _ hl
      rw [List.mem_singleton.mp hmem]
      exact hindent.allBlank
    | cons m ms =>
      rw [List.cons_append, untagged_cons_of_startsTag (htags m rfl)] at hl
      simp at hl

theorem beforeTags_text (hne : text ≠ []) (hstrip : strip text = text)
    (huntagged : ∀ l ∈ lines text, startsTag l = false) (hlines : ∀ l ∈ tags, '\n' ∉ l) :
    beforeTags (strip (unlines ([] :: (lines text ++ (List.replicate gap [] ++ (tags ++ [indent])))))) =
      text := by
  obtain ⟨hstart, hend⟩ := trim_eq_self hstrip
  have hblank := allBlank_untagged gap htags hindent
  have hrest : ∀ l ∈ List.replicate gap [] ++ (tags ++ [indent]), '\n' ∉ l := by
    intro l hl
    simp only [List.mem_append, List.mem_singleton] at hl
    rcases hl with hl | hl | rfl
    · rw [(List.mem_replicate.mp hl).2]
      simp
    · exact hlines l hl
    · exact hindent.no_newline
  have hne' : List.replicate gap [] ++ (tags ++ [indent]) ≠ [] := by simp
  generalize List.replicate gap [] ++ (tags ++ [indent]) = rest at hblank hrest hne'
  have hno : ∀ l ∈ lines text ++ rest, '\n' ∉ l := by
    rw [List.forall_mem_append]
    exact ⟨fun l hl => not_mem_of_mem_splitOn hl, hrest⟩
  have htrim : trimStart (unlines ([] :: (lines text ++ rest))) = unlines (lines text ++ rest) := by
    have hcons : unlines ([] :: (lines text ++ rest)) = ['\n'] ++ unlines (lines text ++ rest) :=
      unlines_cons [] (by simp [hne'])
    rw [hcons, trimStart_append (by decide), unlines_lines_append text hne',
      trimStart_append_eq_self hne hstart]
  rw [strip, trim, ← trimStart, htrim, ← trimEnd, beforeTags_trimEnd, lines_unlines (by simp [hne']) hno,
    untagged_append huntagged, trimEnd_unlines_append text hblank, hend]

end Prose

/-- The description of a comment is the text the comment was written from: with an indentation and a star
before each line, and behind the text, after any number of empty lines, tags and what follows them. -/
theorem description_written {text indent : List Char} {gap : Nat} {tags : List (List Char)} {rows : List Row}
    (hstrip : strip text = text) (huntagged : ∀ l ∈ lines text, startsTag l = false)
    (htags : ∀ l ∈ tags.head?, startsTag l = true) (hindent : IsIndent indent)
    (hrows : rows.map (·.line) = lines text ++ List.replicate gap [] ++ tags) :
    description (written rows indent) = text := by
  have hprose : description (written rows indent) = beforeTags (strip
      (unlines ([] :: (lines text ++ (List.replicate gap [] ++ (tags ++ [indent])))))) := by
    rw [description, ← prose, prose_written rows hindent, hrows]
    simp only [List.append_assoc]
  rw [hprose]
  by_cases hne : text = []
  · -- the text has one empty line, and one more comes before it
    subst hne
    exact beforeTags_gap (gap + 2) htags hindent
  · refine beforeTags_text gap htags hindent hne hstrip huntagged fun l hl => ?_
    have hmem : l ∈ rows.map (·.line) := hrows ▸ List.mem_append_right _ hl
    obtain ⟨r, -, rfl⟩ := List.mem_map.mp hmem
    exact r.isLine

/-- Rows of an indented list, an empty line and an indented paragraph, with a tag behind them. -/
def listRows : List Row :=
  [⟨"\t".toList, "* a".toList, false, by decide, by decide, by decide⟩,
    ⟨" ".toList, [], true, by decide, by decide, by decide⟩,
    ⟨[], "  b @c".toList, false, by decide, by decide, by decide⟩,
    ⟨" ".toList, [], false, by decide, by decide, by decide⟩,
    ⟨" ".toList, "@d".toList, false, by decide, by decide, by decide⟩,
    ⟨" ".toList, "e".toList, false, by decide, by decide, by decide⟩]

theorem description_written_list :
    written listRows " ".toList =
        "/**\n\t* * a\n *\n*   b @c\n * \n * @d\n * e\n */".toList ∧
      description (written listRows " ".toList) = "* a\n\n  b @c".toList := by
  have hlines : lines "* a\n\n  b @c".toList = ["* a".toList, [], "  b @c".toList] := by decide
  have huntagged : ∀ l ∈ lines "* a\n\n  b @c".toList, startsTag l = false := by
    rw [hlines]
    decide
  have hrows : listRows.map (·.line) = lines "* a\n\n  b @c".toList ++ List.replicate 1 [] ++
      ["@d".toList, "e".toList] := by
    rw [hlines]
    decide
  exact ⟨by decide, description_written (by decide) huntagged (by decide) (by decide) hrows⟩

end Marginalia.Script
