import Marginalia.Markdown.Document
import Marginalia.Proofs.Markdown.Blocks
import Marginalia.Proofs.Text.Trim

/-! # The heading a text starts with

A heading of the first level at the start of the tree of blocks stays there while spans are found and lines
are broken. It is printed first, and nothing that was kept aside is put back in front of it.
-/
namespace Marginalia.Markdown

open Text

/-- A heading of the first level with its text and what was found in it. -/
def heading (text : List Char) (children : List Element) : Element :=
  { tag := "h1", text, children }

section Spans

/-- No rule finds a span in a text. -/
def Unspanned (rs : List SpanRule) (text : List Char) : Prop :=
  ∀ a, (findSpans rs text).run a = (text, a)

variable {rs : List SpanRule} {text : List Char}

theorem numbered?_cons_of_ne {c : Char} (h : c ≠ markStart) (word s : List Char) :
    numbered? word (c :: s) = none := by
  rw [numbered?, after?, if_neg (Ne.symm h), Option.bind_none]

theorem replaceMarks_of_not_mem (h : markStart ∉ text) (word : List Char) (f : Nat → List Char)
    (fuel : Nat) : replaceMarks word f fuel text = text := by
  induction text generalizing fuel with
  | nil => cases fuel <;> rfl
  | cons c s ih =>
    rw [List.mem_cons, not_or] at h
    cases fuel with
    | zero => rfl
    | succ fuel => rw [replaceMarks, numbered?_cons_of_ne (Ne.symm h.1), ih h.2]

theorem restoreChars_of_not_mem (h : markStart ∉ text) : restoreChars text = text :=
  replaceMarks_of_not_mem h ..

theorem cutMarks_of_not_mem (h : markStart ∉ text) (fuel : Nat) : cutMarks fuel text = text.map .inl := by
  induction text generalizing fuel with
  | nil => cases fuel <;> rfl
  | cons c s ih =>
    rw [List.mem_cons, not_or] at h
    cases fuel with
    | zero => rfl
    | succ fuel => rw [cutMarks, numbered?_cons_of_ne (Ne.symm h.1), ih h.2, List.map_cons]

theorem resolve_of_not_mem (h : markStart ∉ text) (spans : List Span) (fuel : Nat) :
    resolve spans fuel text = (text, []) := by
  cases fuel with
  | zero => rfl
  | succ fuel =>
    rw [resolve, cutMarks_of_not_mem h, List.foldr_map]
    clear h
    induction text with
    | nil => rfl
    | cons c s ih =>
      rw [List.foldr_cons, ih]
      rfl

/-- A text in which no span is found comes out as it is. -/
theorem mixed_of_unspanned (h : Unspanned rs text) (hmark : markStart ∉ text) (a : Aside) :
    (mixed rs text).run a = ((text, []), a) := by
  have hfind : findSpans rs text a = (text, a) := h a
  simp only [mixed, bind, StateT.bind, StateT.run, hfind]
  show ((resolve a.spans (a.spans.length + 1) text, a) : Mixed × Aside) = _
  rw [resolve_of_not_mem hmark]

/-- A heading stays the first of its elements, with nothing behind it. -/
theorem exists_spanElements_heading (rs : List SpanRule) (fuel : Nat) (text : List Char)
    (es : List Element) (a : Aside) : ∃ text' children rest b,
      (spanElements rs (fuel + 1) (heading text [] :: es)).run a =
        (heading text' children :: rest, b) ∧
      (Unspanned rs text → markStart ∉ text → text' = text ∧ children = []) := by
  by_cases hempty : text.isEmpty = true
  · refine ⟨text, [], (spanElements rs fuel es a).1, (spanElements rs fuel es a).2, ?_,
      fun _ _ => ⟨rfl, rfl⟩⟩
    simp only [spanElements, heading, Bool.false_or, hempty, List.isEmpty_nil, ↓reduceIte, StateT.run, bind,
      StateT.bind]
    rfl
  -- what was found in the heading is searched in its turn, before the elements behind the heading
  · let inner : List Element × Aside := ((mixed rs text a).1.2.mapM fun f => do
      return { f with children := ← spanElements rs fuel f.children } : SpanM (List Element))
        (mixed rs text a).2
    refine ⟨(mixed rs text a).1.1, inner.1, (spanElements rs fuel es inner.2).1,
      (spanElements rs fuel es inner.2).2, ?_, fun hspan hmark => ?_⟩
    · simp only [spanElements, heading, Bool.false_or, hempty, Bool.false_eq_true, List.isEmpty_nil,
        ↓reduceIte, StateT.run, bind, StateT.bind]
      rfl
    · have hmixed : mixed rs text a = ((text, []), a) := mixed_of_unspanned hspan hmark a
      simp only [inner, hmixed]
      exact ⟨trivial, rfl⟩

end Spans

section Printing

variable (attrs : List (String × List Char)) (fixed : Bool) (tail : List Char)

/-- Finishing the blocks of code in a body leaves a heading at its start alone. -/
theorem exists_keepCode_heading (c : CodeSetup) (text : List Char) (es : List Element) (kept : Kept) :
    ∃ es' kept', (keepCode c ⟨"div", attrs, [], fixed, heading text [] :: es, tail⟩).run kept =
      (⟨"div", attrs, [], fixed, heading text [] :: es', tail⟩, kept') := by
  refine ⟨(keepAllCode c es kept).1, (keepAllCode c es kept).2, ?_⟩
  simp only [heading, keepCode, keepAllCode]
  rfl

theorem restoreChars_newline : restoreChars ['\n'] = ['\n'] :=
  restoreChars_of_not_mem (by decide)

theorem isBlockTag_heading (text : List Char) (children : List Element) :
    isBlockTag (heading text children).tag = true := by
  show isBlockTag "h1" = true
  decide

theorem breakLines_heading (text : List Char) (children : List Element) :
    breakLines (heading text children) =
      { heading (if allBlank text && children.head?.any (isBlockTag ·.tag) then ['\n'] else text)
          (breakChildren children) with tail := ['\n'] } := by
  rw [heading, breakLines, if_pos (by decide), lineTail, if_pos (by decide)]
  rfl

/-- The last touches to an element that is no line break and no code. -/
theorem finish_other {tag : String} (hbr : tag ≠ "br") (hcode : tag ≠ "code") (hpre : tag ≠ "pre")
    (text : List Char) (children : List Element) :
    finish ⟨tag, attrs, text, fixed, children, tail⟩ =
      ⟨tag, attrs.map fun (k, v) => (k, restoreChars v), restoreChars text, fixed, finishAll children,
        restoreChars tail⟩ := by
  rw [finish]
  · simp only [if_neg hbr, if_neg hcode]
  · exact fun _ _ _ _ _ htag _ => hpre htag

/-- A body with a heading at its start, its lines broken and the last touches made. -/
theorem exists_finish_body (text : List Char) (children es : List Element) :
    ∃ text' children' es' attrs' tail',
      finish (breakLines ⟨"div", attrs, [], fixed, heading text children :: es, tail⟩) =
        ⟨"div", attrs', ['\n'], fixed, { heading text' children' with tail := ['\n'] } :: es', tail'⟩ ∧
      (children = [] → markStart ∉ text → text' = text ∧ children' = []) := by
  refine ⟨restoreChars (if allBlank text && children.head?.any (isBlockTag ·.tag) then ['\n'] else text),
    finishAll (breakChildren children), finishAll (breakChildren es),
    attrs.map fun (k, v) => (k, restoreChars v), restoreChars (lineTail tail), ?_, ?_⟩
  · rw [breakLines, if_pos (by decide), breakChildren, if_pos (isBlockTag_heading ..), breakLines_heading,
      finish_other _ _ _ (by decide) (by decide) (by decide), finishAll]
    rw [List.head?_cons, Option.any_some, isBlockTag_heading, allBlank, List.all_nil, Bool.and_self,
      if_pos rfl, restoreChars_newline]
    simp only [heading]
    rw [finish_other _ _ _ (by decide) (by decide) (by decide), restoreChars_newline, List.map_nil]
  · rintro rfl hmark
    simp [restoreChars_of_not_mem hmark, breakChildren, finishAll]

theorem markup_heading (text : List Char) (children : List Element) :
    ({ heading text children with tail } : Element).markup =
      "<h1>".toList ++ (escapeProse text ++ childrenMarkup children) ++ "</h1>".toList ++ escapeProse tail := by
  have hattrs : attrsMarkup [] = [] := by simp [attrsMarkup]
  simp only [heading, Element.markup, hattrs, show emptyTags.contains "h1" = false by decide]
  simp

end Printing

section PuttingBack

/-- Putting markup back changes nothing in a text, whatever follows it, and takes one step for each of its
characters. -/
structure Passes (w : List Char) : Prop where
  unmarked : markStart ∉ w
  putBack : ∀ kept fuel r, putBack kept (w.length + fuel) (w ++ r) = w ++ Markdown.putBack kept fuel r

variable {v w : List Char} {c d : Char}

theorem putBack_cons {s : List Char} (h : keptMark? (c :: s) = none) (kept : Kept) (fuel : Nat) :
    putBack kept (fuel + 1) (c :: s) = c :: putBack kept fuel s := by
  rw [putBack, h]

theorem keptMark?_of_ne (hc : c ≠ '<') (hmark : c ≠ markStart) (s : List Char) :
    keptMark? (c :: s) = none := by
  have hp : after? "<p>".toList (c :: s) = none := by
    show (if '<' = c then _ else none) = none
    rw [if_neg (Ne.symm hc)]
  rw [keptMark?, hp, numbered?_cons_of_ne hmark]
  rfl

theorem keptMark?_tag (hd : d ≠ 'p') (s : List Char) : keptMark? ('<' :: d :: s) = none := by
  have hp : after? "<p>".toList ('<' :: d :: s) = none := by
    show (if 'p' = d then _ else none) = none
    rw [if_neg (Ne.symm hd)]
  rw [keptMark?, hp, numbered?_cons_of_ne (by decide)]
  rfl

theorem Passes.append (hv : Passes v) (hw : Passes w) : Passes (v ++ w) where
  unmarked := by simp [hv.unmarked, hw.unmarked]
  putBack kept fuel r := by
    rw [List.length_append, List.append_assoc, Nat.add_assoc, hv.putBack, hw.putBack, List.append_assoc]

theorem passes_text (h : '<' ∉ w) (hmark : markStart ∉ w) : Passes w := by
  refine ⟨hmark, fun kept fuel r => ?_⟩
  induction w with
  | nil => simp
  | cons c w ih =>
    rw [List.mem_cons, not_or] at h hmark
    rw [List.length_cons, Nat.add_right_comm, List.cons_append,
      putBack_cons (keptMark?_of_ne (Ne.symm h.1) (Ne.symm hmark.1) _), ih h.2 hmark.2, List.cons_append]

theorem passes_tag (hd : d ≠ 'p') (h : Passes (d :: w)) : Passes ('<' :: d :: w) where
  unmarked := by
    rw [List.mem_cons, not_or]
    exact ⟨by decide, h.unmarked⟩
  putBack kept fuel r := by
    rw [List.length_cons, Nat.add_right_comm, List.cons_append, List.cons_append,
      putBack_cons (keptMark?_tag hd _), ← List.cons_append, h.putBack]
    rfl

theorem replaceAll_ampMark_append (h : markStart ∉ w) (new r : List Char) :
    replaceAll ampMark new (w ++ r) = w ++ replaceAll ampMark new r := by
  show replaceFrom ampMark new 0 (w ++ r) = w ++ replaceFrom ampMark new 0 r
  induction w with
  | nil => rfl
  | cons c w ih =>
    rw [List.mem_cons, not_or] at h
    have hstart : startsWith ampMark (c :: (w ++ r)) = false := by
      show (if markStart = c then _ else none).isSome = false
      rw [if_neg h.1]
      rfl
    rw [List.cons_append, replaceFrom, hstart, if_neg (by decide), ih h.2, List.cons_append]

/-- What a text prints first stays at its start to the end. -/
theorem exists_putBack_append (hw : Passes w) (hne : w ≠ []) (hstrip : strip w = w) (kept : Kept)
    (size : Nat) (r : List Char) : ∃ r', strip (replaceAll ampMark ['&'] (putBack kept
      ((strip ('\n' :: (w ++ r))).length + size + 1) (strip ('\n' :: (w ++ r))))) = w ++ r' := by
  have hnewline : strip ('\n' :: (w ++ r)) = strip (w ++ r) := strip_append (a := ['\n']) (by decide) _
  obtain ⟨r₁, hr₁⟩ := exists_strip_append hne hstrip r
  rw [hnewline, hr₁, List.length_append, Nat.add_assoc, Nat.add_assoc, hw.putBack,
    replaceAll_ampMark_append hw.unmarked]
  exact exists_strip_append hne hstrip _

end PuttingBack

section Render

variable {s : Setup} {text title : List Char}

/-- A title is the text of a heading at the start of the tree of blocks. -/
theorem exists_of_title? (h : title? s text = some title) :
    ∃ attrs fixed tail es, (blockTree s text).1 =
      ⟨"div", attrs, [], fixed, heading title [] :: es, tail⟩ := by
  have hbody : Body (blockTree s text).1 := body_readText ..
  unfold title? at h
  generalize (blockTree s text).1 = root at h hbody
  obtain ⟨tag, attrs, t, fixed, children, tail⟩ := root
  obtain ⟨rfl, rfl, hheadings⟩ := hbody
  cases children with
  | nil => cases h
  | cons e es =>
    dsimp only at h hheadings
    split at h
    · next htag =>
      obtain ⟨hbare, hstrip⟩ := hheadings e List.mem_cons_self htag
      rw [Option.some.injEq, hstrip] at h
      rw [htag, h] at hbare
      exact ⟨attrs, fixed, tail, es, by rw [hbare, heading]⟩
    · cases h

/-- The links that a text defines. -/
def definedLinks (s : Setup) (text : List Char) : References :=
  (blockTree s text).2.1

/-- The tree with its blocks of code finished, if they are to be. -/
def withCode (s : Setup) (root : Element) (kept : Kept) : Element × Kept :=
  match s.code with
  | some c => (keepCode c root).run kept
  | none => (root, kept)

/-- The steps in which a text becomes markup. -/
theorem render_eq {root root₁ root₂ : Element} {refs : References} {kept kept₁ : Kept}
    {children : List Element} {aside : Aside} (hblank : allBlank text = false)
    (htree : blockTree s text = (root, refs, kept)) (hcode : withCode s root kept = (root₁, kept₁))
    (hspans : (spanElements (spanRules s refs) (4 * text.length + 200) root₁.children).run
      { kept := kept₁ } = (children, aside))
    (hfinish : finish (breakLines { root₁ with children }) = root₂) :
    let printed := strip (root₂.text ++ childrenMarkup root₂.children)
    render s text = strip (replaceAll ampMark ['&'] (putBack aside.kept
      (printed.length + total (aside.kept.map List.length) + 1) printed)) := by
  subst hfinish
  rw [render, if_neg (by simp [hblank]), htree]
  unfold withCode at hcode
  cases hc : s.code with
  | none =>
    simp only [hc] at hcode
    cases hcode
    simp only [hspans]
  | some c =>
    simp only [hc] at hcode
    simp only [hcode, hspans]

/-- A text that starts with a heading is printed with the heading first. What was found in the heading is
its text alone where nothing is found in it. -/
theorem exists_render_of_title? (hblank : allBlank text = false) (h : title? s text = some title) :
    ∃ t children kept size more,
      (Unspanned (spanRules s (definedLinks s text)) title → markStart ∉ title →
        t = title ∧ children = []) ∧
      let printed := strip ('\n' :: ("<h1>".toList ++ (escapeProse t ++ childrenMarkup children) ++
        "</h1>".toList ++ more))
      render s text =
        strip (replaceAll ampMark ['&'] (putBack kept (printed.length + size + 1) printed)) := by
  -- the heading is followed through the passes in their order: code, spans, line breaks, print
  obtain ⟨attrs, fixed, tail, es, hroot⟩ := exists_of_title? h
  obtain ⟨root, refs, kept, htree⟩ : ∃ root refs kept, blockTree s text = (root, refs, kept) :=
    ⟨_, _, _, rfl⟩
  rw [htree] at hroot
  subst hroot
  obtain ⟨es₁, kept₁, hcode⟩ : ∃ es₁ kept₁,
      withCode s ⟨"div", attrs, [], fixed, heading title [] :: es, tail⟩ kept =
        (⟨"div", attrs, [], fixed, heading title [] :: es₁, tail⟩, kept₁) := by
    unfold withCode
    split
    · exact exists_keepCode_heading ..
    · exact ⟨es, kept, rfl⟩
  obtain ⟨t₁, children₁, es₂, aside, hspans, hplain⟩ := exists_spanElements_heading (spanRules s refs)
    (4 * text.length + 199) title es₁ { kept := kept₁ }
  obtain ⟨t₂, children₂, es₃, attrs', tail', hfinish, hplain'⟩ :=
    exists_finish_body attrs fixed tail t₁ children₁ es₂
  refine ⟨t₂, children₂, aside.kept, total (aside.kept.map List.length),
    escapeProse ['\n'] ++ childrenMarkup es₃, fun hspan hmark => ?_, ?_⟩
  · rw [definedLinks, htree] at hspan
    obtain ⟨rfl, rfl⟩ := hplain hspan hmark
    exact hplain' rfl hmark
  · rw [render_eq hblank htree hcode hspans hfinish, childrenMarkup, markup_heading, List.singleton_append,
      ← List.append_assoc]

/-- A text with a title is printed with a heading of the first level at its start. -/
theorem heading_starts_render (hblank : allBlank text = false) (h : title? s text = some title) :
    "<h1>".toList <+: render s text := by
  obtain ⟨t, children, kept, size, more, -, hrender⟩ := exists_render_of_title? hblank h
  have hpasses : Passes "<h1>".toList :=
    passes_tag (by decide) (passes_text (by decide) (by decide))
  rw [hrender]
  simp only [List.append_assoc]
  obtain ⟨r, hr⟩ := exists_putBack_append hpasses (by decide) (by decide) kept size
    (escapeProse t ++ (childrenMarkup children ++ ("</h1>".toList ++ more)))
  exact ⟨r, hr.symm⟩

end Render

end Marginalia.Markdown
