import Marginalia.Proofs.Markdown.Heading
import Marginalia.Proofs.Pattern.Reads
import Marginalia.Proofs.Text.Markup

/-! # Titles and the headings they come from

A title is the text of a heading before spans are found in it. Where no span is found and no entity is
written, the heading shows that very text. A text without the signs that spans start with is such a one.
-/
namespace Marginalia.Markdown

open Text Pattern

/-- A text that is shown as it is written: no span is found in it, no ampersand in it starts an entity, and
no mark stands in it. -/
structure ShowsItself (s : Setup) (refs : References) (text : List Char) : Prop where
  unspanned : Unspanned (spanRules s refs) text
  unreferred : ∀ a b, text = a ++ '&' :: b → entityTail.match? b = none
  unmarked : markStart ∉ text

section Escaped

variable {text : List Char}

theorem escapeProse_cons {c : Char} (hc : c ≠ '&') (text : List Char) :
    escapeProse (c :: text) = escapeChar c ++ escapeProse text := by
  have hamps : escapeAmps (c :: text) = c :: escapeAmps text := by
    rw [escapeAmps]
    exact hc
  rw [escapeProse, hamps, List.flatMap_cons, escapeChar, if_neg hc, ← escapeProse]

/-- A text without entities is written like any text inside an element. -/
theorem escapeProse_of_unreferred (h : ∀ a b, text = a ++ '&' :: b → entityTail.match? b = none) :
    escapeProse text = escapeText text := by
  induction text with
  | nil => rfl
  | cons c text ih =>
    have hrest := ih fun a b hab => h (c :: a) b (by rw [hab, List.cons_append])
    rw [escapeText, List.flatMap_cons, ← escapeText, ← hrest]
    by_cases hc : c = '&'
    · subst hc
      have hnone := h [] text rfl
      have hamps : escapeAmps ('&' :: text) = "&amp;".toList ++ escapeAmps text := by
        rw [escapeAmps, hnone]
        rfl
      rw [escapeProse, hamps, List.flatMap_append]
      rfl
    · exact escapeProse_cons hc text

theorem not_mem_escapeText (text : List Char) : '<' ∉ escapeText text := by
  intro h
  obtain ⟨c, -, hc⟩ := List.mem_flatMap.mp h
  exact not_mem_escapeChar c hc

theorem markStart_not_mem_escapeText (h : markStart ∉ text) : markStart ∉ escapeText text := by
  intro hmem
  obtain ⟨c, hc, hmem⟩ := List.mem_flatMap.mp hmem
  rcases eq_or_mem_of_mem_escapeChar hmem with ⟨rfl, -⟩ | hmem
  · exact h hc
  · exact absurd hmem (by decide)

end Escaped

section Shown

variable {s : Setup} {text title : List Char}

/-- The text of the first heading of the first level in markup. -/
def headingText? (markup : List Char) : Option (List Char) :=
  (cut? "<h1>".toList markup).bind fun (_, r) =>
    (cut? "</h1>".toList r).map fun (inner, _) => strip (shown inner)

theorem cut?_append_self (w r : List Char) : cut? w (w ++ r) = some ([], r) := by
  have hafter : after? w (w ++ r) = some r := after?_eq_some_iff.mpr rfl
  cases hwr : w ++ r with
  | nil => rw [cut?, ← hwr, hafter]; rfl
  | cons c t => rw [cut?, ← hwr, hafter]

/-- A word is cut out behind a text that does not have its first character. -/
theorem cut?_append_of_not_mem {a : List Char} {c : Char} (h : c ∉ a) (w r : List Char) :
    cut? (c :: w) (a ++ (c :: w) ++ r) = some (a, r) := by
  induction a with
  | nil => exact cut?_append_self (c :: w) r
  | cons d a ih =>
    rw [List.mem_cons, not_or] at h
    rw [List.cons_append, List.cons_append, cut?, after?, if_neg h.1, ih h.2]
    rfl

theorem strip_of_title? (h : title? s text = some title) : strip title = title := by
  unfold title? at h
  split at h
  · split at h
    · cases h
      exact strip_strip _
    · cases h
  · cases h

/-- A heading that shows itself is printed as its text. -/
theorem exists_render_of_showsItself (hblank : allBlank text = false) (h : title? s text = some title)
    (hshows : ShowsItself s (definedLinks s text) title) :
    ∃ r, render s text = "<h1>".toList ++ escapeText title ++ "</h1>".toList ++ r := by
  obtain ⟨t, children, kept, size, more, hplain, hrender⟩ := exists_render_of_title? hblank h
  obtain ⟨rfl, rfl⟩ := hplain hshows.unspanned hshows.unmarked
  have hpasses : Passes ("<h1>".toList ++ escapeText t ++ "</h1>".toList) :=
    .append (.append (passes_tag (by decide) (passes_text (by decide) (by decide)))
        (passes_text (not_mem_escapeText t) (markStart_not_mem_escapeText hshows.unmarked)))
      (passes_tag (by decide) (passes_text (by decide) (by decide)))
  have hstrip : strip ("<h1>".toList ++ escapeText t ++ "</h1>".toList) =
      "<h1>".toList ++ escapeText t ++ "</h1>".toList := by
    have hends := strip_of_ends (c := '<') (d := '>') (by decide) (by decide)
      ("h1>".toList ++ escapeText t ++ "</h1".toList)
    simpa using hends
  obtain ⟨r, hr⟩ := exists_putBack_append hpasses (by simp) hstrip kept size more
  refine ⟨r, ?_⟩
  rw [hrender, childrenMarkup, List.append_nil, escapeProse_of_unreferred hshows.unreferred, hr]

/-- A title is the text of the first heading on the page if it shows itself. -/
theorem headingText?_render (hblank : allBlank text = false) (h : title? s text = some title)
    (hshows : ShowsItself s (definedLinks s text) title) :
    headingText? (render s text) = some title := by
  obtain ⟨r, hr⟩ := exists_render_of_showsItself hblank h hshows
  have hinner : cut? "</h1>".toList (escapeText title ++ "</h1>".toList ++ r) =
      some (escapeText title, r) := cut?_append_of_not_mem (not_mem_escapeText title) "/h1>".toList r
  rw [headingText?, hr, List.append_assoc, List.append_assoc, cut?_append_self, Option.bind_some,
    ← List.append_assoc]
  dsimp only
  rw [hinner, Option.map_some, shown_escapeText, strip_of_title? h]

end Shown

section Signs

/-- The characters without which there is no span. -/
def isSign (c : Char) : Bool :=
  "\\`*_[<&\n".toList.contains c

variable (s : Setup) (refs : References) {text : List Char}

theorem spanRules_demand : ∀ r ∈ spanRules s refs, Demands isSign r.pattern := by
  have hlink (image : Bool) : Demands isSign (if image then imageOpen else linkOpen) := by
    cases image with
    | true => exact .chars (w := ['!', '[']) (by decide)
    | false => exact .right (.chars (w := ['[']) (by decide))
  have hcode : Demands isSign codeRuleSpan.pattern :=
    .alt (.right (.ahead (.chars (w := ['`']) (by decide))))
      (.left (.left (.left (.left (.right (.group (.many_eq (by decide) (by decide))))))))
  have hlone : Demands isSign loneSignRule.pattern :=
    .left (.right (.alt (.many_eq (by decide) (by decide)) (.many_eq (by decide) (by decide))))
  have hemphasis (sign : Char) (hsign : isSign sign = true) : Demands isSign (emphasisRule sign).pattern := by
    refine .one fun x hx => ?_
    rw [of_decide_eq_true hx]
    exact hsign
  have hangle {a b : Pattern} : Demands isSign (.lit "<" ++ a ++ b) :=
    .left (.left (.chars (w := ['<']) (by decide)))
  have hbreak : Demands isSign (tagRule (.lit "\n") "br").pattern := .chars (w := ['\n']) (by decide)
  rw [spanRules, List.forall_mem_append]
  constructor
  · simp only [List.mem_cons, List.not_mem_nil, or_false, forall_eq_or_imp, forall_eq]
    exact ⟨hcode, .left (.chars (w := ['\\']) (by decide)), hlink false, hlink false, hlink true,
      hlink true, hlink false, hlink true, hangle, hangle, .chars (w := [' ', ' ', '\n']) (by decide), hangle,
      .left (.left (.chars (w := ['&']) (by decide))), hlone, hemphasis '*' (by decide),
      hemphasis '_' (by decide)⟩
  · split
    · simpa using hbreak
    · simp

/-- Rules that find nothing leave a text as it is. -/
theorem runRules_of_none {rs : List SpanRule}
    (h : ∀ r ∈ rs, r.pattern.search? [] text = none) (fuel index : Nat) (a : Aside) :
    (runRules rs fuel index [] text).run a = (text, a) := by
  induction fuel generalizing index with
  | zero => rfl
  | succ fuel ih =>
    rw [runRules]
    split
    · rfl
    · next r hr =>
      have hfound : firstFound r (text.length + 1) [] text = pure none := by
        rw [firstFound, h r (List.mem_of_getElem? hr)]
      rw [hfound]
      exact ih (index + 1)

/-- No span is found in a text without signs. -/
theorem unspanned_of_no_sign (h : ∀ c ∈ text, isSign c = false) : Unspanned (spanRules s refs) text :=
  fun a => runRules_of_none (fun r hr => (spanRules_demand s refs r hr).search? h) _ 0 a

theorem showsItself_of_no_sign (h : ∀ c ∈ text, isSign c = false) (hmark : markStart ∉ text) :
    ShowsItself s refs text where
  unspanned := unspanned_of_no_sign s refs h
  unreferred := by
    rintro a b rfl
    exact absurd (h '&' (by simp)) (by decide)
  unmarked := hmark

end Signs

end Marginalia.Markdown
