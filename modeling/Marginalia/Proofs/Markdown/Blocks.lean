import Marginalia.Markdown.Block
import Marginalia.Proofs.Text.Trim

/-! # Headings among blocks

The blocks of a text are read into an element. Whatever a rule reads, it never changes the tag of the element
it reads into, and a heading of the first level that it puts there has its text and nothing else: no rule
goes back to it.
-/
namespace Marginalia.Markdown

open Text

section Tags

variable {e c : Element}

@[simp]
theorem Element.tag_push (e c : Element) : (e.push c).tag = e.tag := rfl

theorem Element.forall_mem_push {P : Element → Prop} (he : ∀ d ∈ e.children, P d) (hc : P c) :
    ∀ d ∈ (e.push c).children, P d := by
  intro d hd
  rcases List.mem_append.mp hd with hd | hd
  · exact he d hd
  · rwa [List.mem_singleton.mp hd]

theorem Element.forall_mem_setLast {P : Element → Prop} (he : ∀ d ∈ e.children, P d) (hc : P c) :
    ∀ d ∈ (e.setLast c).children, P d := by
  intro d hd
  rcases List.mem_append.mp hd with hd | hd
  · exact he d (List.dropLast_subset _ hd)
  · rwa [List.mem_singleton.mp hd]

theorem Element.mem_of_last? (h : e.last? = some c) : c ∈ e.children :=
  List.mem_of_getLast? h

/-- The element with more code has the same tag, and its last child is the block of code. -/
theorem Element.extendCode_eq_some {e' : Element} {s : List Char} (h : e.extendCode s = some e') :
    ∃ pre pre', e.last? = some pre ∧ pre.tag = "pre" ∧ pre'.tag = "pre" ∧ e' = e.setLast pre' := by
  simp only [extendCode, Option.bind_eq_some_iff, Option.map_eq_some_iff] at h
  obtain ⟨pre, hlast, code, hcode, rfl⟩ := h
  have htag : pre.tag = "pre" := by
    unfold Element.code? at hcode
    split at hcode
    · assumption
    · cases hcode
  exact ⟨pre, { pre with children := { code with text := code.text ++ s } :: pre.children.tail }, hlast,
    htag, htag, rfl⟩

theorem tag_changeAt {f : Element → Element × References} (hf : ∀ e, (f e).1.tag = e.tag) (d : Nat)
    (e : Element) : (changeAt f d e).1.tag = e.tag := by
  cases d with
  | zero => exact hf e
  | succ d =>
    rw [changeAt]
    split
    · exact hf e
    · rfl

theorem tag_loosenLast (list : Element) : (loosenLast list).tag = list.tag := by
  unfold loosenLast
  split <;> rfl

theorem tag_readItems (read : Reader) (items : List (List Char)) (list : Element) (refs : References) :
    (readItems read items list refs).1.tag = list.tag := by
  induction items generalizing list refs with
  | nil => rfl
  | cons item items ih =>
    rw [readItems]
    split <;> exact ih ..

end Tags

/-- An element that has a text without blanks at its ends and nothing else. -/
def Element.Bare (e : Element) : Prop :=
  e = { tag := e.tag, text := e.text } ∧ strip e.text = e.text

/-- An element that blocks are read into at the top: it has no text of its own, and headings of the first
level in it are bare. -/
structure Body (e : Element) : Prop where
  tag : e.tag = "div"
  text : e.text = []
  headings : ∀ c ∈ e.children, c.tag = "h1" → c.Bare

section Body

variable {e c : Element}

theorem Body.push (h : Body e) (hc : c.tag = "h1" → c.Bare) : Body (e.push c) where
  tag := h.tag
  text := h.text
  headings := Element.forall_mem_push h.headings hc

theorem Body.setLast (h : Body e) (hc : c.tag ≠ "h1") : Body (e.setLast c) where
  tag := h.tag
  text := h.text
  headings := Element.forall_mem_setLast h.headings fun htag => absurd htag hc

theorem Body.push_strip (h : Body e) (tag : String) (text : List Char) :
    Body (e.push { tag, text := strip text }) :=
  h.push fun _ => ⟨rfl, strip_strip text⟩

theorem Body.push_other (h : Body e) (hc : c.tag ≠ "h1") : Body (e.push c) :=
  h.push fun htag => absurd htag hc

end Body

/-- A reader keeps tags, and bodies outside lists. -/
structure Reader.Keeps (read : Reader) : Prop where
  tag : ∀ mode e bs refs, (read mode e bs refs).1.tag = e.tag
  body : ∀ mode e bs refs, mode ≠ .list → Body e → Body (read mode e bs refs).1

/-- A rule keeps what the reader inside it keeps. -/
def Rule.Keeps (r : Rule) : Prop :=
  ∀ read : Reader, Reader.Keeps read → ∀ mode parent block rest refs p,
    r read mode parent block rest refs = some p →
      p.parent.tag = parent.tag ∧ (mode ≠ .list → Body parent → Body p.parent)

section Rules

theorem ne_h1_of_isListTag {tag : String} (h : isListTag tag = true) : tag ≠ "h1" := by
  rintro rfl
  exact absurd h (by decide)

theorem emptyRule_keeps : Rule.Keeps emptyRule := by
  intro read _ mode parent block rest refs p h
  simp only [emptyRule, Option.ite_none_right_eq_some, Option.some.injEq] at h
  obtain ⟨-, rfl⟩ := h
  cases hcode : parent.extendCode (if block.isEmpty = true then ['\n', '\n'] else ['\n']) with
  | none => simp
  | some e' =>
    obtain ⟨pre, pre', -, -, hpre, rfl⟩ := Element.extendCode_eq_some hcode
    exact ⟨rfl, fun _ hbody => hbody.setLast (by simp [hpre])⟩

theorem codeRule_keeps : Rule.Keeps codeRule := by
  intro read _ mode parent block rest refs p h
  simp only [codeRule, Option.ite_none_right_eq_some, Option.some.injEq] at h
  obtain ⟨-, rfl⟩ := h
  split
  · next e' hcode =>
    obtain ⟨pre, pre', -, -, hpre, rfl⟩ := Element.extendCode_eq_some hcode
    exact ⟨rfl, fun _ hbody => hbody.setLast (by simp [hpre])⟩
  · exact ⟨rfl, fun _ hbody => hbody.push_other (show "pre" ≠ "h1" by decide)⟩

theorem tableRule_keeps (t : Option TableSetup) : Rule.Keeps (tableRule t) := by
  intro read _ mode parent block rest refs p h
  simp only [tableRule, Option.bind_eq_some_iff, Option.map_eq_some_iff] at h
  obtain ⟨t, -, head, -, rfl⟩ := h
  exact ⟨rfl, fun _ hbody => hbody.push_other (by simp [tableElement])⟩

theorem hashRule_keeps : Rule.Keeps hashRule := by
  intro read hread mode parent block rest refs p h
  simp only [hashRule, Option.map_eq_some_iff] at h
  obtain ⟨⟨before, m⟩, -, rfl⟩ := h
  dsimp only
  split
  · exact ⟨rfl, fun _ hbody => hbody.push_strip _ _⟩
  · exact ⟨hread.tag .., fun hmode hbody => (hread.body _ _ _ _ hmode hbody).push_strip _ _⟩

theorem underlineRule_keeps : Rule.Keeps underlineRule := by
  intro read _ mode parent block rest refs p h
  simp only [underlineRule, Option.ite_none_right_eq_some] at h
  obtain ⟨-, h⟩ := h
  split at h
  · cases h
    exact ⟨rfl, fun _ hbody => hbody.push_strip _ _⟩
  · cases h

theorem rulerRule_keeps : Rule.Keeps rulerRule := by
  intro read hread mode parent block rest refs p h
  simp only [rulerRule, Option.map_eq_some_iff] at h
  obtain ⟨⟨before, m⟩, -, rfl⟩ := h
  dsimp only
  split
  · exact ⟨rfl, fun _ hbody => hbody.push_other (by decide)⟩
  · exact ⟨hread.tag .., fun hmode hbody => (hread.body _ _ _ _ hmode hbody).push_other (by decide)⟩

theorem quoteRule_keeps : Rule.Keeps quoteRule := by
  intro read hread mode parent block rest refs p h
  simp only [quoteRule, Option.map_eq_some_iff] at h
  obtain ⟨⟨before, m⟩, -, rfl⟩ := h
  dsimp only
  split
  · next quote hquote =>
    obtain ⟨-, htag⟩ := Option.filter_eq_some_iff.mp hquote
    refine ⟨hread.tag .., fun hmode hbody => (hread.body _ _ _ _ hmode hbody).setLast ?_⟩
    rw [hread.tag, of_decide_eq_true htag]
    decide
  · refine ⟨hread.tag .., fun hmode hbody => (hread.body _ _ _ _ hmode hbody).push_other ?_⟩
    rw [hread.tag]
    decide

theorem definitionRule_keeps : Rule.Keeps definitionRule := by
  intro read _ mode parent block rest refs p h
  simp only [definitionRule, Option.map_eq_some_iff] at h
  obtain ⟨⟨before, m⟩, -, rfl⟩ := h
  exact ⟨rfl, fun _ hbody => hbody⟩

theorem paragraphRule_keeps : Rule.Keeps paragraphRule := by
  intro read _ mode parent block rest refs p h
  unfold paragraphRule at h
  split at h
  · cases h
    exact ⟨rfl, fun _ hbody => hbody⟩
  · split at h
    -- only inside a list is text joined to what is there
    · next hmode =>
      split at h <;> cases h <;> exact ⟨rfl, fun hne => absurd hmode hne⟩
    · cases h
      exact ⟨rfl, fun _ hbody => hbody.push_other (show "p" ≠ "h1" by decide)⟩

theorem listRule_keeps (strict : Bool) (kind : ListKind) : Rule.Keeps (listRule strict kind) := by
  intro read hread mode parent block rest refs p h
  simp only [listRule, Option.map_eq_some_iff] at h
  obtain ⟨first, -, rfl⟩ := h
  have hkind : kind.tag ≠ "h1" := by cases kind <;> decide
  split
  -- the items join the list that comes last, or the parent if that is a list, or make a new one
  · next list hlist =>
    obtain ⟨-, htag⟩ := Option.filter_eq_some_iff.mp hlist
    refine ⟨rfl, fun _ hbody => hbody.setLast ?_⟩
    rw [tag_readItems, Element.tag_push, tag_loosenLast]
    split at htag
    · rw [of_decide_eq_true htag]
      exact hkind
    · exact ne_h1_of_isListTag (of_decide_eq_true htag)
  · split
    · next hparent =>
      refine ⟨tag_readItems .., fun _ hbody => absurd hparent ?_⟩
      rw [hbody.tag]
      decide
    · refine ⟨rfl, fun _ hbody => hbody.push_other ?_⟩
      rw [tag_readItems]
      exact hkind

/-- How an indented block goes on an item. -/
def onItem (read : Reader) (block : List Char) (refs : References) (item : Element) :
    Element × References :=
  match item.last? with
  | some child =>
    if isListTag child.tag then
      let (child, refs) := read .detabbed child [block] refs
      (item.setLast child, refs)
    else read .detabbed item [block] refs
  | none => read .detabbed item [block] refs

/-- How an indented block goes on the last item of a list. -/
def onList (read : Reader) (block : List Char) (refs : References) (list : Element) :
    Element × References :=
  if list.tag = "li" then read .detabbed list [block] refs
  else match list.last? with
    | some item =>
      if item.tag = "li" then
        let (item, refs) := read .detabbed item.wrapText (blocksOf block) refs
        (list.setLast item, refs)
      else
        let (item, refs) := read .detabbed { tag := "li" } [block] refs
        (list.push item, refs)
    | none =>
      let (item, refs) := read .detabbed { tag := "li" } [block] refs
      (list.push item, refs)

/-- An indented block goes on an item, or on a list that is the last child. -/
theorem indentRule_eq_some {read : Reader} {mode : Mode} {parent : Element} {block : List Char}
    {rest : List (List Char)} {refs : References} {p : Progress}
    (h : indentRule read mode parent block rest refs = some p) :
    (parent.tag = "li" ∨ ∃ list, parent.last? = some list ∧ isListTag list.tag = true) ∧
      ∃ depth block', p.blocks = rest ∧
        p.parent = (if parent.tag = "li" then onItem read block' refs parent
          else changeAt (onList read block' refs) depth parent).1 := by
  simp only [indentRule, Option.ite_none_right_eq_some, Option.some.injEq] at h
  obtain ⟨hguard, rfl⟩ := h
  simp only [Bool.and_eq_true, Bool.or_eq_true, decide_eq_true_eq, Option.any_eq_true] at hguard
  obtain ⟨-, hplace⟩ := hguard
  exact ⟨hplace, _, _, rfl, rfl⟩

section Indent

variable {read : Reader} (hread : read.Keeps) (block : List Char) (refs : References) (e : Element)
include hread

theorem tag_onItem : (onItem read block refs e).1.tag = e.tag := by
  unfold onItem
  split
  · split
    · rfl
    · exact hread.tag ..
  · exact hread.tag ..

theorem tag_onList : (onList read block refs e).1.tag = e.tag := by
  unfold onList
  split
  · exact hread.tag ..
  · split
    · split <;> rfl
    · rfl

/-- A body with a list at its end stays one when an indented block goes on the list. -/
theorem Body.onList {e list : Element} (h : Body e) (hlast : e.last? = some list)
    (hlist : isListTag list.tag = true) : Body (Markdown.onList read block refs e).1 := by
  have hitem : list.tag ≠ "li" := by
    intro htag
    rw [htag] at hlist
    exact absurd hlist (by decide)
  rw [Markdown.onList, if_neg (by rw [h.tag]; decide), hlast]
  simp only [if_neg hitem]
  refine h.push_other ?_
  rw [hread.tag]
  decide

end Indent

theorem indentRule_keeps : Rule.Keeps indentRule := by
  intro read hread mode parent block rest refs p h
  obtain ⟨hplace, depth, block', -, hp⟩ := indentRule_eq_some h
  rw [hp]
  refine ⟨?_, fun _ hbody => ?_⟩
  · split
    · exact tag_onItem hread ..
    · exact tag_changeAt (tag_onList hread block' refs) ..
  -- a body is no item, so the block goes on the list that comes last, which is no heading
  · have hli : parent.tag ≠ "li" := by
      rw [hbody.tag]
      decide
    obtain ⟨list, hlast, hlist⟩ := hplace.resolve_left hli
    rw [if_neg hli]
    cases depth with
    | zero => exact hbody.onList hread block' refs hlast hlist
    | succ depth =>
      rw [changeAt, hlast]
      refine hbody.setLast ?_
      rw [tag_changeAt (tag_onList hread block' refs)]
      exact ne_h1_of_isListTag hlist

end Rules

section Reading

variable (s : Setup)

theorem rules_keep : ∀ r ∈ rules s, Rule.Keeps r := by
  simp only [rules, List.mem_cons, List.not_mem_nil, or_false, forall_eq_or_imp, forall_eq]
  exact ⟨emptyRule_keeps, indentRule_keeps, codeRule_keeps, tableRule_keeps _, hashRule_keeps,
    underlineRule_keeps, rulerRule_keeps, listRule_keeps _ _, listRule_keeps _ _, quoteRule_keeps,
    definitionRule_keeps, paragraphRule_keeps⟩

/-- A block is read by one of the rules or left out, and reading goes on. -/
theorem readBlocks_cons (rs : List Rule) (fuel : Nat) (mode : Mode) (e : Element) (block : List Char)
    (rest : List (List Char)) (refs : References) : ∃ e' bs refs',
      readBlocks rs (fuel + 1) mode e (block :: rest) refs = readBlocks rs fuel mode e' bs refs' ∧
      ((e' = e ∧ bs = rest) ∨ ∃ r ∈ rs, ∃ p, r (readBlocks rs fuel) mode e block rest refs = some p ∧
        e' = p.parent ∧ bs = p.blocks) := by
  rw [readBlocks]
  split
  · next p hp =>
    obtain ⟨r, hr, hrule⟩ := List.exists_of_findSome?_eq_some hp
    exact ⟨p.parent, p.blocks, p.refs, rfl, .inr ⟨r, hr, p, hrule, rfl, rfl⟩⟩
  · exact ⟨e, rest, refs, rfl, .inl ⟨rfl, rfl⟩⟩

/-- Reading blocks by rules that keep tags and bodies keeps them too. -/
theorem readBlocks_keeps {rs : List Rule} (hrs : ∀ r ∈ rs, r.Keeps) (fuel : Nat) :
    Reader.Keeps (readBlocks rs fuel) := by
  induction fuel with
  | zero => exact ⟨fun _ _ _ _ => rfl, fun _ _ _ _ _ hbody => hbody⟩
  | succ fuel ih =>
    refine ⟨fun mode e bs refs => ?_, fun mode e bs refs hmode hbody => ?_⟩
    · cases bs with
      | nil => rfl
      | cons block rest =>
        obtain ⟨e', bs', refs', heq, hstep⟩ := readBlocks_cons rs fuel mode e block rest refs
        rw [heq, ih.tag]
        obtain ⟨rfl, -⟩ | ⟨r, hr, p, hrule, rfl, -⟩ := hstep
        · rfl
        · exact (hrs r hr _ ih _ _ _ _ _ _ hrule).1
    · cases bs with
      | nil => exact hbody
      | cons block rest =>
        obtain ⟨e', bs', refs', heq, hstep⟩ := readBlocks_cons rs fuel mode e block rest refs
        rw [heq]
        refine ih.body _ _ _ _ hmode ?_
        obtain ⟨rfl, -⟩ | ⟨r, hr, p, hrule, rfl, -⟩ := hstep
        · exact hbody
        · exact (hrs r hr _ ih _ _ _ _ _ _ hrule).2 hmode hbody

theorem body_readText (text : List Char) : Body (readText s text).1 :=
  (readBlocks_keeps (rules_keep s) _).body _ _ _ _ (by decide) ⟨rfl, rfl, by simp⟩

end Reading

end Marginalia.Markdown
