import Marginalia.Markdown.Document
import Marginalia.Proofs.Markdown.Blocks
import Marginalia.Proofs.Pattern.Reads
import Marginalia.Proofs.Text.Trim

/-! # Blank texts

A text of blanks has no title. Cleaning leaves it blank, there is nothing in it to keep aside, and every
rule but those of code demands a character that is no blank.
-/
namespace Marginalia.Markdown

open Text Pattern

section Prepared

variable {s : List Char}

theorem allBlank_foldNewlines (h : allBlank s = true) : allBlank (foldNewlines s) = true := by
  induction s using foldNewlines.induct with
  | case1 => rfl
  | case2 s ih =>
    simp only [allBlank, List.all_cons, Bool.and_eq_true, foldNewlines] at h ih ⊢
    exact ⟨by decide, ih h.2.2⟩
  | case3 c s hc ih =>
    rw [foldNewlines]
    · simp only [allBlank, List.all_cons, Bool.and_eq_true] at h ih ⊢
      refine ⟨?_, ih h.2⟩
      split
      · decide
      · exact h.1
    · exact hc

theorem allBlank_expandTabs (h : allBlank s = true) (column : Nat) :
    allBlank (expandTabs column s) = true := by
  induction s generalizing column with
  | nil => rfl
  | cons c s ih =>
    obtain ⟨hc, hs⟩ := Bool.and_eq_true_iff.mp h
    rw [expandTabs]
    split
    · refine allBlank_append (List.all_eq_true.mpr fun x hx => ?_) (ih hs _)
      rw [List.eq_of_mem_replicate hx]
      decide
    · split <;> exact Bool.and_eq_true_iff.mpr ⟨hc, ih hs _⟩

theorem allBlank_of_mem_clean {ls : List (List Char)} (h : ∀ l ∈ ls, allBlank l = true) :
    ∀ l ∈ emptyBlankLines.clean ls, allBlank l = true := by
  induction ls using emptyBlankLines.clean.induct with
  | case1 => exact h
  | case2 l => exact h
  | case3 l ls hls ih =>
    rw [emptyBlankLines.clean]
    · intro m hm
      rcases List.mem_cons.mp hm with rfl | hm
      · split
        · rfl
        · exact h l List.mem_cons_self
      · exact ih (fun k hk => h k (List.mem_cons_of_mem _ hk)) m hm
    · exact hls

theorem allBlank_emptyBlankLines (h : allBlank s = true) : allBlank (emptyBlankLines s) = true := by
  have hlines : ∀ l ∈ lines s, allBlank l = true := fun l => allBlank_of_mem_lines h
  unfold emptyBlankLines
  split
  · rfl
  · next first rest heq =>
    rw [heq] at hlines
    rw [allBlank_unlines]
    refine List.all_eq_true.mpr fun l hl => ?_
    rcases List.mem_cons.mp hl with rfl | hl
    · exact hlines l List.mem_cons_self
    · exact allBlank_of_mem_clean (fun k hk => hlines k (List.mem_cons_of_mem _ hk)) l hl

theorem allBlank_clean (h : allBlank s = true) : allBlank (clean s) = true := by
  have hfilter : allBlank (s.filter fun c => c ≠ markStart && c ≠ markEnd) = true :=
    List.all_eq_true.mpr fun c hc => isBlank_of_mem h (List.mem_of_mem_filter hc)
  exact allBlank_emptyBlankLines (allBlank_expandTabs
    (allBlank_append (allBlank_foldNewlines hfilter) (by decide)) 0)

/-- The characters that are no blanks. -/
def isInk (c : Char) : Bool :=
  !isBlank c

theorem not_isInk_of_mem (h : allBlank s = true) : ∀ x ∈ s, isInk x = false := fun x hx => by
  rw [isInk, isBlank_of_mem h hx]
  rfl

theorem demands_fencePattern : Demands isInk fencePattern := by
  have hsigns : Demands isInk (.alt (.many (· = '~') 3 none) (.many (· = '`') 3 none)) :=
    .alt (.many_eq (by decide) (by decide)) (.many_eq (by decide) (by decide))
  unfold fencePattern
  repeat first | exact .right (.group hsigns) | refine .left ?_

theorem withoutFences_of_blank (setup : Setup) (h : allBlank s = true) (kept : Kept) :
    (withoutFences setup s).run kept = (s, kept) := by
  unfold withoutFences
  split
  · rfl
  · rw [keepFences, demands_fencePattern.search? (not_isInk_of_mem h)]
    rfl

/-- A text without signs of markup is all text. -/
theorem withoutMarkup_of_not_mem (hangle : '<' ∉ s) (hamp : '&' ∉ s) (kept : Kept) :
    (withoutMarkup s).run kept = (s, kept) := by
  have hplain : (s.takeWhile fun c => c ≠ '<' && c ≠ '&') = s := by
    refine List.takeWhile_eq_self_iff.mpr fun c hc => ?_
    have hne : c ≠ '<' ∧ c ≠ '&' := ⟨fun h => hangle (h ▸ hc), fun h => hamp (h ▸ hc)⟩
    simpa using hne
  show withoutMarkup s kept = (s, kept)
  by_cases hs : s = []
  · subst hs
    rfl
  · have hextract : extractFrom (2 * s.length + 2) false { kept } [] s = { kept, out := [s] } := by
      rw [extractFrom]
      · simp only [hplain, List.drop_length]
        rw [if_pos (by simpa using hs), extractFrom]
        · rfl
        · simp
      · exact hs
    rw [withoutMarkup, hextract]
    simp

/-- Nothing in a blank text is kept aside. -/
theorem prepared_of_blank (setup : Setup) (h : allBlank s = true) :
    (prepared setup s).run [] = (clean s, []) := by
  have hclean := allBlank_clean h
  have hno (c : Char) (hc : isBlank c = false) : c ∉ clean s := fun hmem => by
    rw [isBlank_of_mem hclean hmem] at hc
    cases hc
  have hfences := withoutFences_of_blank setup hclean []
  have hmarkup := withoutMarkup_of_not_mem (hno '<' (by decide)) (hno '&' (by decide)) []
  rw [prepared, StateT.run_bind, hfences]
  exact hmarkup

end Prepared

section Tables

/-- A row without bars, backticks and backslashes is one cell. -/
theorem length_cellsOf_rowPieces {row : List Char} (h : ∀ c ∈ row, c ≠ '|' ∧ c ≠ '`' ∧ c ≠ '\\')
    (fuel fuel' : Nat) : (cellsOf fuel' (rowPieces fuel row)).length = 1 := by
  induction row generalizing fuel fuel' with
  | nil => cases fuel <;> cases fuel' <;> rfl
  | cons c row ih =>
    obtain ⟨⟨hbar, htick, hback⟩, hrow⟩ := List.forall_mem_cons.mp h
    cases fuel with
    | zero => cases fuel' <;> rfl
    | succ fuel =>
      have hpieces : rowPieces (fuel + 1) (c :: row) = .other [c] :: rowPieces fuel row := by
        rw [rowPieces] <;> simp_all
      rw [hpieces]
      cases fuel' with
      | zero => rfl
      | succ fuel' =>
        rw [cellsOf]
        have hlen := ih hrow fuel fuel'
        cases hcells : cellsOf fuel' (rowPieces fuel row) with
        | nil => rfl
        | cons d ds => rw [hcells] at hlen; exact hlen

theorem hasBar_of_not_mem {row : List Char} (h : '|' ∉ row) : hasBar row = false := by
  have hhead : row.head? ≠ some '|' := fun hr => h (List.mem_of_mem_head? hr)
  have hend : endsWithBar row = false := by
    unfold endsWithBar
    split
    · next heq =>
      refine absurd ?_ h
      rw [← List.mem_reverse, heq]
      exact List.mem_cons_self
    · rfl
  simp [hasBar, hhead, hend]

theorem tableHead?_of_blank {block : List Char} (h : allBlank block = true) : tableHead? block = none := by
  unfold tableHead?
  split
  · next head rule rows heq =>
    obtain ⟨l, hl, rfl⟩ := List.mem_map.mp (heq ▸ List.mem_cons_self : head ∈ (lines block).map trimSpaces)
    have hink : ∀ c ∈ trimSpaces l, isBlank c = true := fun c hc =>
      isBlank_of_mem (allBlank_of_mem_lines h hl) (mem_of_mem_trim hc)
    have hne {c : Char} (hc : c ∈ trimSpaces l) {d : Char} (hd : isBlank d = false) : c ≠ d := by
      rintro rfl
      rw [hink c hc] at hd
      cases hd
    have hbar : hasBar (trimSpaces l) = false := hasBar_of_not_mem fun hc => hne hc (by decide) rfl
    have hcolumns : (splitRow false (trimSpaces l)).length = 1 := length_cellsOf_rowPieces
      (fun c hc => ⟨hne hc (by decide), hne hc (by decide), hne hc (by decide)⟩) _ _
    simp [hbar, hcolumns]
  · rfl

end Tables

/-- An element into which blank blocks are read: it holds blocks of code only. -/
structure CodeOnly (e : Element) : Prop where
  tag : e.tag = "div"
  children : ∀ c ∈ e.children, c.tag = "pre"

/-- What a rule makes of a blank block is blank code. -/
def Rule.KeepsCode (r : Rule) : Prop :=
  ∀ read mode parent block rest refs p, mode ≠ .list → CodeOnly parent → allBlank block = true →
    (∀ b ∈ rest, allBlank b = true) → r read mode parent block rest refs = some p →
      CodeOnly p.parent ∧ ∀ b ∈ p.blocks, allBlank b = true

section Rules

variable {e c : Element} {block : List Char} {rest : List (List Char)}

theorem CodeOnly.push (h : CodeOnly e) (hc : c.tag = "pre") : CodeOnly (e.push c) :=
  ⟨h.tag, Element.forall_mem_push h.children hc⟩

theorem CodeOnly.setLast (h : CodeOnly e) (hc : c.tag = "pre") : CodeOnly (e.setLast c) :=
  ⟨h.tag, Element.forall_mem_setLast h.children hc⟩

theorem allBlank_of_mem_consBlock (hblock : allBlank block = true) (hrest : ∀ b ∈ rest, allBlank b = true) :
    ∀ b ∈ consBlock block rest, allBlank b = true := by
  unfold consBlock
  split
  · exact hrest
  · exact List.forall_mem_cons.mpr ⟨hblock, hrest⟩

theorem keepsCode_of_none {r : Rule} (h : ∀ read mode parent block rest refs, mode ≠ .list →
    CodeOnly parent → allBlank block = true → r read mode parent block rest refs = none) :
    r.KeepsCode := by
  intro read mode parent block rest refs p hmode hparent hblock _ hp
  rw [h read mode parent block rest refs hmode hparent hblock] at hp
  cases hp

theorem emptyRule_keepsCode : Rule.KeepsCode emptyRule := by
  intro read mode parent block rest refs p _ hparent hblock hrest h
  simp only [emptyRule, Option.ite_none_right_eq_some, Option.some.injEq] at h
  obtain ⟨-, rfl⟩ := h
  refine ⟨?_, allBlank_of_mem_consBlock ?_ hrest⟩
  · cases hcode : parent.extendCode (if block.isEmpty = true then ['\n', '\n'] else ['\n']) with
    | none => exact hparent
    | some e' =>
      obtain ⟨pre, pre', -, -, hpre, rfl⟩ := Element.extendCode_eq_some hcode
      exact hparent.setLast hpre
  · exact List.all_eq_true.mpr fun c hc => isBlank_of_mem hblock (List.mem_of_mem_drop hc)

theorem mem_of_mem_detab {ls : List (List Char)} {l : List Char} (h : l ∈ (detab ls).2) : l ∈ ls := by
  induction ls with
  | nil => exact h
  | cons m ls ih =>
    rw [detab] at h
    split at h
    · exact List.mem_cons_of_mem _ (ih h)
    · split at h
      · exact List.mem_cons_of_mem _ (ih h)
      · exact h

theorem codeRule_keepsCode : Rule.KeepsCode codeRule := by
  intro read mode parent block rest refs p _ hparent hblock hrest h
  simp only [codeRule, Option.ite_none_right_eq_some, Option.some.injEq] at h
  obtain ⟨-, rfl⟩ := h
  refine ⟨?_, allBlank_of_mem_consBlock ?_ hrest⟩
  · split
    · next e' hcode =>
      obtain ⟨pre, pre', -, -, hpre, rfl⟩ := Element.extendCode_eq_some hcode
      exact hparent.setLast hpre
    · exact hparent.push rfl
  · rw [allBlank_unlines]
    exact List.all_eq_true.mpr fun l hl => allBlank_of_mem_lines hblock (mem_of_mem_detab hl)

theorem indentRule_keepsCode : Rule.KeepsCode indentRule := by
  intro read mode parent block rest refs p _ hparent _ _ h
  -- there is neither an item nor a list to go on
  obtain ⟨hplace, -⟩ := indentRule_eq_some h
  rcases hplace with htag | ⟨list, hlast, hlist⟩
  · rw [hparent.tag] at htag
    exact absurd htag (by decide)
  · rw [hparent.children list (Element.mem_of_last? hlast)] at hlist
    exact absurd hlist (by decide)

theorem tableRule_keepsCode (t : Option TableSetup) : Rule.KeepsCode (tableRule t) := by
  refine keepsCode_of_none fun read mode parent block rest refs _ _ hblock => ?_
  cases t with
  | none => rfl
  | some t => rw [tableRule, Option.bind_some, tableHead?_of_blank hblock, Option.map_none]

theorem hashRule_keepsCode : Rule.KeepsCode hashRule := by
  have hdemands : Demands isInk hashPattern :=
    .left (.left (.left (.right (.group (.many_eq (by decide) (by decide))))))
  refine keepsCode_of_none fun read mode parent block rest refs _ _ hblock => ?_
  rw [hashRule, hdemands.search? (not_isInk_of_mem hblock), Option.map_none]

theorem underlineRule_keepsCode : Rule.KeepsCode underlineRule := by
  have hdemands : Demands isInk underlinePattern := by
    refine .left (.left (.right (.many (by decide) fun x hx => ?_)))
    simp only [Bool.or_eq_true, decide_eq_true_eq] at hx
    rcases hx with rfl | rfl <;> decide
  refine keepsCode_of_none fun read mode parent block rest refs _ _ hblock => ?_
  rw [underlineRule, match?, hdemands.matchAt? (not_isInk_of_mem hblock)]
  rfl

theorem rulerRule_keepsCode : Rule.KeepsCode rulerRule := by
  have hruler (c : Char) (hc : isInk c = true) : Demands isInk (rulerOf c) :=
    .left (.left (.left (.left (.many_eq (by decide) hc))))
  have hdemands : Demands isInk rulerPattern :=
    .left (.left (.left (.right (.ahead (.group
      (.alt (hruler '-' (by decide)) (.alt (hruler '_' (by decide)) (hruler '*' (by decide)))))))))
  refine keepsCode_of_none fun read mode parent block rest refs _ _ hblock => ?_
  rw [rulerRule, hdemands.search? (not_isInk_of_mem hblock), Option.map_none]

theorem quoteRule_keepsCode : Rule.KeepsCode quoteRule := by
  have hdemands : Demands isInk quotePattern :=
    .left (.left (.right (.chars (w := ['>']) (by decide))))
  refine keepsCode_of_none fun read mode parent block rest refs _ _ hblock => ?_
  rw [quoteRule, hdemands.search? (not_isInk_of_mem hblock), Option.map_none]

theorem definitionRule_keepsCode : Rule.KeepsCode definitionRule := by
  have hdemands : Demands isInk definitionPattern := by
    unfold definitionPattern
    repeat first | exact .right (.chars (w := ['[']) (by decide)) | refine .left ?_
  refine keepsCode_of_none fun read mode parent block rest refs _ _ hblock => ?_
  rw [definitionRule, hdemands.search? (not_isInk_of_mem hblock), Option.map_none]

theorem paragraphRule_keepsCode : Rule.KeepsCode paragraphRule := by
  intro read mode parent block rest refs p _ hparent hblock hrest h
  rw [paragraphRule, if_pos hblock] at h
  cases h
  exact ⟨hparent, hrest⟩

theorem listRule_keepsCode (strict : Bool) (kind : ListKind) : Rule.KeepsCode (listRule strict kind) := by
  have hsign : Demands isInk kind.sign := by
    cases kind with
    | numbered => exact .right (.chars (w := ['.']) (by decide))
    | bulleted =>
      refine .one fun x hx => ?_
      have hx : x ∈ ['*', '+', '-'] := List.contains_iff_mem.mp hx
      simp only [List.mem_cons, List.not_mem_nil, or_false] at hx
      rcases hx with rfl | rfl | rfl <;> decide
  have hdemands : Demands isInk (itemPattern kind.sign) := .left (.left (.right (.group hsign)))
  refine keepsCode_of_none fun read mode parent block rest refs _ _ hblock => ?_
  rw [listRule, match?, hdemands.matchAt? (not_isInk_of_mem hblock), Option.map_none]

end Rules

section Reading

variable (setup : Setup) {s : List Char}

theorem rules_keepCode : ∀ r ∈ rules setup, Rule.KeepsCode r := by
  simp only [rules, List.mem_cons, List.not_mem_nil, or_false, forall_eq_or_imp, forall_eq]
  exact ⟨emptyRule_keepsCode, indentRule_keepsCode, codeRule_keepsCode, tableRule_keepsCode _,
    hashRule_keepsCode, underlineRule_keepsCode, rulerRule_keepsCode, listRule_keepsCode _ _,
    listRule_keepsCode _ _, quoteRule_keepsCode, definitionRule_keepsCode, paragraphRule_keepsCode⟩

/-- Blank blocks are read as code or as nothing. -/
theorem readBlocks_keepsCode {rs : List Rule} (hrs : ∀ r ∈ rs, r.KeepsCode) (fuel : Nat) {mode : Mode}
    (hmode : mode ≠ .list) {e : Element} (he : CodeOnly e) {bs : List (List Char)}
    (hbs : ∀ b ∈ bs, allBlank b = true) (refs : References) :
    CodeOnly (readBlocks rs fuel mode e bs refs).1 := by
  induction fuel generalizing e bs refs with
  | zero => exact he
  | succ fuel ih =>
    cases bs with
    | nil => exact he
    | cons block rest =>
      obtain ⟨hblock, hrest⟩ := List.forall_mem_cons.mp hbs
      obtain ⟨e', bs', refs', heq, hstep⟩ := readBlocks_cons rs fuel mode e block rest refs
      rw [heq]
      obtain ⟨rfl, rfl⟩ | ⟨r, hr, p, hrule, rfl, rfl⟩ := hstep
      · exact ih he hrest _
      · obtain ⟨hparent, hblocks⟩ := hrs r hr _ _ _ _ _ _ _ hmode he hblock hrest hrule
        exact ih hparent hblocks _

theorem mem_of_mem_blocksOf {b : List Char} (hb : b ∈ blocksOf s) {c : Char} (hc : c ∈ b) : c ∈ s := by
  induction s using blocksOf.induct generalizing b with
  | case1 =>
    rw [blocksOf, List.mem_singleton] at hb
    rwa [hb] at hc
  | case2 s ih =>
    rw [blocksOf] at hb
    rcases List.mem_cons.mp hb with rfl | hb
    · cases hc
    · exact List.mem_cons_of_mem _ (List.mem_cons_of_mem _ (ih hb hc))
  | case3 x s hs b' bs heq ih =>
    rw [blocksOf, heq] at hb
    · rcases List.mem_cons.mp hb with rfl | hb
      · rcases List.mem_cons.mp hc with rfl | hc
        · exact List.mem_cons_self
        · exact List.mem_cons_of_mem _ (ih (heq ▸ List.mem_cons_self) hc)
      · exact List.mem_cons_of_mem _ (ih (heq ▸ List.mem_cons_of_mem _ hb) hc)
    · exact hs
  | case4 x s hs heq ih =>
    rw [blocksOf, heq] at hb
    · rw [List.mem_singleton.mp hb, List.mem_singleton] at hc
      rw [hc]
      exact List.mem_cons_self
    · exact hs

theorem title?_of_blank (h : allBlank s = true) : title? setup s = none := by
  have hread : CodeOnly (blockTree setup s).1 := by
    have hprepared := prepared_of_blank setup h
    rw [blockTree, hprepared]
    refine readBlocks_keepsCode (rules_keepCode setup) _ (by decide) ⟨rfl, by simp⟩ (fun b hb => ?_) _
    exact List.all_eq_true.mpr fun c hc => isBlank_of_mem (allBlank_clean h) (mem_of_mem_blocksOf hb hc)
  unfold title?
  split
  · next e es hchildren =>
    have htag := hread.children e (by simp [hchildren])
    rw [if_neg (by rw [htag]; decide)]
  · rfl

end Reading

end Marginalia.Markdown
