import Marginalia.Highlight.Markup
import Marginalia.Proofs.Text.Markup
import Marginalia.Proofs.Text.Trim

/-! # What highlighted code shows

Highlighted code is a sequence of spans and escaped characters, and what it shows is the code: the tokens
spell it, the cut into lines is undone by the line ends between them, and every character is escaped once.
-/
namespace Marginalia.Highlight

open Text

section Spanned

/-- Escaped characters and spans around such, one after the other. -/
inductive Spanned : List Char → Prop
  | nil : Spanned []
  | char (c : Char) {m : List Char} : Spanned m → Spanned (escapeChar c ++ m)
  | span {name a b : List Char} : name.all Char.isAlphanum = true → Spanned a → Spanned b →
      Spanned ("<span class=\"".toList ++ name ++ "\">".toList ++ a ++ "</span>".toList ++ b)

variable {a b m : List Char}

theorem Spanned.append (ha : Spanned a) (hb : Spanned b) : Spanned (a ++ b) := by
  induction ha with
  | nil => exact hb
  | char c _ ih => simpa using ih.char c
  | span hname ha _ _ ih => simpa using ha.span hname ih

theorem spanned_escapeText (s : List Char) : Spanned (escapeText s) := by
  induction s with
  | nil => exact .nil
  | cons c s ih => simpa [escapeText] using ih.char c

theorem shown_span {name : List Char} (hname : name.all Char.isAlphanum = true) (s : List Char) :
    shown ("<span class=\"".toList ++ name ++ "\">".toList ++ s) = shown s := by
  have hclose : '>' ∉ "span class=\"".toList ++ name ++ ['"'] := by
    simp only [List.mem_append, not_or]
    refine ⟨⟨by decide, fun h => ?_⟩, by decide⟩
    exact absurd (List.all_eq_true.mp hname _ h) (by decide)
  simpa using shown_tag hclose s

theorem shown_endSpan (s : List Char) : shown ("</span>".toList ++ s) = shown s :=
  shown_tag (t := "/span".toList) (by decide) s

/-- What spans show comes before what follows them shows. -/
theorem Spanned.shown_append (h : Spanned m) (r : List Char) : shown (m ++ r) = shown m ++ shown r := by
  induction h generalizing r with
  | nil => rfl
  | char c _ ih => rw [List.append_assoc, shown_escapeChar, ih, shown_escapeChar, List.cons_append]
  | span hname ha hb iha ihb =>
    simp only [List.append_assoc _ _ r, List.append_assoc _ _ ("</span>".toList ++ _),
      List.append_assoc _ "</span>".toList, shown_span hname, iha, shown_endSpan, ihb]
    rw [List.append_assoc]

theorem escapeChar_of_isBlank {c : Char} (h : isBlank c = true) : escapeChar c = [c] := by
  have hne : ∀ d, isBlank d = false → c ≠ d := by
    rintro d hd rfl
    rw [h] at hd
    cases hd
  rw [escapeChar, if_neg (hne '&' (by decide)), if_neg (hne '<' (by decide)), if_neg (hne '>' (by decide))]

theorem trimEnd_escapeChar {c : Char} (h : isBlank c = false) : trimEnd (escapeChar c) = escapeChar c := by
  unfold escapeChar
  split
  · decide
  · split
    · decide
    · split
      · decide
      · simp [trimEnd, dropEndWhile, h]

/-- Blanks behind spans lie outside of them, so what is left without them are spans again. -/
theorem Spanned.trimEnd (h : Spanned m) : Spanned (trimEnd m) := by
  induction h with
  | nil => exact .nil
  | @char c m _ ih =>
    by_cases hm : allBlank m = true
    · rw [trimEnd_append _ hm]
      cases hc : isBlank c with
      | true =>
        rw [escapeChar_of_isBlank hc]
        simpa [Text.trimEnd, dropEndWhile, hc] using Spanned.nil
      | false =>
        rw [trimEnd_escapeChar hc]
        simpa using Spanned.nil.char c
    · rw [trimEnd_append_of_not_allBlank _ hm]
      exact ih.char c
  | @span name a b hname ha hb _ ih =>
    by_cases hm : allBlank b = true
    · have hlast : Text.trimEnd ("<span class=\"".toList ++ name ++ "\">".toList ++ a ++ "</span>".toList) =
          "<span class=\"".toList ++ name ++ "\">".toList ++ a ++ "</span>".toList := by
        rw [trimEnd_append_of_not_allBlank _ (by decide)]
        rfl
      rw [trimEnd_append _ hm, hlast]
      simpa using Spanned.span hname ha .nil
    · rw [trimEnd_append_of_not_allBlank _ hm]
      exact .span hname ha ih

/-- Without the blanks behind them, spans show the same up to blanks at the end. -/
theorem Spanned.trimEnd_shown (h : Spanned m) :
    Text.trimEnd (shown (Text.trimEnd m)) = Text.trimEnd (shown m) := by
  obtain ⟨b, hb, hm⟩ := exists_trimEnd m
  have hblank : shown b = b := by
    have hescape : escapeText b = b := by
      rw [escapeText]
      conv_rhs => rw [← List.flatMap_singleton' b]
      exact List.flatMap_congr fun c hc => escapeChar_of_isBlank (isBlank_of_mem hb hc)
    rw [← hescape, shown_escapeText, hescape]
  conv_rhs => rw [hm, h.trimEnd.shown_append, hblank, trimEnd_append _ hb]

end Spanned

section Pieces

/-- The text of a line. -/
def lineText (ps : List Piece) : List Char :=
  ps.flatMap Piece.text

@[simp]
theorem lineText_nil : lineText [] = [] := rfl

/-- Whether the class of a piece is that of a kind of token. -/
def Piece.Styled (p : Piece) : Prop :=
  ∃ kind : Kind, p.styleClass = kind.styleClass

theorem isAlphanum_styleClass (kind : Kind) : kind.styleClass.toList.all Char.isAlphanum = true := by
  cases kind <;> decide

theorem lineText_consPiece (p : Piece) (ps : List Piece) :
    lineText (consPiece p ps) = p.text ++ lineText ps := by
  unfold consPiece
  split
  · split
    · next h => simp [lineText, List.isEmpty_iff.mp h]
    · simp [lineText]
  · split
    · next h => simp [List.isEmpty_iff.mp h]
    · split
      · simp [lineText]
      · simp [lineText]

theorem styled_consPiece {p : Piece} {ps : List Piece} (hp : p.Styled) (hps : ∀ q ∈ ps, q.Styled) :
    ∀ q ∈ consPiece p ps, q.Styled := by
  unfold consPiece
  split
  · split
    · simp
    · simpa using hp
  · split
    · exact hps
    · split
      · exact List.forall_mem_cons.mpr ⟨hp, (List.forall_mem_cons.mp hps).2⟩
      · exact List.forall_mem_cons.mpr ⟨hp, hps⟩

/-- The lines of a token are put in front: all but the last stand alone, and the last one joins the line
that comes. -/
theorem consLines_append (styleClass : String) (init : List (List Char)) (last : List Char)
    (l : List Piece) (ls : List (List Piece)) :
    consLines styleClass (init ++ [last]) (l :: ls) =
      init.map (fun part => consPiece ⟨styleClass, part⟩ []) ++ consPiece ⟨styleClass, last⟩ l :: ls := by
  induction init with
  | nil => rfl
  | cons part init ih =>
    obtain ⟨p, ps, hp⟩ : ∃ p ps, init ++ [last] = p :: ps := List.exists_cons_of_ne_nil (by simp)
    rw [hp] at ih
    rw [List.cons_append, hp, consLines, ih]
    · rfl
    all_goals simp

/-- The lines of tokens are the lines of the code they spell, in pieces with the classes of tokens. -/
theorem pieceLines_eq (ts : List Token) : (pieceLines ts).map lineText = lines (code ts) ∧
    ∀ ps ∈ pieceLines ts, ∀ p ∈ ps, p.Styled := by
  -- the last line of a token joins the first line of the tokens behind it
  induction ts with
  | nil => simp [pieceLines, code, lines, lineText]
  | cons t ts ih =>
    obtain ⟨htexts, hstyled⟩ := ih
    obtain ⟨init, last, first, more, ht, hcode, happ⟩ := lines_append t.text (code ts)
    obtain ⟨l, ls, hls⟩ : ∃ l ls, pieceLines ts = l :: ls := by
      refine List.exists_cons_of_ne_nil fun hnil => ?_
      rw [hnil, hcode] at htexts
      cases htexts
    rw [hls, hcode, List.map_cons] at htexts
    obtain ⟨hl, hmore⟩ := List.cons.inj htexts
    have hlines : pieceLines (t :: ts) = init.map (fun part => consPiece ⟨t.kind.styleClass, part⟩ []) ++
        consPiece ⟨t.kind.styleClass, last⟩ l :: ls := by
      rw [pieceLines, ht, hls, consLines_append]
    rw [hlines]
    constructor
    · have hinit : (init.map fun part => consPiece ⟨t.kind.styleClass, part⟩ []).map lineText = init := by
        rw [List.map_map]
        exact List.map_id'' (fun part => by simp [lineText_consPiece]) init
      rw [List.map_append, hinit, List.map_cons, lineText_consPiece, hl, hmore, code, List.flatMap_cons,
        ← code, happ]
    · intro ps hps
      rw [hls] at hstyled
      rcases List.mem_append.mp hps with hps | hps
      · obtain ⟨part, -, rfl⟩ := List.mem_map.mp hps
        exact styled_consPiece ⟨t.kind, rfl⟩ (by simp)
      · rcases List.mem_cons.mp hps with rfl | hps
        · exact styled_consPiece ⟨t.kind, rfl⟩ (hstyled l List.mem_cons_self)
        · exact hstyled ps (List.mem_cons_of_mem _ hps)

end Pieces

section Lines

variable {ps : List Piece} {lss : List (List Piece)}

theorem Piece.Styled.spanned {p : Piece} (h : p.Styled) : Spanned p.markup ∧ shown p.markup = p.text := by
  obtain ⟨kind, hkind⟩ := h
  have hname : p.styleClass.toList.all Char.isAlphanum = true := hkind ▸ isAlphanum_styleClass kind
  unfold Piece.markup
  split
  · exact ⟨spanned_escapeText p.text, shown_escapeText p.text⟩
  · have hspan : Spanned ("<span class=\"".toList ++ p.styleClass.toList ++ "\">".toList ++
        escapeText p.text ++ "</span>".toList) := by
      simpa using Spanned.span hname (spanned_escapeText p.text) .nil
    refine ⟨hspan, ?_⟩
    rw [List.append_assoc _ (escapeText p.text), shown_span hname, (spanned_escapeText p.text).shown_append,
      shown_escapeText, show shown "</span>".toList = [] from shown_endSpan [], List.append_nil]

theorem spanned_lineMarkup (h : ∀ p ∈ ps, p.Styled) :
    Spanned (lineMarkup ps) ∧ shown (lineMarkup ps) = lineText ps := by
  induction ps with
  | nil => exact ⟨.nil, rfl⟩
  | cons p ps ih =>
    obtain ⟨hp, hps⟩ := List.forall_mem_cons.mp h
    obtain ⟨hspanned, hshown⟩ := ih hps
    rw [lineMarkup, List.flatMap_cons, ← lineMarkup, lineText, List.flatMap_cons, ← lineText]
    exact ⟨hp.spanned.1.append hspanned, by rw [hp.spanned.1.shown_append, hp.spanned.2, hshown]⟩

/-- Lines put together again show the lines of their text. -/
theorem spanned_unlines (h : ∀ ps ∈ lss, ∀ p ∈ ps, p.Styled) :
    Spanned (unlines (lss.map lineMarkup)) ∧
      shown (unlines (lss.map lineMarkup)) = unlines (lss.map lineText) := by
  induction lss with
  | nil => exact ⟨.nil, rfl⟩
  | cons ps lss ih =>
    obtain ⟨hps, hlss⟩ := List.forall_mem_cons.mp h
    obtain ⟨hline, hshown⟩ := spanned_lineMarkup hps
    by_cases hnil : lss = []
    · subst hnil
      exact ⟨hline, hshown⟩
    · obtain ⟨hrest, hrestShown⟩ := ih hlss
      rw [List.map_cons, List.map_cons, unlines_cons _ (by simpa using hnil),
        unlines_cons _ (by simpa using hnil)]
      -- a line end is a character that is its own escape
      have hnewline (m : List Char) : '\n' :: m = escapeChar '\n' ++ m := rfl
      rw [hnewline, hline.shown_append, shown_escapeChar, hshown, hrestShown]
      exact ⟨hline.append (hrest.char _), rfl⟩

theorem endLines_eq (ls : List (List Char)) : endLines ls = unlines (ls ++ [[]]) := by
  induction ls with
  | nil => rfl
  | cons l ls ih =>
    rw [endLines, List.flatMap_cons, ← endLines, ih, List.cons_append, unlines_cons _ (by simp)]
    simp

/-- The lines of tokens with their line ends are those lines put together, up to a line end. -/
theorem endLines_markupLines (ts : List Token) : ∃ b, allBlank b = true ∧
    endLines (markupLines ts) = unlines ((pieceLines ts).map lineMarkup) ++ b := by
  unfold markupLines
  dsimp only
  split
  · next before hbefore =>
    refine ⟨[], rfl, ?_⟩
    rw [endLines_eq, ← List.reverse_reverse (List.map lineMarkup (pieceLines ts)), hbefore]
    simp
  · refine ⟨['\n'], by decide, ?_⟩
    have hne : (pieceLines ts).map lineMarkup ≠ [] := by
      intro hnil
      have htexts := (pieceLines_eq ts).1
      rw [List.map_eq_nil_iff.mp hnil] at htexts
      exact List.splitOn_ne_nil '\n' _ htexts.symm
    rw [endLines_eq, unlines, join_append hne (List.cons_ne_nil _ _)]
    rfl

end Lines

section Code

/-- A text without the byte-order mark it may start with. -/
def withoutMark : List Char → List Char
  | [] => []
  | c :: s => if c.toNat = 0xfeff then s else c :: s

/-- Code as it is meant to be shown: without a byte-order mark, with one kind of line end, and without
line ends around it. -/
def normalCode (s : List Char) : List Char :=
  trim (· = '\n') (foldNewlines (withoutMark s))

theorem prepare_eq (s : List Char) : prepare s = normalCode s ++ ['\n'] := by
  cases s <;> rfl

/-- Highlighted code is a frame around spans and escaped characters that show the code: nothing is lost,
moved or left open to be read as markup, up to blanks at the end. -/
theorem codeMarkup_shows_code (s : List Char) : ∃ inner,
    codeMarkup s = "<div class='highlight'><pre>".toList ++ inner ++ "</pre></div>".toList ∧
      Spanned inner ∧ trimEnd (shown inner) = trimEnd (normalCode s) := by
  refine ⟨_, rfl, ?_⟩
  split
  · next h =>
    rw [List.isEmpty_iff.mp h]
    exact ⟨.nil, rfl⟩
  · obtain ⟨b, hb, hlines⟩ := endLines_markupLines (tokens (prepare s))
    obtain ⟨htexts, hstyled⟩ := pieceLines_eq (tokens (prepare s))
    obtain ⟨hspanned, hshown⟩ := spanned_unlines hstyled
    rw [htexts, code_tokens, unlines_lines] at hshown
    rw [scriptLines, hlines, trimEnd_append _ hb]
    refine ⟨hspanned.trimEnd, ?_⟩
    rw [hspanned.trimEnd_shown, hshown, prepare_eq, trimEnd_append _ (by decide)]

end Code

end Marginalia.Highlight
