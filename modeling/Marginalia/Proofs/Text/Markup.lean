import Marginalia.Markdown.Entity
import Marginalia.Text.Html

/-! # Markup read back

What a reader of a page sees: the text of an element goes up to the next sign of a tag, the value of an
attribute up to the quote that closes it, and in both a reference stands for its character. Text that was
escaped is seen as it was; text that was not is seen as it was exactly when it has neither a quote nor a
reference in it.
-/
namespace Marginalia.Text

section References

/-- The number that digits spell in a base; nothing where one of them is no digit. -/
def digitsValue? (base : Nat) : Nat → List Char → Option Nat
  | n, [] => some n
  | n, c :: s => (hexDigit? c).bind fun d => if d < base then digitsValue? base (n * base + d) s else none

/-- The character that the word of a reference stands for: by its number in base sixteen or ten, or by its
name. -/
def referred? : List Char → Option Char
  | '#' :: 'x' :: d :: s | '#' :: 'X' :: d :: s => (digitsValue? 16 0 (d :: s)).map Char.ofNat
  | '#' :: d :: s => (digitsValue? 10 0 (d :: s)).map Char.ofNat
  | word => (Markdown.entityTable.find? fun e => e.2.toList = word).map fun e => Char.ofNat e.1

/-- The reference after an ampersand: its character, and how long it is. -/
def reference? (s : List Char) : Option (Char × Nat) :=
  let word := s.takeWhile (· ≠ ';')
  if word.length < s.length then (referred? word).map fun c => (c, word.length + 1) else none

/-- The text with characters in place of references, after so many characters that are dropped. -/
def unescapeFrom : Nat → List Char → List Char
  | _, [] => []
  | skip + 1, _ :: s => unescapeFrom skip s
  | 0, c :: s =>
    match if c = '&' then reference? s else none with
    | some (d, n) => d :: unescapeFrom n s
    | none => c :: unescapeFrom 0 s

/-- The text with characters in place of references. -/
def unescape (s : List Char) : List Char :=
  unescapeFrom 0 s

variable {c : Char} {s w : List Char}

theorem takeWhile_ne_append (h : c ∉ s) (r : List Char) : (s ++ c :: r).takeWhile (· ≠ c) = s := by
  have hne : ∀ d ∈ s, decide (d ≠ c) = true := fun d hd => decide_eq_true fun hdc => h (hdc ▸ hd)
  rw [List.takeWhile_append_of_pos hne]
  simp

theorem unescapeFrom_eq (n : Nat) (s : List Char) : unescapeFrom n s = unescape (s.drop n) := by
  induction s generalizing n with
  | nil => simp [unescapeFrom, unescape]
  | cons c s ih =>
    cases n with
    | zero => rfl
    | succ n => simpa [unescapeFrom] using ih n

@[simp]
theorem unescape_nil : unescape [] = [] := rfl

theorem unescape_cons_of_ne (h : c ≠ '&') (s : List Char) : unescape (c :: s) = c :: unescape s := by
  simp [unescape, unescapeFrom, h]

theorem reference?_word (hword : ';' ∉ w) (h : referred? w = some c) (s : List Char) :
    reference? (w ++ ';' :: s) = some (c, w.length + 1) := by
  rw [reference?, takeWhile_ne_append hword]
  simp [h]

theorem unescape_reference (hword : ';' ∉ w) (h : referred? w = some c) (s : List Char) :
    unescape ('&' :: (w ++ ';' :: s)) = c :: unescape s := by
  rw [unescape, unescapeFrom, if_pos rfl, reference?_word hword h]
  simp [unescapeFrom_eq]

theorem exists_of_reference? {n : Nat} (h : reference? s = some (c, n)) : 0 < n ∧ n ≤ s.length := by
  unfold reference? at h
  dsimp only at h
  split at h
  · obtain ⟨d, -, hd⟩ := Option.map_eq_some_iff.mp h
    cases hd
    omega
  · cases h

theorem length_unescapeFrom_le (n : Nat) (s : List Char) : (unescapeFrom n s).length ≤ s.length - n := by
  induction s generalizing n with
  | nil => simp [unescapeFrom]
  | cons c s ih =>
    cases n with
    | succ n => simpa [unescapeFrom] using ih n
    | zero =>
      rw [unescapeFrom]
      split
      · next d n _ =>
        have := ih n
        simp only [List.length_cons]
        omega
      · have := ih 0
        simp only [List.length_cons]
        omega

theorem length_unescape_le (s : List Char) : (unescape s).length ≤ s.length :=
  length_unescapeFrom_le 0 s

/-- A text is read as it is exactly when it has no reference in it. -/
theorem unescape_eq_self_iff :
    unescape s = s ↔ ∀ a b, s = a ++ '&' :: b → reference? b = none := by
  induction s with
  | nil => simp
  | cons c s ih =>
    rw [unescape, unescapeFrom]
    split
    · next d n hd =>
      -- a reference is longer than its character, so the text has become shorter
      split at hd
      · next hc =>
        subst hc
        obtain ⟨hpos, hle⟩ := exists_of_reference? hd
        have hlen := length_unescapeFrom_le n s
        constructor
        · intro heq
          have := congrArg List.length (List.cons.inj heq).2
          omega
        · intro hnone
          rw [hnone [] s rfl] at hd
          cases hd
      · cases hd
    · next hnone =>
      rw [List.cons.injEq, eq_self, true_and, show unescapeFrom 0 s = unescape s from rfl, ih]
      constructor
      · intro h a b hab
        cases a with
        | nil =>
          obtain ⟨rfl, rfl⟩ := List.cons.inj hab
          simpa using hnone
        | cons d a => exact h a b (List.cons.inj hab).2
      · exact fun h a b hab => h (c :: a) b (by rw [hab]; rfl)

end References

section Escaped

/-- What an escaped character is written with: the character, if it is no sign of a tag, or a reference. -/
theorem eq_or_mem_of_mem_escapeChar {c d : Char} (h : d ∈ escapeChar c) :
    d = c ∧ c ≠ '<' ∨ d ∈ "&amp;&lt;&gt;".toList := by
  unfold escapeChar at h
  split at h
  · exact .inr (List.mem_append_left "&lt;&gt;".toList h)
  · split at h
    · exact .inr (List.mem_append_right "&amp;".toList (List.mem_append_left "&gt;".toList h))
    · next hless =>
      split at h
      · exact .inr (List.mem_append_right "&amp;&lt;".toList h)
      · exact .inl ⟨List.mem_singleton.mp h, hless⟩

theorem not_mem_escapeChar (c : Char) : '<' ∉ escapeChar c := by
  intro h
  rcases eq_or_mem_of_mem_escapeChar h with ⟨rfl, hne⟩ | hmem
  · exact hne rfl
  · exact absurd hmem (by decide)

theorem unescape_escapeChar (c : Char) (s : List Char) :
    unescape (escapeChar c ++ s) = c :: unescape s := by
  unfold escapeChar
  split
  · next h => exact h ▸ unescape_reference (w := "amp".toList) (by decide) (by decide) s
  · split
    · next h => exact h ▸ unescape_reference (w := "lt".toList) (by decide) (by decide) s
    · split
      · next h => exact h ▸ unescape_reference (w := "gt".toList) (by decide) (by decide) s
      · next h _ _ => exact unescape_cons_of_ne h s

theorem unescape_escapeQuotedChar (c : Char) (s : List Char) :
    unescape (escapeQuotedChar c ++ s) = c :: unescape s := by
  unfold escapeQuotedChar
  split
  · next h => exact h ▸ unescape_reference (w := "#34".toList) (by decide) (by decide) s
  · split
    · next h => exact h ▸ unescape_reference (w := "#39".toList) (by decide) (by decide) s
    · exact unescape_escapeChar c s

theorem unescape_escapeQuoted (s : List Char) : unescape (escapeQuoted s) = s := by
  induction s with
  | nil => rfl
  | cons c s ih => rw [escapeQuoted, List.flatMap_cons, unescape_escapeQuotedChar, ← escapeQuoted, ih]

theorem not_mem_escapeQuotedChar (c : Char) : '<' ∉ escapeQuotedChar c ∧ '"' ∉ escapeQuotedChar c := by
  unfold escapeQuotedChar
  split
  · decide
  · next hquote =>
    split
    · decide
    · refine ⟨not_mem_escapeChar c, fun h => ?_⟩
      rcases eq_or_mem_of_mem_escapeChar h with ⟨hc, -⟩ | hmem
      · exact hquote hc.symm
      · exact absurd hmem (by decide)

/-- Escaped text has no sign of a tag and no quote in it. -/
theorem not_mem_escapeQuoted (s : List Char) : '<' ∉ escapeQuoted s ∧ '"' ∉ escapeQuoted s := by
  constructor
  · intro h
    obtain ⟨c, -, hc⟩ := List.mem_flatMap.mp h
    exact (not_mem_escapeQuotedChar c).1 hc
  · intro h
    obtain ⟨c, -, hc⟩ := List.mem_flatMap.mp h
    exact (not_mem_escapeQuotedChar c).2 hc

end Escaped

section Places

variable {v : List Char}

/-- The text of an element, read from where it starts. -/
def elementText (s : List Char) : List Char :=
  unescape (s.takeWhile (· ≠ '<'))

/-- The value of an attribute, read from behind the quote that opens it. -/
def attributeValue (s : List Char) : List Char :=
  unescape (s.takeWhile (· ≠ '"'))

/-- A text that a reader of an attribute sees as it is: no quote ends it early, and no reference in it
stands for another character. -/
structure Verbatim (v : List Char) : Prop where
  unquoted : '"' ∉ v
  unreferred : ∀ a b, v = a ++ '&' :: b → reference? b = none

theorem elementText_escapeQuoted (v r : List Char) : elementText (escapeQuoted v ++ '<' :: r) = v := by
  rw [elementText, takeWhile_ne_append (not_mem_escapeQuoted v).1, unescape_escapeQuoted]

/-- A value that is written as it is, is read as it is exactly when it is verbatim. -/
theorem attributeValue_eq_iff (r : List Char) : attributeValue (v ++ '"' :: r) = v ↔ Verbatim v := by
  rw [attributeValue]
  by_cases hquote : '"' ∈ v
  · refine iff_of_false (fun heq => ?_) fun h => h.unquoted hquote
    -- what stands before the first quote is shorter than the value, and reading makes it no longer
    obtain ⟨a, b, rfl, ha⟩ := List.eq_append_cons_of_mem hquote
    rw [List.append_assoc, List.cons_append, takeWhile_ne_append ha] at heq
    have hlen := congrArg List.length heq
    have := length_unescape_le a
    simp only [List.length_append, List.length_cons] at hlen
    omega
  · rw [takeWhile_ne_append hquote, unescape_eq_self_iff]
    exact ⟨fun h => ⟨hquote, h⟩, Verbatim.unreferred⟩

end Places

section Tags

/-- The markup without its tags; the flag says that a tag is open. -/
def dropTags : Bool → List Char → List Char
  | _, [] => []
  | true, c :: s => dropTags (c ≠ '>') s
  | false, c :: s => if c = '<' then dropTags true s else c :: dropTags false s

/-- What markup shows: its text without tags, with characters in place of references. -/
def shown (markup : List Char) : List Char :=
  unescape (dropTags false markup)

theorem dropTags_tag {t : List Char} (h : '>' ∉ t) (s : List Char) :
    dropTags true (t ++ '>' :: s) = dropTags false s := by
  induction t with
  | nil => simp [dropTags]
  | cons c t ih =>
    have hc : c ≠ '>' := (List.ne_of_not_mem_cons h).symm
    simpa [dropTags, hc] using ih (List.not_mem_of_not_mem_cons h)

theorem shown_tag {t : List Char} (h : '>' ∉ t) (s : List Char) :
    shown ('<' :: (t ++ '>' :: s)) = shown s := by
  rw [shown, dropTags, if_pos rfl, dropTags_tag h, ← shown]

theorem dropTags_append {s : List Char} (h : '<' ∉ s) (r : List Char) :
    dropTags false (s ++ r) = s ++ dropTags false r := by
  induction s with
  | nil => rfl
  | cons c s ih =>
    have hc : c ≠ '<' := (List.ne_of_not_mem_cons h).symm
    rw [List.cons_append, dropTags, if_neg hc, ih (List.not_mem_of_not_mem_cons h), List.cons_append]

theorem shown_escapeChar (c : Char) (s : List Char) : shown (escapeChar c ++ s) = c :: shown s := by
  rw [shown, dropTags_append (not_mem_escapeChar c), unescape_escapeChar, ← shown]

theorem shown_escapeText (s : List Char) : shown (escapeText s) = s := by
  induction s with
  | nil => rfl
  | cons c s ih => rw [escapeText, List.flatMap_cons, shown_escapeChar, ← escapeText, ih]

end Tags

end Marginalia.Text
