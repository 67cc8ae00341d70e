import Mathlib
import Marginalia.Text.Case

/-! # Lower case is settled

A text in lower case stays as it is in lower case. The table of capitals decides it: no small letter that
the table gives is a capital of the table, nor a capital below it. Nor does the table give a dot, so a
text in lower case starts with a dot only if the text itself does.
-/
namespace Marginalia.Text

/-- The numbers of the characters that a run moves. -/
def CaseRun.numbers (r : CaseRun) : List Nat :=
  (List.range' r.first (r.last + 1 - r.first)).filter fun n => (n - r.first) % r.step == 0

/-- The numbers a run moves them to. -/
def CaseRun.images (r : CaseRun) : List Nat :=
  r.numbers.map fun (n : Nat) => ((n : Int) + r.shift).toNat

/-- A set of numbers as the bits of one number. -/
def bits : List Nat → Nat
  | [] => 0
  | n :: ns => 1 <<< n ||| bits ns

/-- The capitals, and the dot. -/
def unsettled (runs : List CaseRun) : List Nat :=
  0x2E :: 0x130 :: 0x3A3 :: List.range' 0x41 26 ++ runs.flatMap CaseRun.numbers

/-- The other characters below the table, and the small letters that it does not give. -/
def smallBasics : List Nat :=
  List.range' 0 0x2E ++ List.range' 0x2F 18 ++ List.range' 0x5B 37 ++ [0x307, 0x3C2, 0x3C3]

/-- What lower case makes. -/
def settled (runs : List CaseRun) : List Nat :=
  smallBasics ++ runs.flatMap CaseRun.images

/-- No small letter is a capital as well. -/
def Apart (runs : List CaseRun) : Prop :=
  bits (unsettled runs) &&& bits (settled runs) = 0

instance (runs : List CaseRun) : Decidable (Apart runs) :=
  inferInstanceAs (Decidable (_ = 0))

set_option maxRecDepth 100000 in
theorem apart_lowerRuns : Apart lowerRuns := by
  unfold lowerRuns readCaseRuns
  -- the rows are read as lists of characters, so that the kernel meets no text
  repeat rw [List.flatMap_cons, String.toList_ofList]
  decide +kernel

theorem testBit_bits (ns : List Nat) (i : Nat) : (bits ns).testBit i = true ↔ i ∈ ns := by
  induction ns with
  | nil => simp [bits]
  | cons n ns ih =>
    rw [bits, Nat.testBit_or, Nat.one_shiftLeft, Nat.testBit_two_pow, Bool.or_eq_true, ih, List.mem_cons,
      decide_eq_true_iff, eq_comm]

theorem not_mem_unsettled {n : Nat} (h : n ∈ settled lowerRuns) : n ∉ unsettled lowerRuns := by
  intro hn
  have hzero : (bits (unsettled lowerRuns) &&& bits (settled lowerRuns)).testBit n = false := by
    rw [show bits (unsettled lowerRuns) &&& bits (settled lowerRuns) = 0 from apart_lowerRuns]
    exact Nat.zero_testBit n
  rw [Nat.testBit_and, (testBit_bits _ n).mpr hn, (testBit_bits _ n).mpr h] at hzero
  cases hzero

theorem CaseRun.mem_numbers {r : CaseRun} {n : Nat} :
    n ∈ r.numbers ↔ r.first ≤ n ∧ n ≤ r.last ∧ (n - r.first) % r.step = 0 := by
  simp only [CaseRun.numbers, List.mem_filter, List.mem_range'_1, beq_iff_eq]
  omega

theorem toNat_ofNat (n : Nat) : (Char.ofNat n).toNat = n ∨ (Char.ofNat n).toNat = 0 := by
  rw [Char.toNat_ofNat]
  split
  · exact .inl rfl
  · exact .inr rfl

theorem CaseRun.image?_eq (r : CaseRun) (c : Char) : r.image? c =
    if c.toNat ∈ r.numbers then some (Char.ofNat ((c.toNat : Int) + r.shift).toNat) else none := by
  simp only [CaseRun.image?, CaseRun.mem_numbers, Bool.and_eq_true, decide_eq_true_eq, beq_iff_eq,
    and_assoc]

theorem findSome?_image?_eq_none {runs : List CaseRun} {c : Char} :
    runs.findSome? (·.image? c) = none ↔ c.toNat ∉ runs.flatMap CaseRun.numbers := by
  simp [CaseRun.image?_eq, List.mem_flatMap]

/-- A number that is no character becomes zero, so zero counts as an image. -/
theorem mem_images_of_findSome? {runs : List CaseRun} {c d : Char}
    (h : runs.findSome? (·.image? c) = some d) :
    d.toNat = 0 ∨ d.toNat ∈ runs.flatMap CaseRun.images := by
  obtain ⟨r, hr, himage⟩ := List.exists_of_findSome?_eq_some h
  rw [CaseRun.image?_eq] at himage
  split at himage
  · next hc =>
    obtain rfl := Option.some.inj himage
    rcases toNat_ofNat ((c.toNat : Int) + r.shift).toNat with hd | hd
    · rw [hd]
      exact .inr (List.mem_flatMap.mpr ⟨r, hr, List.mem_map_of_mem hc⟩)
    · exact .inl hd
  · cases himage

/-- Below the table, a character that is no capital stays, and every character becomes one that is
none. -/
theorem toLower_of_lt {c : Char} (hc : c.toNat < 0x80) :
    (c.toLower = c ∨ c.toNat ∈ List.range' 0x41 26) ∧ (c = '.' ∨ c.toLower.toNat ∈ smallBasics) := by
  have hall : ∀ n : Fin 0x80,
      ((Char.ofNat n).toLower = Char.ofNat n ∨ (Char.ofNat n).toNat ∈ List.range' 0x41 26) ∧
      (Char.ofNat n = '.' ∨ (Char.ofNat n).toLower.toNat ∈ smallBasics) := by decide
  have h := hall ⟨c.toNat, hc⟩
  rwa [Char.ofNat_toNat] at h

/-- A character that lower case leaves as it is. -/
def Still (c : Char) : Prop :=
  c = '.' ∨ c.toNat ∉ unsettled lowerRuns

theorem mem_unsettled {runs : List CaseRun} {n : Nat} : n ∈ unsettled runs ↔
    n = 0x2E ∨ n = 0x130 ∨ n = 0x3A3 ∨ n ∈ List.range' 0x41 26 ∨
      n ∈ runs.flatMap CaseRun.numbers := by
  simp only [unsettled, List.cons_append, List.mem_cons, List.mem_append]

theorem lowerChar_of_still {c : Char} (h : Still c) : lowerChar c = [c] := by
  rcases h with rfl | h
  · rfl
  · simp only [mem_unsettled, not_or] at h
    obtain ⟨-, h130, -, hcapital, hruns⟩ := h
    unfold lowerChar
    by_cases hc : c.toNat < 0x80
    · rw [if_pos hc, (toLower_of_lt hc).1.resolve_right hcapital]
    · rw [if_neg hc, if_neg h130, findSome?_image?_eq_none.mpr hruns, Option.getD_none]

/-- Lower case makes still characters, and a dot of a dot only. -/
theorem mem_lowerChar {c d : Char} (hsigma : c.toNat ≠ 0x3A3) (h : d ∈ lowerChar c) :
    c = '.' ∧ d = '.' ∨ d.toNat ∉ unsettled lowerRuns := by
  have hbasics : ∀ {n}, n ∈ smallBasics → n ∉ unsettled lowerRuns := fun hn =>
    not_mem_unsettled (List.mem_append_left _ hn)
  unfold lowerChar at h
  by_cases hc : c.toNat < 0x80
  · rw [if_pos hc, List.mem_singleton] at h
    subst h
    rcases (toLower_of_lt hc).2 with rfl | hsmall
    · exact .inl ⟨rfl, rfl⟩
    · exact .inr (hbasics hsmall)
  · right
    rw [if_neg hc] at h
    split at h
    · rcases List.mem_pair.mp h with rfl | rfl <;> exact hbasics (by decide)
    · next h130 =>
      rw [List.mem_singleton] at h
      subst h
      cases himage : lowerRuns.findSome? (·.image? c) with
      | none =>
        -- above the table only its capitals would move
        rw [Option.getD_none, mem_unsettled, List.mem_range'_1]
        rintro (hn | hn | hn | hn | hn)
        · omega
        · exact h130 hn
        · exact hsigma hn
        · omega
        · exact findSome?_image?_eq_none.mp himage hn
      | some d =>
        rw [Option.getD_some]
        rcases mem_images_of_findSome? himage with hd | hd
        · exact hbasics (by rw [hd]; decide)
        · exact not_mem_unsettled (List.mem_append_right _ hd)

theorem Still.toNat_ne_sigma {c : Char} (h : Still c) : c.toNat ≠ 0x3A3 := by
  intro hc
  rcases h with rfl | h
  · cases hc
  · simp [mem_unsettled, hc] at h

theorem lowerAfter_of_still {s : List Char} (h : ∀ c ∈ s, Still c) (before : List Char) :
    lowerAfter before s = s := by
  induction s generalizing before with
  | nil => rfl
  | cons c s ih =>
    have hc := h c List.mem_cons_self
    rw [lowerAfter, if_neg hc.toNat_ne_sigma, lowerChar_of_still hc,
      ih fun d hd => h d (List.mem_cons_of_mem _ hd)]
    rfl

theorem lowerAfter_cons (before : List Char) (c : Char) (s : List Char) : ∃ small,
    lowerAfter before (c :: s) = small ++ lowerAfter (c :: before) s ∧ small ≠ [] ∧
    ∀ d ∈ small, c = '.' ∧ d = '.' ∨ d.toNat ∉ unsettled lowerRuns := by
  refine ⟨_, rfl, ?_⟩
  by_cases hc : c.toNat = 0x3A3
  · rw [if_pos hc]
    refine ⟨List.cons_ne_nil _ _, fun d hd => .inr ?_⟩
    obtain rfl := List.mem_singleton.mp hd
    refine not_mem_unsettled (List.mem_append_left _ ?_)
    split <;> decide
  · rw [if_neg hc]
    refine ⟨?_, fun d hd => mem_lowerChar hc hd⟩
    unfold lowerChar
    split
    · exact List.cons_ne_nil _ _
    · split <;> exact List.cons_ne_nil _ _

theorem still_of_mem_lowerAfter {s : List Char} {before : List Char} {d : Char}
    (h : d ∈ lowerAfter before s) : Still d := by
  induction s generalizing before with
  | nil => cases h
  | cons c s ih =>
    obtain ⟨small, heq, -, hsmall⟩ := lowerAfter_cons before c s
    rw [heq] at h
    rcases List.mem_append.mp h with h | h
    · exact (hsmall d h).imp_left And.right
    · exact ih h

/-- Lower case twice is lower case. -/
theorem lower_lower (s : List Char) : lower (lower s) = lower s :=
  lowerAfter_of_still (fun _ hd => still_of_mem_lowerAfter hd) []

theorem eq_dot_of_lower {s rest : List Char} (h : lower s = '.' :: rest) :
    ∃ rest', s = '.' :: rest' := by
  cases s with
  | nil => cases h
  | cons c s =>
    obtain ⟨small, heq, hne, hsmall⟩ := lowerAfter_cons [] c s
    rw [lower, heq] at h
    obtain ⟨d, small, rfl⟩ := List.exists_cons_of_ne_nil hne
    obtain ⟨rfl, -⟩ := List.cons.inj h
    rcases hsmall _ List.mem_cons_self with ⟨rfl, -⟩ | hdot
    · exact ⟨s, rfl⟩
    · exact absurd (mem_unsettled.mpr (.inl rfl)) hdot

end Marginalia.Text
