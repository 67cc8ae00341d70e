import Marginalia.Highlight.Rules

/-! # From code to tokens

The tokens of a text spell the text: a rule takes a beginning of what is left, and where no rule
matches one character is taken as it is.
-/
namespace Marginalia.Highlight

/-- The stack of modes after a move; the bottom mode stays. -/
def Move.apply : Move → List Mode → List Mode
  | stay, ms => ms
  | push m, ms => m :: ms
  | pop, _ :: m :: ms => m :: ms
  | pop, ms => ms
  | swap m, _ :: n :: ms => m :: n :: ms
  | swap m, ms => m :: ms

def Rule.reach? (r : Rule) (done rest : List Char) : Option Nat :=
  (r.pattern.matchAt? done rest).map fun m => m.text.length

/-- The first rule that matches at a place, and how far it reads. -/
def firstRule? (done rest : List Char) : List Rule → Option (Rule × Nat)
  | [] => none
  | r :: rs =>
    match r.reach? done rest with
    | some n => some (r, n)
    | none => firstRule? done rest rs

/-- A token in front of others, unless it is empty. -/
def consToken (kind : Kind) (text : List Char) (ts : List Token) : List Token :=
  if text.isEmpty then ts else ⟨kind, text⟩ :: ts

/-- Reads tokens; `done` is what was read, last character first. The fuel covers every character
and the moves between two of them. -/
def tokensFrom : Nat → List Mode → List Char → List Char → List Token
  | _, _, _, [] => []
  | 0, _, _, rest => [⟨.unknown, rest⟩]
  | fuel + 1, modes, done, c :: rest =>
    match firstRule? done (c :: rest) (modes.headD .code).rules with
    | some (r, n) =>
      let text := (c :: rest).take n
      consToken r.kind text
        (tokensFrom fuel (r.move.apply modes) (text.reverse ++ done) ((c :: rest).drop n))
    | none =>
      if c = '\n' then ⟨.blank, [c]⟩ :: tokensFrom fuel [.code] (c :: done) rest
      else ⟨.unknown, [c]⟩ :: tokensFrom fuel modes (c :: done) rest

/-- The tokens of script code. -/
def tokens (s : List Char) : List Token :=
  tokensFrom (4 * s.length + 4) [.code] [] s

theorem code_consToken (kind : Kind) (text : List Char) (ts : List Token) :
    code (consToken kind text ts) = text ++ code ts := by
  unfold consToken
  split
  · next h => simp [List.isEmpty_iff.1 h]
  · simp [code]

theorem code_tokensFrom (fuel : Nat) (modes : List Mode) (done rest : List Char) :
    code (tokensFrom fuel modes done rest) = rest := by
  induction fuel generalizing modes done rest with
  | zero => cases rest <;> simp [tokensFrom, code]
  | succ fuel ih =>
    cases rest with
    | nil => simp [tokensFrom, code]
    | cons c rest =>
      rw [tokensFrom]
      split
      · simp only [code_consToken, ih, List.take_append_drop]
      · split
        · simpa [code] using ih [.code] (c :: done) rest
        · simpa [code] using ih modes (c :: done) rest

/-- The tokens of a text spell the text. -/
theorem code_tokens (s : List Char) : code (tokens s) = s :=
  code_tokensFrom _ _ _ _

end Marginalia.Highlight
