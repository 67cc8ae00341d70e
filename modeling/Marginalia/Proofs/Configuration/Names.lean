import Mathlib.Data.Set.List
import Marginalia.Configuration

/-! # Names among options

Options are checked by the names that nobody knows, which are the strangers among them. Options with the
same strangers pass the check alike, and putting an option that is known adds none.
-/
namespace Marginalia.Configuration

open Text

/-- The names among options that nobody knows. -/
def strangers (es : List (Value × Value)) : List Value :=
  (es.map (·.1)).filter fun n => !isKnown n

theorem isKnown_text {s : List Char} : isKnown (.text s) = true ↔ s ∈ defaults.map (·.1.toList) := by
  simp [isKnown, Value.ofString, Value.sameKey]

theorem strangers_put {n : String} (hn : n.toList ∈ defaults.map (·.1.toList)) (v : Value)
    (es : List (Value × Value)) : strangers (Value.put (.ofString n) v es) = strangers es := by
  have hknown : isKnown (.ofString n) = true := isKnown_text.mpr hn
  induction es with
  | nil => simp [strangers, Value.put, hknown]
  | cons e es ih =>
    obtain ⟨k, u⟩ := e
    unfold strangers at ih ⊢
    rw [Value.put]
    split
    · rfl
    · simp only [List.map_cons, List.filter_cons, ih]

theorem checkNames_eq (es : List (Value × Value)) : checkNames es = (do
    let unknown ← textsOf (strangers es)
    if !unknown.isEmpty then throw (.options (.unknown (unknown.mergeSort FileTree.nameLe)))) :=
  rfl

theorem checkNames_congr {es es' : List (Value × Value)} (h : strangers es = strangers es') :
    checkNames es = checkNames es' := by
  rw [checkNames_eq, checkNames_eq, h]

theorem textsOf_map_text (ss : List (List Char)) : textsOf (ss.map .text) = .ok ss := by
  induction ss with
  | nil => rfl
  | cons s ss ih =>
    unfold textsOf at ih ⊢
    rw [List.map_cons, List.mapM_cons, ih]
    rfl

end Marginalia.Configuration
