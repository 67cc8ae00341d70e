import Marginalia.Proofs.Configuration.Names
import Marginalia.Proofs.Configuration.Resolve

/-! # Options that differ in silence

Whether a run is silent is one option among others. Options that differ in nothing else are resolved
alike: to configurations that differ in nothing else, or to the same failure.
-/
namespace Marginalia

open Text

namespace Value

theorem sameKey_text_iff {s : List Char} {k : Value} : sameKey (.text s) k = true ↔ k = .text s := by
  cases k with
  | text s' =>
    simp only [sameKey, decide_eq_true_eq, text.injEq]
    exact eq_comm
  | _ => simp [sameKey, number?]

theorem get?_put_text (n s : List Char) (v : Value) (es : List (Value × Value)) :
    get? (.text n) (put (.text s) v es) = if n = s then some v else get? (.text n) es := by
  have hself : sameKey (.text n) (.text s) = decide (n = s) := by simp [sameKey]
  induction es with
  | nil => simp [put, get?, hself]
  | cons e es ih =>
    obtain ⟨k, u⟩ := e
    rw [put]
    cases hk : sameKey (.text s) k with
    | true =>
      obtain rfl := sameKey_text_iff.mp hk
      by_cases hn : n = s
      · subst hn
        simp [get?, hk]
      · simp [get?, hself, hn]
    | false =>
      by_cases hn : n = s
      · subst hn
        simp [get?, hk, ih]
      · simp [get?, ih, hn]

end Value

namespace Configuration

/-- Options with silence on or off, whatever they said about it. -/
def silenced (silent : Bool) (es : List (Value × Value)) : Value :=
  .map (Value.put (.ofString "silent") (.bool silent) es)

variable {t : FileTree} {home : List Char} {layouts : Layouts}

theorem chosen_silenced (silent : Bool) (es : List (Value × Value)) :
    chosen (Value.put (.ofString "silent") (.bool silent) es) "silent" = .bool silent := by
  rw [chosen, Value.field?, Value.ofString, Value.get?_put_text, if_pos rfl]

theorem chosen_of_ne {name : String} (hname : name.toList ≠ "silent".toList) (v : Value)
    (es : List (Value × Value)) :
    chosen (Value.put (.ofString "silent") v es) name = chosen es name := by
  rw [chosen, Value.field?, Value.ofString, Value.ofString, Value.get?_put_text, if_neg hname]
  rfl

theorem checkNames_silenced (v u : Value) (es : List (Value × Value)) :
    checkNames (Value.put (.ofString "silent") v es) = checkNames (Value.put (.ofString "silent") u es) := by
  have hsilent : "silent".toList ∈ defaults.map (·.1.toList) := by decide
  refine checkNames_congr ?_
  rw [strangers_put hsilent, strangers_put hsilent]

theorem silent_of_resolve {silent : Bool} {es : List (Value × Value)} {c : Configuration}
    (h : resolve t home layouts (silenced silent es) = .ok c) : c.silent = silent := by
  obtain ⟨es', hes, hres⟩ := resolve_eq_ok_iff.mp h
  rw [silenced, entriesOf_map] at hes
  cases hes
  rw [hres.silent, chosen_silenced]
  rfl

/-- Silence is an option that no other one depends on. -/
theorem resolve_silenced (es : List (Value × Value)) :
    resolve t home layouts (silenced true es) =
      (fun c => { c with silent := true }) <$> resolve t home layouts (silenced false es) := by
  have hmap : ∀ silent, (if (silenced silent es).truthy then (silenced silent es).toMap else .ok []) =
      .ok (Value.put (.ofString "silent") (.bool silent) es) := by
    intro silent
    exact entriesOf_map _
  unfold resolve
  simp (disch := decide) only [hmap, pure_bind, chosen_silenced, chosen_of_ne, bind_indexOf, map_bind,
    map_pure, checkNames_silenced (.bool true) (.bool false)]
  rfl

end Configuration
end Marginalia
