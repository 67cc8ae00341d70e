import Mathlib
import Marginalia.Proofs.Splitter.Plugins
import Marginalia.Proofs.Text.Case

/-! # Listed file types and look-ups

A registry lists its keys as they are stored, while a look-up first takes the key of what it is asked for.
A listed key is therefore found exactly when its own key is listed too. Keys that were registered are
their own keys, unless the tag started with two dots. Those of the table a registry starts with are
stored as they came.
-/
namespace Marginalia

open Text

/-- A key is its own key, unless the tag still had a dot behind its first one. -/
theorem typeKey_typeKey (tag : List Char) :
    typeKey (typeKey tag) = typeKey tag ∨ ∃ rest, tag = '.' :: '.' :: rest := by
  have hlower : ∀ body, typeKey (lower body) = lower body ∨ ∃ rest, body = '.' :: rest := by
    intro body
    unfold typeKey
    split
    · next rest hdot => exact .inr (eq_dot_of_lower hdot)
    · exact .inl (lower_lower body)
  rw [typeKey.eq_def tag]
  split
  · next body =>
    refine (hlower body).imp_right ?_
    rintro ⟨rest, rfl⟩
    exact ⟨rest, rfl⟩
  · next hdot => exact (hlower tag).imp_right fun ⟨rest, hrest⟩ => absurd hrest (hdot rest)

namespace Registry

variable {table : List (List Char × Splitter)} {plugins : List Plugin} {calls : List Call} {r : Registry}
variable {key : List Char}

/-- Where a key may come from: the table a registry starts with, a call that registers, or a plugin. -/
inductive Origin (table : List (List Char × Splitter)) (plugins : List Plugin) (calls : List Call) :
    List Char → Prop where
  | start {key : List Char} (h : key ∈ table.map (·.1)) : Origin table plugins calls key
  | registered {tag : List Char} {s : Splitter} (h : .register tag s ∈ calls) :
      Origin table plugins calls (typeKey tag)
  | plugin {p : Plugin} (h : p ∈ plugins) : Origin table plugins calls (typeKey p.tag)

/-- What holds of a registry after calls: each key has an origin, and only plugins wait. -/
structure Traced (table : List (List Char × Splitter)) (plugins : List Plugin) (calls : List Call)
    (r : Registry) : Prop where
  origin : ∀ key ∈ r.table.map (·.1), Origin table plugins calls key
  waiting : r.waiting ⊆ plugins

theorem Origin.mono {later : List Call} (h : Origin table plugins calls key) (hsub : calls ⊆ later) :
    Origin table plugins later key := by
  cases h with
  | start h => exact .start h
  | registered h => exact .registered (hsub h)
  | plugin h => exact .plugin h

theorem mem_keys_insert {k : List Char} {s : Splitter} {entries : List (List Char × Splitter)}
    (h : key ∈ (insert k s entries).map (·.1)) : key = k ∨ key ∈ entries.map (·.1) := by
  induction entries with
  | nil => simpa [insert] using h
  | cons x entries ih =>
    obtain ⟨k', old⟩ := x
    rw [insert] at h
    split at h
    · exact .inr h
    · rcases List.mem_cons.mp h with rfl | h
      · exact .inr List.mem_cons_self
      · exact (ih h).imp_right (List.mem_cons_of_mem _)

/-- Registering adds the key of its tag at most. -/
theorem Traced.register {tag : List Char} {s : Splitter} {r' : Registry}
    (h : Traced table plugins calls r) (horigin : Origin table plugins calls (typeKey tag))
    (hreg : r.register tag s = .ok r') : Traced table plugins calls r' := by
  by_cases hs : s.isCallable = true
  · rw [register_of_isCallable hs] at hreg
    cases hreg
    refine ⟨fun key hkey => ?_, h.waiting⟩
    rcases mem_keys_insert hkey with rfl | hkey
    · exact horigin
    · exact h.origin key hkey
  · rw [register_of_not_isCallable hs] at hreg
    cases hreg

theorem Traced.loadAll {ps : List Plugin} (h : Traced table plugins calls r) (hps : ps ⊆ plugins) :
    Traced table plugins calls (r.loadAll ps).registry := by
  induction ps generalizing r with
  | nil => exact h
  | cons p ps ih =>
    obtain ⟨hp, hps⟩ := List.cons_subset.mp hps
    rw [Registry.loadAll]
    split
    · exact ih h hps
    · split
      · exact ih h hps
      · split
        · next hreg => exact ih (h.register (.plugin hp) hreg) hps
        · exact h

theorem Traced.load (h : Traced table plugins calls r) : Traced table plugins calls r.load.registry :=
  Traced.loadAll (r := { r with waiting := [] }) ⟨h.origin, List.nil_subset _⟩ h.waiting

theorem Traced.perform (h : Traced table plugins calls r) (c : Call) :
    Traced table plugins (calls ++ [c]) (r.perform c).registry := by
  have hmono : ∀ {r}, Traced table plugins calls r → Traced table plugins (calls ++ [c]) r := fun h =>
    ⟨fun key hkey => (h.origin key hkey).mono (List.subset_append_left _ _), h.waiting⟩
  cases c with
  | register tag s =>
    have hmem : Call.register tag s ∈ calls ++ [.register tag s] := by simp
    rw [Registry.perform]
    split
    · next hreg => exact (hmono h).register (.registered hmem) hreg
    · exact hmono h
  | get tag => exact hmono h.load
  | types => exact hmono h.load
  | split code tag => exact hmono h.load

theorem Traced.after (h : Traced table plugins calls r) (later : List Call) :
    Traced table plugins (calls ++ later) (r.after later) := by
  induction later generalizing calls r with
  | nil => simpa [Registry.after] using h
  | cons c later ih => simpa [Registry.after] using ih (h.perform c)

theorem isSome_lookup_iff {entries : List (List Char × Splitter)} :
    (entries.lookup key).isSome = true ↔ key ∈ entries.map (·.1) := by
  induction entries with
  | nil => simp
  | cons x entries ih =>
    obtain ⟨k, s⟩ := x
    by_cases h : key = k
    · simp [h]
    · have hb : (key == k) = false := by simpa using h
      rw [List.lookup_cons, hb, List.map_cons, List.mem_cons, or_iff_right h]
      exact ih

theorem mem_types : key ∈ r.types ↔ key ∈ r.table.map (·.1) :=
  List.mem_mergeSort

/-- What is listed is what the table holds once the plugins are loaded. -/
theorem types_of_answer {keys : List (List Char)} (h : (r.perform .types).answer = .ok (.known keys)) :
    keys = r.load.registry.types := by
  simp only [perform, lookUp] at h
  split at h
  · cases h
  · cases h
    rfl

/-- Asking for a listed file type. It is found exactly when its own key is listed too. A listed key that
is not its own key came with the table the registry started with, or from a tag with two dots in front
that was registered or that a plugin has. -/
theorem listed_found_iff_key_listed (table : List (List Char × Splitter)) (plugins : List Plugin)
    (calls : List Call) {keys : List (List Char)}
    (h : ((after ⟨table, plugins⟩ calls).perform .types).answer = .ok (.known keys)) {key : List Char}
    (hkey : key ∈ keys) :
    (∃ found, (((after ⟨table, plugins⟩ calls).perform .types).registry.perform (.get key)).answer =
      .ok (.found found) ∧ (found.isSome = true ↔ typeKey key ∈ keys)) ∧
    (typeKey key = key ∨ key ∈ table.map (·.1) ∨ ∃ rest, key = typeKey ('.' :: '.' :: rest) ∧
      ((∃ s, .register ('.' :: '.' :: rest) s ∈ calls) ∨ ∃ p ∈ plugins, p.tag = '.' :: '.' :: rest)) := by
  obtain rfl := types_of_answer h
  have hstart : Traced table plugins [] ⟨table, plugins⟩ :=
    ⟨fun key hkey => .start hkey, List.Subset.refl _⟩
  constructor
  · refine ⟨_, perform_get_of_waiting (waiting_loadAll rfl _) key, ?_⟩
    rw [mem_types]
    exact isSome_lookup_iff
  · cases (hstart.after calls).load.origin key (mem_types.mp hkey) with
    | start h => exact .inr (.inl h)
    | @registered tag s hcall =>
      rcases typeKey_typeKey tag with hsame | ⟨rest, rfl⟩
      · exact .inl hsame
      · exact .inr (.inr ⟨rest, rfl, .inl ⟨s, hcall⟩⟩)
    | @plugin p hp =>
      rcases typeKey_typeKey p.tag with hsame | ⟨rest, htag⟩
      · exact .inl hsame
      · exact .inr (.inr ⟨rest, by rw [htag], .inr ⟨p, hp, htag⟩⟩)

/-- A registry with a capital key from the start, to which a tag with two dots and one with a dot and
capitals were added. -/
def unkeyed : Registry :=
  after ⟨[("JS".toList, .script)], []⟩
    [.register "..vue".toList .markup, .register ".TXT".toList .script]

/-- Of the three file types that are listed, only the last one is found. -/
theorem listed_found_iff_key_listed_unkeyed :
    (unkeyed.perform .types).answer = .ok (.known [".vue".toList, "JS".toList, "txt".toList]) ∧
    ((unkeyed.perform .types).registry.perform (.get "JS".toList)).answer = .ok (.found none) ∧
    ((unkeyed.perform .types).registry.perform (.get ".vue".toList)).answer = .ok (.found none) ∧
    ∃ s, ((unkeyed.perform .types).registry.perform (.get "txt".toList)).answer = .ok (.found (some s)) := by
  have hkeys : (unkeyed.perform .types).answer =
      .ok (.known [".vue".toList, "JS".toList, "txt".toList]) := by
    cbv
  have hget := fun key (hkey : key ∈ [".vue".toList, "JS".toList, "txt".toList]) =>
    (listed_found_iff_key_listed _ _ _ hkeys hkey).1
  obtain ⟨script, hscript, hfound⟩ := hget "JS".toList (by decide)
  obtain ⟨vue, hvue, hfound'⟩ := hget ".vue".toList (by decide)
  obtain ⟨txt, htxt, hfound''⟩ := hget "txt".toList (by decide)
  obtain rfl : script = none := Option.not_isSome_iff_eq_none.mp (hfound.not.mpr (by decide))
  obtain rfl : vue = none := Option.not_isSome_iff_eq_none.mp (hfound'.not.mpr (by decide))
  obtain ⟨s, rfl⟩ := Option.isSome_iff_exists.mp (hfound''.mpr (by decide))
  exact ⟨hkeys, hscript, hvue, s, htxt⟩

end Registry
end Marginalia
