import Marginalia.Splitter

/-! # How plugins are loaded

Plugins have their turn in order. A plugin that does not load is passed over, and so is one for a file type
that has a splitter. What ends the loading is a plugin that loads a value which cannot be called, for a
file type that is still free.
-/
namespace Marginalia

open Text

/-- The splitter that a plugin brings for a key, if it loads. -/
def Plugin.brings (key : List Char) (p : Plugin) : Option Splitter :=
  if typeKey p.tag = key then p.loaded.toOption else none

namespace Registry

section Table

variable {key : List Char} {r r' : Registry}

theorem lookup_insert (k : List Char) (s : Splitter) (table : List (List Char × Splitter)) :
    (insert k s table).lookup key = if key = k then some s else table.lookup key := by
  induction table with
  | nil => by_cases h : key = k <;> simp [insert, h]
  | cons x table ih =>
    obtain ⟨k', old⟩ := x
    by_cases h : key = k'
    · subst h
      by_cases hk : key = k <;> simp [insert, hk]
    · have hb : (key == k') = false := by simpa using h
      by_cases hk : k' = k
      · subst hk
        simp [insert, List.lookup_cons, hb, h]
      · simp [insert, List.lookup_cons, hb, hk, ih]

theorem register_of_isCallable {s : Splitter} (hs : s.isCallable = true) (tag : List Char) :
    r.register tag s = .ok { r with table := insert (typeKey tag) s r.table } :=
  if_pos hs

theorem register_of_not_isCallable {s : Splitter} (hs : ¬ s.isCallable = true) (tag : List Char) :
    r.register tag s = .error (.splitterType tag) :=
  if_neg hs

theorem waiting_register {tag : List Char} {s : Splitter} (h : r.register tag s = .ok r') :
    r'.waiting = r.waiting := by
  by_cases hs : s.isCallable = true
  · rw [register_of_isCallable hs] at h
    cases h
    rfl
  · rw [register_of_not_isCallable hs] at h
    cases h

theorem waiting_loadAll (hr : r.waiting = []) (ps : List Plugin) :
    (r.loadAll ps).registry.waiting = [] := by
  induction ps generalizing r with
  | nil => exact hr
  | cons p ps ih =>
    rw [loadAll]
    split
    · exact ih hr
    · split
      · exact ih hr
      · split
        · next hreg => exact ih ((waiting_register hreg).trans hr)
        · exact hr

theorem isCallable_of_standard {extension : List Char} {splitter : Splitter}
    (h : standard.load.registry.get? extension = some splitter) : splitter.isCallable = true := by
  have hmem : (typeKey extension, splitter) ∈ builtin := by
    obtain ⟨before, after, hsplit, -⟩ := List.lookup_eq_some_iff.mp h
    have htable : builtin = before ++ (typeKey extension, splitter) :: after := hsplit
    simp [htable]
  simp only [builtin, List.mem_cons, Prod.mk.injEq, List.not_mem_nil, or_false] at hmem
  rcases hmem with ⟨-, rfl⟩ | ⟨-, rfl⟩ | ⟨-, rfl⟩ | ⟨-, rfl⟩ | ⟨-, rfl⟩ <;> rfl

end Table

section Loading

/-- The splitter for a key once plugins had their turn, as long as none of them stops the loading. -/
def answers (table : List (List Char × Splitter)) (plugins : List Plugin) (key : List Char) :
    Option Splitter :=
  (table.lookup key).or (plugins.findSome? (Plugin.brings key))

/-- A plugin that stops the loading when its turn comes after others. -/
structure Stops (table : List (List Char × Splitter)) (before : List Plugin) (p : Plugin) : Prop where
  uncallable : ∃ s, p.loaded = .ok s ∧ ¬ s.isCallable = true
  free : answers table before (typeKey p.tag) = none

/-- No plugin stops the loading. -/
def Unstopped (table : List (List Char × Splitter)) (plugins : List Plugin) : Prop :=
  ∀ before p after, plugins = before ++ p :: after → ¬ Stops table before p

/-- How loading ends. -/
inductive LoadEnds (table : List (List Char × Splitter)) (plugins : List Plugin) (l : Loaded) : Prop where
  | whole (clear : Unstopped table plugins) (failure : l.failure = none)
      (lookup : ∀ key, l.registry.table.lookup key = answers table plugins key)
  | stopped {before after : List Plugin} {p : Plugin} (split : plugins = before ++ p :: after)
      (clear : Unstopped table before) (stops : Stops table before p)
      (failure : l.failure = some (.splitterType p.tag))
      (lookup : ∀ key, l.registry.table.lookup key = answers table before key)

variable {table table' : List (List Char × Splitter)} {plugins : List Plugin} {p : Plugin}

theorem unstopped_nil (table : List (List Char × Splitter)) : Unstopped table [] := by
  intro before p after h
  simp at h

/-- A plugin that was passed over or registered changes only the table that the others find. -/
theorem Unstopped.cons (hstep : ∀ ps key, answers table' ps key = answers table (p :: ps) key)
    (hp : ¬ Stops table [] p) (h : Unstopped table' plugins) : Unstopped table (p :: plugins) := by
  intro before q after hsplit hstops
  cases before with
  | nil =>
    obtain ⟨rfl, -⟩ := List.cons.inj hsplit
    exact hp hstops
  | cons b before =>
    obtain ⟨rfl, htail⟩ := List.cons.inj hsplit
    exact h before q after htail ⟨hstops.uncallable, (hstep _ _).trans hstops.free⟩

theorem LoadEnds.cons {l : Loaded} (hstep : ∀ ps key, answers table' ps key = answers table (p :: ps) key)
    (hp : ¬ Stops table [] p) (h : LoadEnds table' plugins l) : LoadEnds table (p :: plugins) l := by
  cases h with
  | whole clear failure lookup =>
    exact .whole (clear.cons hstep hp) failure fun key => (lookup key).trans (hstep _ _)
  | stopped split clear stops failure lookup =>
    refine .stopped (congrArg (p :: ·) split) (clear.cons hstep hp)
      ⟨stops.uncallable, (hstep _ _).symm.trans stops.free⟩ failure fun key => ?_
    exact (lookup key).trans (hstep _ _)

/-- A plugin that brings nothing new leaves the answers as they are. -/
theorem answers_cons_of_passed
    (h : (table.lookup (typeKey p.tag)).isSome = true ∨ ∃ why, p.loaded = .error why) (ps : List Plugin)
    (key : List Char) : answers table ps key = answers table (p :: ps) key := by
  unfold answers
  by_cases hkey : typeKey p.tag = key
  · subst hkey
    rcases h with htaken | ⟨why, hwhy⟩
    · obtain ⟨s, hs⟩ := Option.isSome_iff_exists.mp htaken
      simp [hs]
    · simp [Plugin.brings, hwhy, Except.toOption]
  · simp [Plugin.brings, hkey]

theorem answers_cons_of_registered {s : Splitter} (hload : p.loaded = .ok s)
    (hfree : table.lookup (typeKey p.tag) = none) (ps : List Plugin) (key : List Char) :
    answers (insert (typeKey p.tag) s table) ps key = answers table (p :: ps) key := by
  unfold answers
  rw [lookup_insert]
  by_cases hkey : typeKey p.tag = key
  · subst hkey
    simp [Plugin.brings, hload, hfree, Except.toOption]
  · simp [Plugin.brings, hkey, Ne.symm hkey]

/-- Loading ends behind the last plugin, or at the first one that stops it. -/
theorem loadAll_ends (r : Registry) (plugins : List Plugin) :
    LoadEnds r.table plugins (r.loadAll plugins) := by
  induction plugins generalizing r with
  | nil => exact .whole (unstopped_nil _) rfl fun key => (Option.or_none).symm
  | cons p ps ih =>
    -- a report changes nothing of how loading ends
    have hreport : ∀ {l : Loaded} {rec : Record}, LoadEnds r.table (p :: ps) l →
        LoadEnds r.table (p :: ps) (l.report rec) := by
      intro l rec h
      cases h with
      | whole clear failure lookup => exact .whole clear failure lookup
      | stopped split clear stops failure lookup => exact .stopped split clear stops failure lookup
    have hnone : answers r.table [] (typeKey p.tag) = r.table.lookup (typeKey p.tag) := Option.or_none
    rw [loadAll]
    split
    · next htaken =>
      refine hreport ((ih r).cons (answers_cons_of_passed (Or.inl htaken)) fun hstops => ?_)
      have hfree := hstops.free
      rw [hnone] at hfree
      simp [hfree] at htaken
    · next hfree =>
      replace hfree := Option.not_isSome_iff_eq_none.mp hfree
      split
      · next why hwhy =>
        refine hreport ((ih r).cons (answers_cons_of_passed (Or.inr ⟨why, hwhy⟩)) fun hstops => ?_)
        obtain ⟨s, hs, -⟩ := hstops.uncallable
        simp [hwhy] at hs
      · next s hload =>
        by_cases hs : s.isCallable = true
        · rw [register_of_isCallable hs]
          refine (ih { r with table := insert (typeKey p.tag) s r.table }).cons
            (answers_cons_of_registered hload hfree) fun hstops => ?_
          obtain ⟨s', hs', hno⟩ := hstops.uncallable
          rw [hload] at hs'
          cases hs'
          exact hno hs
        · rw [register_of_not_isCallable hs]
          exact .stopped rfl (unstopped_nil _) ⟨⟨s, hload, hs⟩, hnone.trans hfree⟩ rfl fun key =>
            (Option.or_none).symm

/-- Loading fills the keys that are free: the first plugin for a key that loads gets it. -/
theorem loadAll_of_isCallable {r : Registry} {ps : List Plugin}
    (hps : ∀ p ∈ ps, ∀ s, p.loaded = .ok s → s.isCallable = true) :
    (r.loadAll ps).failure = none ∧
      ∀ key, (r.loadAll ps).registry.table.lookup key = answers r.table ps key := by
  cases loadAll_ends r ps with
  | whole clear failure lookup => exact ⟨failure, lookup⟩
  | @stopped before after p split clear stops failure lookup =>
    obtain ⟨s, hs, hno⟩ := stops.uncallable
    exact absurd (hps p (by simp [split]) s hs) hno

theorem load_ends (table : List (List Char × Splitter)) (plugins : List Plugin) :
    LoadEnds table plugins (load ⟨table, plugins⟩) :=
  loadAll_ends ⟨table, []⟩ plugins

/-- Once no plugin waits, nothing is loaded. -/
theorem load_of_waiting {r : Registry} (h : r.waiting = []) : r.load = ⟨r, [], none⟩ := by
  obtain ⟨table, waiting⟩ := r
  obtain rfl : waiting = [] := h
  rfl

end Loading

end Registry
end Marginalia
