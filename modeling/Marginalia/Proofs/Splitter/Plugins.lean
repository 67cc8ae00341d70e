import Marginalia.Proofs.Splitter.Lookup

/-! # Plugins that stop the others

The first look-up gives each plugin its turn. If one of them ends the loading, the look-up fails, and the
plugins behind that one never get their turn: later look-ups succeed without them.
-/
namespace Marginalia.Registry

open Text

theorem perform_get_of_waiting {r : Registry} (h : r.waiting = []) (tag : List Char) :
    (r.perform (.get tag)).answer = .ok (.found (r.table.lookup (typeKey tag))) := by
  simp only [perform, lookUp, load_of_waiting h, get?]

/-- A look-up is answered from the registry that loading leaves, unless loading fails. -/
theorem answer_of_isLookup {r : Registry} {c : Call} (hc : c.isLookup = true) :
    (r.perform c).answer = match r.load.failure with
      | some failure => .error failure
      | none => (r.load.registry.perform c).answer := by
  have hload := load_of_waiting (waiting_loadAll (r := { r with waiting := [] }) rfl r.waiting)
  rw [← load] at hload
  cases hfailure : r.load.failure <;> cases c with
  | register tag s => simp [Call.isLookup] at hc
  | get tag => simp only [perform, lookUp, hload, hfailure]
  | types => simp only [perform, lookUp, hload, hfailure]
  | split code tag => simp only [perform, lookUp, hload, hfailure]

/-- The first look-up, whatever it asks for. Either no plugin stops the loading: then the look-up is
answered as by a registry that knows all plugins, and every plugin that loads a splitter for a file type
which was free at its turn is found. Or the look-up fails at the first plugin that stops it: then only the
plugins before that one are found, now and later. -/
theorem first_lookup_loads_or_stops (table : List (List Char × Splitter)) (plugins : List Plugin) {c : Call}
    (hc : c.isLookup = true) :
    (Unstopped table plugins ∧
      (perform ⟨table, plugins⟩ c).answer = ((perform ⟨table, plugins⟩ c).registry.perform c).answer ∧
      ∀ before p after s, plugins = before ++ p :: after → p.loaded = .ok s → s.isCallable = true →
        answers table before (typeKey p.tag) = none →
        ((perform ⟨table, plugins⟩ c).registry.perform (.get p.tag)).answer = .ok (.found (some s))) ∨
    ∃ before p after, plugins = before ++ p :: after ∧ Unstopped table before ∧ Stops table before p ∧
      (perform ⟨table, plugins⟩ c).answer = .error (.splitterType p.tag) ∧
      (perform ⟨table, plugins⟩ c).registry.waiting = [] ∧
      ∀ tag, ((perform ⟨table, plugins⟩ c).registry.perform (.get tag)).answer =
        .ok (.found (answers table before (typeKey tag))) := by
  obtain ⟨hregistry, -, -⟩ := perform_of_isLookup (r := ⟨table, plugins⟩) hc
  -- no plugin waits after the look-up, however it ended
  have hwaiting : (load ⟨table, plugins⟩).registry.waiting = [] := waiting_loadAll rfl plugins
  have hanswer := answer_of_isLookup (r := ⟨table, plugins⟩) hc
  rw [hregistry]
  cases load_ends table plugins with
  | whole clear failure lookup =>
    rw [failure] at hanswer
    refine Or.inl ⟨clear, hanswer, fun before p after s hsplit hload hs hfree => ?_⟩
    have hbrings : Plugin.brings (typeKey p.tag) p = some s := by
      simp [Plugin.brings, hload, Except.toOption]
    rw [answers, Option.or_eq_none_iff] at hfree
    rw [perform_get_of_waiting hwaiting, lookup, answers, hfree.1, hsplit, List.findSome?_append, hfree.2]
    simp [hbrings]
  | stopped split clear stops failure lookup =>
    rw [failure] at hanswer
    refine Or.inr ⟨_, _, _, split, clear, stops, hanswer, hwaiting, fun tag => ?_⟩
    rw [perform_get_of_waiting hwaiting, lookup]

/-- A plugin for one file type, one that cannot be called, and one behind it. -/
def hiddenPlugins : List Plugin :=
  [⟨"vue".toList, .ok .script⟩, ⟨"bad".toList, .ok ⟨"bad", none⟩⟩, ⟨"txt".toList, .ok .markup⟩]

/-- The plugin that cannot be called hides the one behind it, but not the one before it. -/
theorem first_lookup_stops_at_bad :
    (perform ⟨builtin, hiddenPlugins⟩ (.get "txt".toList)).answer = .error (.splitterType "bad".toList) ∧
    ((perform ⟨builtin, hiddenPlugins⟩ (.get "txt".toList)).registry.perform (.get "vue".toList)).answer =
      .ok (.found (some .script)) ∧
    ((perform ⟨builtin, hiddenPlugins⟩ (.get "txt".toList)).registry.perform (.get "txt".toList)).answer =
      .ok (.found none) := by
  have hstops : Stops builtin (hiddenPlugins.take 1) ⟨"bad".toList, .ok ⟨"bad", none⟩⟩ :=
    ⟨⟨_, rfl, by decide⟩, rfl⟩
  rcases first_lookup_loads_or_stops builtin hiddenPlugins (c := .get "txt".toList) rfl with
    ⟨hclear, -⟩ | ⟨before, p, after, hsplit, hclear, hp, hanswer, -, hget⟩
  · exact absurd hstops (hclear _ _ _ rfl)
  · rcases before with _ | ⟨q, _ | ⟨q', before⟩⟩
    · -- the first plugin can be called
      obtain ⟨rfl, -⟩ := List.cons.inj hsplit
      obtain ⟨s, hs, hno⟩ := hp.uncallable
      cases hs
      exact absurd rfl hno
    · cases hsplit
      exact ⟨hanswer, (hget _).trans rfl, (hget _).trans rfl⟩
    · -- the second one stops the loading before the third has its turn
      obtain ⟨rfl, htail⟩ := List.cons.inj hsplit
      obtain ⟨rfl, -⟩ := List.cons.inj htail
      exact absurd hstops (hclear _ _ _ rfl)

end Marginalia.Registry
