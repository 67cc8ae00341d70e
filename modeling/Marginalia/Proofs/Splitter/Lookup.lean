import Marginalia.Proofs.Splitter.Loading

/-! # Who answers for a file type

Calls on a registry register splitters or look something up, and the first look-up loads the plugins.
Whatever the order of the calls, a file type is answered by the splitter that was registered for it last,
else by the one it had from the start, else by the first plugin for it that loads.
-/
namespace Marginalia

open Text

namespace Registry

section Calls

/-- What is asked of a registry. -/
inductive Call where
  | register (tag : List Char) (s : Splitter)
  | get (tag : List Char)
  | types
  | split (code tag : List Char)

/-- What a call is told. -/
inductive Answer where
  | registered
  | found (s : Option Splitter)
  | known (keys : List (List Char))
  | cut (sections : List Section)

/-- What a call brings: its answer, the registry it leaves, and the plugins whose turn came in it. -/
structure Reply where
  answer : Except Failure Answer
  registry : Registry
  tried : List Plugin

/-- Looks something up, once the plugins are loaded. -/
def lookUp (r : Registry) (look : Registry → Except Failure Answer) : Reply :=
  let loaded := r.load
  let answer := match loaded.failure with
    | some failure => .error failure
    | none => look loaded.registry
  ⟨answer, loaded.registry, r.waiting⟩

/-- Performs a call. A splitter that is refused leaves the registry as it was. -/
def perform (r : Registry) : Call → Reply
  | .register tag s =>
    match r.register tag s with
    | .ok r' => ⟨.ok .registered, r', []⟩
    | .error failure => ⟨.error failure, r, []⟩
  | .get tag => r.lookUp fun r => .ok (.found (r.get? tag))
  | .types => r.lookUp fun r => .ok (.known r.types)
  | .split code tag => r.lookUp fun r => (r.split code tag).map .cut

/-- The registry after calls. -/
def after (r : Registry) : List Call → Registry
  | [] => r
  | c :: cs => (r.perform c).registry.after cs

/-- The plugins whose turn came in calls. -/
def tried (r : Registry) : List Call → List Plugin
  | [] => []
  | c :: cs => (r.perform c).tried ++ (r.perform c).registry.tried cs

/-- Whether a call looks something up. -/
def Call.isLookup : Call → Bool
  | .register .. => false
  | _ => true

/-- The splitter that a call registers under a key. -/
def Call.registers (key : List Char) : Call → Option Splitter
  | .register tag s => if typeKey tag = key ∧ s.isCallable = true then some s else none
  | _ => none

/-- The splitter for a key: the one registered last, else the one of the table, else that of the first
plugin that brings one. -/
def precedence (table : List (List Char × Splitter)) (plugins : List Plugin) (calls : List Call)
    (key : List Char) : Option Splitter :=
  (calls.filterMap (Call.registers key)).getLast?.or
    ((table.lookup key).or (plugins.findSome? (Plugin.brings key)))

/-- What holds of a registry after calls: the plugins all wait until something is looked up, and none
waits afterwards. -/
structure Reached (table : List (List Char × Splitter)) (plugins : List Plugin) (calls : List Call)
    (r : Registry) : Prop where
  waiting : r.waiting = if calls.any Call.isLookup then [] else plugins
  lookup : ∀ key, r.table.lookup key =
    if calls.any Call.isLookup then precedence table plugins calls key else precedence table [] calls key

variable {table : List (List Char × Splitter)} {plugins : List Plugin} {calls : List Call} {r : Registry}

theorem precedence_concat (c : Call) (key : List Char) : precedence table plugins (calls ++ [c]) key =
    (c.registers key).or (precedence table plugins calls key) := by
  unfold precedence
  rw [List.filterMap_append]
  cases h : c.registers key with
  | none => simp [h]
  | some s => simp [h]

theorem perform_of_isLookup {c : Call} (hc : c.isLookup = true) :
    (r.perform c).registry = r.load.registry ∧ (r.perform c).tried = r.waiting ∧
      ∀ key, c.registers key = none := by
  cases c with
  | register tag s => simp [Call.isLookup] at hc
  | get tag => exact ⟨rfl, rfl, fun _ => rfl⟩
  | types => exact ⟨rfl, rfl, fun _ => rfl⟩
  | split code tag => exact ⟨rfl, rfl, fun _ => rfl⟩

/-- A splitter is registered under its key, whether plugins wait or not. -/
theorem perform_register (tag : List Char) (s : Splitter) :
    (r.perform (.register tag s)).registry.waiting = r.waiting ∧
      (r.perform (.register tag s)).tried = [] ∧
      ∀ key, (r.perform (.register tag s)).registry.table.lookup key =
        ((Call.register tag s).registers key).or (r.table.lookup key) := by
  by_cases hs : s.isCallable = true
  · simp only [perform, register_of_isCallable hs, Call.registers, hs, and_true, true_and, lookup_insert]
    intro key
    by_cases h : typeKey tag = key
    · simp [h]
    · simp [h, Ne.symm h]
  · simp [perform, register_of_not_isCallable hs, Call.registers, hs]

variable (hplugins : ∀ p ∈ plugins, ∀ s, p.loaded = .ok s → s.isCallable = true)
include hplugins

/-- Once plugins are loaded, a registry answers by precedence. -/
theorem Reached.load (h : Reached table plugins calls r) : r.load.failure = none ∧
    r.load.registry.waiting = [] ∧
    ∀ key, r.load.registry.table.lookup key = precedence table plugins calls key := by
  have hwaiting : ∀ p ∈ r.waiting, ∀ s, p.loaded = .ok s → s.isCallable = true := by
    intro p hp
    rw [h.waiting] at hp
    split at hp
    · simp at hp
    · exact hplugins p hp
  obtain ⟨hfailure, hlookup⟩ := loadAll_of_isCallable (r := { r with waiting := [] }) hwaiting
  refine ⟨hfailure, waiting_loadAll rfl _, fun key => (hlookup key).trans ?_⟩
  rw [answers, h.lookup, h.waiting]
  split
  · simp
  · simp [precedence, Option.or_assoc]

theorem Reached.perform (h : Reached table plugins calls r) (c : Call) :
    Reached table plugins (calls ++ [c]) (r.perform c).registry := by
  cases hc : c.isLookup with
  | true =>
    obtain ⟨hregistry, -, hnone⟩ := perform_of_isLookup (r := r) hc
    obtain ⟨-, hwaiting, hlookup⟩ := h.load hplugins
    refine ⟨by simp [hregistry, hwaiting, hc], fun key => ?_⟩
    rw [hregistry, hlookup, precedence_concat, hnone]
    simp [hc]
  | false =>
    cases c with
    | register tag s =>
      obtain ⟨hwaiting, -, hlookup⟩ := perform_register (r := r) tag s
      refine ⟨by simp [hwaiting, h.waiting, hc], fun key => ?_⟩
      rw [hlookup, h.lookup, precedence_concat, precedence_concat]
      simp only [List.any_append, List.any_cons, hc, List.any_nil, Bool.or_false]
      split <;> rfl
    | _ => simp [Call.isLookup] at hc

/-- What holds after calls holds after more of them, and the turn of the plugins comes in the first
look-up only. -/
theorem Reached.after (h : Reached table plugins calls r) (later : List Call) :
    Reached table plugins (calls ++ later) (r.after later) ∧
      r.tried later = if later.any Call.isLookup then r.waiting else [] := by
  induction later generalizing calls r with
  | nil => exact ⟨by simpa [Registry.after] using h, rfl⟩
  | cons c later ih =>
    obtain ⟨hreached, htried⟩ := ih (h.perform hplugins c)
    refine ⟨by simpa [Registry.after] using hreached, ?_⟩
    rw [tried, htried]
    cases hc : c.isLookup with
    | true =>
      obtain ⟨hregistry, hturn, -⟩ := perform_of_isLookup (r := r) hc
      rw [hturn, hregistry, (h.load hplugins).2.1]
      simp [hc]
    | false =>
      cases c with
      | register tag s =>
        obtain ⟨hwaiting, hturn, -⟩ := perform_register (r := r) tag s
        rw [hturn, hwaiting]
        simp [hc]
      | _ => simp [Call.isLookup] at hc

/-- Look-ups answer by precedence. Whatever was called before, a file type is answered by the splitter
that was registered for it last, else by the one of the table it started with, else by the first plugin
for it that loads. Where look-ups stand among the registrations makes no difference, and over all calls
the turn of each plugin comes at most once. -/
theorem get_answers_by_precedence (table : List (List Char × Splitter)) (calls : List Call)
    (tag : List Char) :
    ((after ⟨table, plugins⟩ calls).perform (.get tag)).answer =
      .ok (.found (precedence table plugins calls (typeKey tag))) ∧
    (∀ calls', calls'.filterMap (Call.registers (typeKey tag)) =
        calls.filterMap (Call.registers (typeKey tag)) →
      ((after ⟨table, plugins⟩ calls').perform (.get tag)).answer =
        ((after ⟨table, plugins⟩ calls).perform (.get tag)).answer) ∧
    tried ⟨table, plugins⟩ calls = if calls.any Call.isLookup then plugins else [] := by
  have hstart : Reached table plugins [] ⟨table, plugins⟩ := ⟨rfl, fun key => by simp [precedence]⟩
  have hget : ∀ calls, ((after ⟨table, plugins⟩ calls).perform (.get tag)).answer =
      .ok (.found (precedence table plugins calls (typeKey tag))) := by
    intro calls
    obtain ⟨hfailure, -, hlookup⟩ := (hstart.after hplugins calls).1.load hplugins
    simp only [Registry.perform, lookUp, hfailure, get?, hlookup, List.nil_append]
  refine ⟨hget calls, fun calls' hsame => ?_, (hstart.after hplugins calls).2⟩
  rw [hget, hget, precedence, precedence, hsame]

end Calls

section Sample

/-- Plugins of which the first one finds its key taken, the second one does not load, and two more are for
one file type. -/
def samplePlugins : List Plugin :=
  [⟨".JS".toList, .ok .markup⟩, ⟨"vue".toList, .error "broken".toList⟩, ⟨".VUE".toList, .ok .script⟩,
   ⟨"Vue".toList, .ok .markup⟩]

/-- Registrations before and after the first look-up. -/
def sampleCalls : List Call :=
  [.register "TXT".toList .markup, .get "txt".toList, .register ".txt".toList .script, .types]

theorem get_answers_by_precedence_sample :
    (∀ p ∈ samplePlugins, ∀ s, p.loaded = .ok s → s.isCallable = true) ∧
    ((after ⟨builtin, samplePlugins⟩ sampleCalls).perform (.get ".js".toList)).answer =
      .ok (.found (some .script)) ∧
    ((after ⟨builtin, samplePlugins⟩ sampleCalls).perform (.get ".Vue".toList)).answer =
      .ok (.found (some .script)) ∧
    ((after ⟨builtin, samplePlugins⟩ sampleCalls).perform (.get "txt".toList)).answer =
      .ok (.found (some .script)) ∧
    tried ⟨builtin, samplePlugins⟩ sampleCalls = samplePlugins := by
  have hplugins : ∀ p ∈ samplePlugins, ∀ s, p.loaded = .ok s → s.isCallable = true := by
    simp [samplePlugins, Splitter.isCallable, Splitter.script, Splitter.markup]
  have hget := fun tag => get_answers_by_precedence hplugins builtin sampleCalls tag
  refine ⟨hplugins, (hget _).1.trans ?_, (hget _).1.trans ?_, (hget _).1.trans ?_, (hget []).2.2⟩
  · rfl
  · rfl
  · rfl

end Sample

end Registry
end Marginalia
