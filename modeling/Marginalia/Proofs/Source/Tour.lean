import Mathlib
import Marginalia.Proofs.FileTree.Locate
import Marginalia.Source.Walk

/-! # The tour through arguments

A tour visits arguments in order and, where it opens a directory, the entries of the directory before
what follows. It names each file by the way from its argument. The walk over a stack of waiting paths
finds what the tour finds, and fails as the tour fails.
-/
namespace Marginalia.Source

open Text

/-- A path of a tour: an argument and the names from it down. -/
structure Stop where
  argument : List Char
  names : List Name

namespace Stop

/-- The stop of an argument itself. -/
def ofArgument (argument : List Char) : Stop := ⟨argument, []⟩

/-- The stop of an entry in a directory. -/
def child (s : Stop) (n : Name) : Stop := ⟨s.argument, s.names ++ [n]⟩

/-- The absolute path of a stop. -/
def full (t : FileTree) (s : Stop) : List Char :=
  Path.below (t.absolute s.argument) s.names

/-- The path of a stop as its argument is spelled. -/
def spelled (s : Stop) : List Char :=
  Path.below (Path.normal s.argument) s.names

/-- The name a file is shown under: its base name, or the names from the argument down to it. -/
def shown (t : FileTree) (s : Stop) : List Char :=
  if s.names = [] then Path.baseName (t.absolute s.argument) else join ['/'] s.names

/-- How a tour ends at a stop that cannot be looked up. A path that is no text for the system is the
caller's fault. -/
def failure (s : Stop) : FileFault → Failure
  | .refused .missing _ => .noSuchPath s.spelled
  | .nulInPath => .file .nulInPath
  | fault => .failed (.stat s.spelled) fault.message

/-- A stop is to be opened, but may not be listed. -/
def Shut (t : FileTree) (recursive : Bool) (s : Stop) : Prop :=
  ∃ place, t.stat (s.full t) = .ok (place, .dir) ∧ (s.names = [] ∨ recursive = true) ∧ place ∈ t.unlisted

/-- How a tour ends at such a stop. -/
def denial (t : FileTree) (s : Stop) : Failure :=
  .failed (.list s.spelled) (FileFault.refused .denied (s.full t)).message

end Stop

/-- The files of a tour, with the names they are shown under. -/
inductive Tour (t : FileTree) (recursive : Bool) :
    List Stop → Except Failure (List (List Char × List Char)) → Prop where
  | nil : Tour t recursive [] (.ok [])
  | fails {s : Stop} {rest : List Stop} {fault : FileFault}
      (hstat : t.stat (s.full t) = .error fault) :
      Tour t recursive (s :: rest) (.error (s.failure fault))
  | shut {s : Stop} {rest : List Stop} (hshut : s.Shut t recursive) :
      Tour t recursive (s :: rest) (.error (s.denial t))
  | file {s : Stop} {rest : List Stop} {place : Place} {content : ByteArray}
      {later : Except Failure (List (List Char × List Char))}
      (hstat : t.stat (s.full t) = .ok (place, .file content)) (hrest : Tour t recursive rest later) :
      Tour t recursive (s :: rest) (later.map ((s.full t, s.shown t) :: ·))
  | skip {s : Stop} {rest : List Stop} {place : Place} {e : Entry}
      {later : Except Failure (List (List Char × List Char))}
      (hstat : t.stat (s.full t) = .ok (place, e)) (hfile : ∀ content, e ≠ .file content)
      (hdir : e = .dir → s.names ≠ [] ∧ recursive = false) (hrest : Tour t recursive rest later) :
      Tour t recursive (s :: rest) later
  | enter {s : Stop} {rest : List Stop} {place : Place} {ns : List Name}
      {inner later : Except Failure (List (List Char × List Char))}
      (hstat : t.stat (s.full t) = .ok (place, .dir)) (hopen : s.names = [] ∨ recursive = true)
      (hlisted : place ∉ t.unlisted) (hns : t.Lists place ns)
      (hinner : Tour t recursive (ns.map s.child) inner)
      (hrest : Tour t recursive rest later) :
      Tour t recursive (s :: rest) (do return (← inner) ++ (← later))

/-- Each file once, where it was visited first, under the name of its last visit. -/
def collect (visited : List (List Char × List Char)) : Found :=
  (visited.map (·.1)).eraseDups.map fun path => (path, (visited.reverse.lookup path).getD [])

section Collect

theorem addFound_map (path name : List Char) {keys : List (List Char)} (hkeys : keys.Nodup)
    (f : List Char → List Char) :
    addFound path name (keys.map fun k => (k, f k)) =
      (if path ∈ keys then keys else keys ++ [path]).map fun k =>
        (k, if k = path then name else f k) := by
  induction keys with
  | nil => simp [addFound]
  | cons k keys ih =>
    obtain ⟨hk, hkeys⟩ := List.nodup_cons.mp hkeys
    by_cases hp : k = path
    · subst hp
      have hrest : ∀ j ∈ keys, (if j = k then name else f j) = f j := by
        intro j hj
        have : j ≠ k := fun he => hk (he ▸ hj)
        simp [this]
      simp only [List.map_cons, addFound, ↓reduceIte, List.mem_cons_self]
      congr 1
      exact List.map_congr_left fun j hj => by rw [hrest j hj]
    · have hmem : path ∈ k :: keys ↔ path ∈ keys := by simp [Ne.symm hp]
      simp only [List.map_cons, addFound, hp, ↓reduceIte, ih hkeys, hmem]
      split <;> simp [hp]

theorem eraseDups_concat (ks : List (List Char)) (k : List Char) :
    (ks ++ [k]).eraseDups = if k ∈ ks.eraseDups then ks.eraseDups else ks.eraseDups ++ [k] := by
  rw [List.eraseDups_append]
  by_cases h : k ∈ ks
  · simp [List.removeAll, h]
  · simp [List.removeAll, h, List.eraseDups_cons]

theorem nodup_eraseDups (ks : List (List Char)) : ks.eraseDups.Nodup := by
  induction ks using List.reverseRecOn with
  | nil => simp
  | append_singleton ks k ih =>
    rw [eraseDups_concat]
    split
    · exact ih
    · next hk =>
      rw [← List.concat_eq_append]
      exact ih.concat hk

/-- A visit more: a known file keeps its place and takes the new name. -/
theorem collect_concat (visited : List (List Char × List Char)) (path name : List Char) :
    collect (visited ++ [(path, name)]) = addFound path name (collect visited) := by
  rw [collect, collect, addFound_map _ _ (nodup_eraseDups _), List.map_append, List.map_singleton,
    eraseDups_concat]
  refine List.map_congr_left fun k _ => ?_
  by_cases hk : k = path
  · simp [hk]
  · have hb : (k == path) = false := by simpa using hk
    simp [List.lookup_cons, hk, hb]

theorem foldl_addFound (visited later : List (List Char × List Char)) :
    later.foldl (fun found x => addFound x.1 x.2 found) (collect visited) = collect (visited ++ later) := by
  induction later generalizing visited with
  | nil => simp
  | cons x later ih =>
    rw [List.foldl_cons, ← collect_concat, ih]
    simp

end Collect

section Visit

variable {t : FileTree} {recursive : Bool}

/-- A stop with proper names below its argument. -/
def Stop.Valid (s : Stop) : Prop :=
  ∀ n ∈ s.names, IsName n

theorem Stop.Valid.child {s : Stop} (hs : s.Valid) {n : Name} (hn : IsName n) : (s.child n).Valid := by
  intro m hm
  rcases List.mem_append.mp hm with hm | hm
  · exact hs m hm
  · rwa [List.mem_singleton.mp hm]

/-- The waiting path of a stop. -/
def Stop.pending (s : Stop) : Pending :=
  ⟨s.spelled, if s.names = [] then none else some (Path.normal s.argument), s.names.length⟩

theorem Stop.pending_child (s : Stop) (n : Name) :
    (⟨Path.joined s.pending.path n, some (s.pending.origin.getD s.pending.path), s.pending.depth + 1⟩ :
      Pending) = (s.child n).pending := by
  have hpath : Path.joined s.spelled n = (s.child n).spelled := by
    simp [spelled, child, Path.below]
  have horigin : (if s.names = [] then none else some (Path.normal s.argument)).getD s.spelled =
      Path.normal s.argument := by
    by_cases hs : s.names = []
    · simp [hs, spelled, Path.below]
    · simp [hs]
  simp [pending, hpath, horigin, child]

variable (ht : t.WellFormed)
include ht

theorem Stop.full_eq {s : Stop} (hs : s.Valid) :
    s.full t = Path.text ⟨(Path.seen (FileTree.placeText t.cwd) s.argument).root,
      (Path.seen (FileTree.placeText t.cwd) s.argument).segments ++ s.names⟩ :=
  Path.below_text (Path.rooted_seen ht.isBase_cwd _) hs

theorem Stop.absolute_spelled {s : Stop} (hs : s.Valid) : t.absolute s.spelled = s.full t := by
  rw [Stop.full_eq ht hs, FileTree.absolute, Path.absolute_eq, spelled,
    Path.seen_below ht.isBase_cwd (Path.normal_ne_nil _) hs, Path.seen_normal ht.isBase_cwd]

theorem Stop.rooted_full {s : Stop} (hs : s.Valid) :
    Path.Rooted ⟨(Path.seen (FileTree.placeText t.cwd) s.argument).root,
      (Path.seen (FileTree.placeText t.cwd) s.argument).segments ++ s.names⟩ :=
  (Path.rooted_seen ht.isBase_cwd _).append hs

theorem Stop.displayName_pending {s : Stop} (hs : s.Valid) {place : Place} {content : ByteArray}
    (hstat : t.stat (s.full t) = .ok (place, .file content)) :
    s.pending.displayName t = s.shown t := by
  by_cases hnames : s.names = []
  · have hfull : s.full t = (Path.seen (FileTree.placeText t.cwd) s.argument).text := by
      rw [full, hnames]
      rfl
    have hbase : Path.baseName (Path.normal s.argument) = Path.baseName (t.absolute s.argument) := by
      rcases Path.baseName_normal_or ht.isBase_cwd s.argument with h | h
      · exact h.1
      · -- at the root or around the working directory there are only directories
        have hdir : t.get? (Path.seen (FileTree.placeText t.cwd) s.argument).segments = some .dir := by
          rcases h with h | h
          · rw [h, FileTree.get?_nil]
          · rw [ht.parse_cwd] at h
            exact ht.get?_of_prefix h ht.cwd
        have := FileTree.stat_of_dir ht (Path.rooted_seen ht.isBase_cwd _) hdir (hfull ▸ hstat)
        simp at this
    simp [pending, Pending.displayName, spelled, shown, hnames, Path.below, hbase]
  · simp only [pending, Pending.displayName, shown, hnames, ↓reduceIte, spelled, FileTree.relative]
    rw [Path.relative_below ht.isBase_cwd (Path.normal_ne_nil _) hnames hs,
      Path.text_parse_join hnames hs]

theorem Stop.length_lt {s : Stop} (hs : s.Valid) {place : Place} {e : Entry}
    (hstat : t.stat (s.full t) = .ok (place, e)) : s.names.length < maxDepth := by
  rw [Stop.full_eq ht hs, FileTree.stat_eq_ok_iff] at hstat
  have := FileTree.length_lt_of_locate (Stop.rooted_full ht hs) hstat
  rw [List.length_append] at this
  show _ < 4096
  omega

variable (recursive) in
theorem visit_pending {s : Stop} (hs : s.Valid) :
    visit t recursive s.pending = match t.stat (s.full t) with
      | .error fault => .error (s.failure fault)
      | .ok (_, .file _) => .ok (.file (s.full t) (s.shown t))
      | .ok (place, .dir) =>
        if s.names ≠ [] ∧ recursive = false then .ok .nothing
        else if place ∈ t.unlisted then .error (s.denial t)
        else .ok (.children ((t.sortedNames place).map fun n => (s.child n).pending))
      | .ok _ => .ok .nothing := by
  have hfull : t.absolute s.pending.path = s.full t := Stop.absolute_spelled ht hs
  rw [visit, look, hfull]
  cases hstat : t.stat (s.full t) with
  | error fault =>
    cases fault with
    | refused why path => cases why <;> rfl
    | _ => rfl
  | ok found =>
    obtain ⟨place, e⟩ := found
    cases e with
    | file content => simp only [Stop.displayName_pending ht hs hstat]
    | dir =>
      have hdepth : ¬ maxDepth ≤ s.pending.depth := Nat.not_le.mpr (Stop.length_lt ht hs hstat)
      have horigin : (s.pending.origin.isSome && !recursive) = decide (s.names ≠ [] ∧ recursive = false) := by
        by_cases hnames : s.names = [] <;> simp [Stop.pending, hnames]
      dsimp only
      rw [horigin, FileTree.list_of_stat hstat]
      by_cases hskip : s.names ≠ [] ∧ recursive = false
      · simp [hskip]
      · by_cases hlisted : place ∈ t.unlisted
        · simp only [hskip, hlisted, decide_false, Bool.false_eq_true, ↓reduceIte]
          rfl
        · simp only [hskip, hlisted, hdepth, Stop.pending_child, decide_false, Bool.false_eq_true, ↓reduceIte]
    | link target => rfl
    | pipe => rfl

end Visit

section Inherited

variable {t : FileTree} {recursive : Bool} {P : Stop → Prop}

/-- Induction over a tour that succeeds: all that it is made of succeeds too. -/
@[elab_as_elim]
theorem Tour.ok_induction
    {motive : ∀ (stops : List Stop) (visited : List (List Char × List Char)),
      Tour t recursive stops (.ok visited) → Prop}
    (nil : motive [] [] .nil)
    (file : ∀ {s : Stop} {rest : List Stop} {place : Place} {content : ByteArray}
      {more : List (List Char × List Char)} (hstat : t.stat (s.full t) = .ok (place, .file content))
      (hrest : Tour t recursive rest (.ok more)), motive rest more hrest →
      motive (s :: rest) ((s.full t, s.shown t) :: more) (.file hstat hrest))
    (skip : ∀ {s : Stop} {rest : List Stop} {place : Place} {e : Entry}
      {more : List (List Char × List Char)} (hstat : t.stat (s.full t) = .ok (place, e))
      (hfile : ∀ content, e ≠ .file content) (hdir : e = .dir → s.names ≠ [] ∧ recursive = false)
      (hrest : Tour t recursive rest (.ok more)), motive rest more hrest →
      motive (s :: rest) more (.skip hstat hfile hdir hrest))
    (enter : ∀ {s : Stop} {rest : List Stop} {place : Place} {ns : List Name}
      {first more : List (List Char × List Char)} (hstat : t.stat (s.full t) = .ok (place, .dir))
      (hopen : s.names = [] ∨ recursive = true) (hlisted : place ∉ t.unlisted) (hns : t.Lists place ns)
      (hinner : Tour t recursive (ns.map s.child) (.ok first)) (hrest : Tour t recursive rest (.ok more)),
      motive (ns.map s.child) first hinner → motive rest more hrest →
      motive (s :: rest) (first ++ more) (.enter hstat hopen hlisted hns hinner hrest))
    {stops : List Stop} {visited : List (List Char × List Char)}
    (h : Tour t recursive stops (.ok visited)) : motive stops visited h := by
  suffices hall : ∀ {stops out}, Tour t recursive stops out → ∀ {visited}, out = .ok visited →
      ∀ h : Tour t recursive stops (.ok visited), motive stops visited h from hall h rfl h
  intro stops out h
  induction h with
  | nil =>
    rintro visited hout -
    cases hout
    exact nil
  | fails =>
    rintro visited hout -
    cases hout
  | shut =>
    rintro visited hout -
    cases hout
  | @file s stops place content later hstat hrest ih =>
    rintro visited hout -
    cases later with
    | error failure => cases hout
    | ok more =>
      cases hout
      exact file hstat hrest (ih rfl hrest)
  | skip hstat hfile hdir hrest ih =>
    rintro visited hout -
    cases hout
    exact skip hstat hfile hdir hrest (ih rfl hrest)
  | @enter s stops place ns inner later hstat hopen hlisted hns hinner hrest ihinner ihrest =>
    rintro visited hout -
    cases inner with
    | error failure => cases hout
    | ok first =>
      cases later with
      | error failure => cases hout
      | ok more =>
        cases hout
        exact enter hstat hopen hlisted hns hinner hrest (ihinner rfl hinner) (ihrest rfl hrest)

/-- What the entries of a directory that is opened have from it. -/
def Inherited (t : FileTree) (recursive : Bool) (P : Stop → Prop) : Prop :=
  ∀ {s : Stop} {place : Place} {n : Name}, P s → t.stat (s.full t) = .ok (place, .dir) →
    s.names = [] ∨ recursive = true → (t.get? (place ++ [n])).isSome → P (s.child n)

theorem Inherited.children (hP : Inherited t recursive P) {s : Stop} (hs : P s) {place : Place}
    (hstat : t.stat (s.full t) = .ok (place, .dir)) (hopen : s.names = [] ∨ recursive = true)
    {ns : List Name} (hns : t.Lists place ns) : ∀ c ∈ ns.map s.child, P c := by
  intro c hc
  obtain ⟨n, hn, rfl⟩ := List.mem_map.mp hc
  exact hP hs hstat hopen ((hns.mem_iff n).mp hn)

/-- A tour finds files at stops that have what its own stops have. -/
theorem Tour.found_at (hP : Inherited t recursive P) {stops : List Stop}
    {visited : List (List Char × List Char)} (h : Tour t recursive stops (.ok visited))
    (hstops : ∀ s ∈ stops, P s) :
    ∀ x ∈ visited, ∃ s, P s ∧ x = (s.full t, s.shown t) ∧
      ∃ place content, t.stat (s.full t) = .ok (place, .file content) := by
  induction h using Tour.ok_induction with
  | nil => simp
  | @file s stops place content more hstat _ ih =>
    intro x hx
    rcases List.mem_cons.mp hx with rfl | hx
    · exact ⟨s, hstops s List.mem_cons_self, rfl, place, content, hstat⟩
    · exact ih (fun c hc => hstops c (List.mem_cons_of_mem _ hc)) x hx
  | skip _ _ _ _ ih => exact ih fun c hc => hstops c (List.mem_cons_of_mem _ hc)
  | @enter s stops place ns first more hstat hopen _ hns _ _ ihinner ihrest =>
    intro x hx
    rcases List.mem_append.mp hx with hx | hx
    · exact ihinner (hP.children (hstops s List.mem_cons_self) hstat hopen hns) x hx
    · exact ihrest (fun c hc => hstops c (List.mem_cons_of_mem _ hc)) x hx

/-- A tour that fails does so at a stop that has what its own stops have, and that cannot be looked up or
listed. -/
theorem Tour.fails_at (hP : Inherited t recursive P) {stops : List Stop}
    {out : Except Failure (List (List Char × List Char))} (h : Tour t recursive stops out)
    (hstops : ∀ s ∈ stops, P s) {f : Failure} (hout : out = .error f) :
    ∃ s, P s ∧ ((∃ fault, t.stat (s.full t) = .error fault ∧ f = s.failure fault) ∨
      s.Shut t recursive ∧ f = s.denial t) := by
  induction h with
  | nil => cases hout
  | @fails s stops fault hstat =>
    cases hout
    exact ⟨s, hstops s List.mem_cons_self, Or.inl ⟨fault, hstat, rfl⟩⟩
  | @shut s stops hshut =>
    cases hout
    exact ⟨s, hstops s List.mem_cons_self, Or.inr ⟨hshut, rfl⟩⟩
  | @file s stops place content later hstat _ ih =>
    cases later with
    | ok more => cases hout
    | error failure =>
      cases hout
      exact ih (fun c hc => hstops c (List.mem_cons_of_mem _ hc)) rfl
  | skip _ _ _ _ ih => exact ih (fun c hc => hstops c (List.mem_cons_of_mem _ hc)) hout
  | @enter s stops place ns inner later hstat hopen _ hns _ _ ihinner ihrest =>
    cases inner with
    | error failure =>
      cases hout
      exact ihinner (hP.children (hstops s List.mem_cons_self) hstat hopen hns) rfl
    | ok first =>
      cases later with
      | ok more => cases hout
      | error failure =>
        cases hout
        exact ihrest (fun c hc => hstops c (List.mem_cons_of_mem _ hc)) rfl

theorem inherited_valid (ht : t.WellFormed) : Inherited t recursive Stop.Valid :=
  fun hs _ _ hn => hs.child (ht.isFileName hn).toIsName

end Inherited

section Walk

variable {t : FileTree} {recursive : Bool}

theorem walkFrom_nil (found : Found) : walkFrom t recursive [] found = .ok found := by
  rw [walkFrom]

theorem walkFrom_cons (p : Pending) (ps : List Pending) (found : Found) :
    walkFrom t recursive (p :: ps) found = match visit t recursive p with
      | .error failure => .error failure
      | .ok (.file full name) => walkFrom t recursive ps (addFound full name found)
      | .ok (.children cs) => walkFrom t recursive (cs ++ ps) found
      | .ok .nothing => walkFrom t recursive ps found := by
  rw [walkFrom]
  split <;> simp_all

omit recursive in
theorem not_skipped {s : Stop} {recursive : Bool} (hopen : s.names = [] ∨ recursive = true) :
    ¬ (s.names ≠ [] ∧ recursive = false) := by
  rcases hopen with h | h <;> simp [h]

variable (ht : t.WellFormed)
include ht

theorem valid_children {s : Stop} (hs : s.Valid) {place : Place} {ns : List Name}
    (hns : t.Lists place ns) : ∀ c ∈ ns.map s.child, c.Valid := by
  intro c hc
  obtain ⟨n, hn, rfl⟩ := List.mem_map.mp hc
  exact hs.child (ht.isFileName ((hns.mem_iff n).mp hn)).toIsName

/-- The walk over a stack that starts with the stops of a tour finds what the tour finds and goes on
with the rest of the stack. -/
theorem walkFrom_of_tour {stops : List Stop} {out : Except Failure (List (List Char × List Char))}
    (htour : Tour t recursive stops out) (hvalid : ∀ s ∈ stops, s.Valid) (rest : List Pending)
    (found : Found) :
    walkFrom t recursive (stops.map Stop.pending ++ rest) found = out.bind fun visited =>
      walkFrom t recursive rest (visited.foldl (fun found x => addFound x.1 x.2 found) found) := by
  induction htour generalizing rest found with
  | nil => rfl
  | fails hstat =>
    rw [List.map_cons, List.cons_append, walkFrom_cons, visit_pending _ ht (hvalid _ List.mem_cons_self),
      hstat]
    rfl
  | @shut s stops hshut =>
    obtain ⟨place, hstat, hopen, hlisted⟩ := hshut
    have hopen : ¬ (s.names ≠ [] ∧ recursive = false) := not_skipped hopen
    rw [List.map_cons, List.cons_append, walkFrom_cons, visit_pending _ ht (hvalid _ List.mem_cons_self),
      hstat]
    simp only [hopen, hlisted, ↓reduceIte]
    rfl
  | @file s stops place content later hstat _ ih =>
    have ih := ih (fun c hc => hvalid c (List.mem_cons_of_mem _ hc)) rest
    rw [List.map_cons, List.cons_append, walkFrom_cons, visit_pending _ ht (hvalid _ List.mem_cons_self),
      hstat]
    simp only [ih]
    cases later <;> rfl
  | @skip s stops place e later hstat hfile hdir _ ih =>
    have ih := ih (fun c hc => hvalid c (List.mem_cons_of_mem _ hc)) rest
    rw [List.map_cons, List.cons_append, walkFrom_cons, visit_pending _ ht (hvalid _ List.mem_cons_self),
      hstat]
    cases e with
    | file content => exact absurd rfl (hfile content)
    | dir =>
      simp only [if_pos (hdir rfl)]
      exact ih found
    | link target => exact ih found
    | pipe => exact ih found
  | @enter s stops place ns inner later hstat hopen hlisted hns _ _ ihinner ihrest =>
    have hs := hvalid s List.mem_cons_self
    have hinner := ihinner (valid_children ht hs hns)
    have hrest := ihrest fun c hc => hvalid c (List.mem_cons_of_mem _ hc)
    have hopen : ¬ (s.names ≠ [] ∧ recursive = false) := not_skipped hopen
    -- the walk opens the directory in the order in which the tour does
    have hlist : t.sortedNames place = ns := (ht.lists place).unique hns
    rw [List.map_cons, List.cons_append, walkFrom_cons, visit_pending _ ht hs, hstat]
    have hmap : ns.map (fun n => (s.child n).pending) = (ns.map s.child).map Stop.pending := by
      rw [List.map_map]
      rfl
    simp only [hopen, hlisted, ↓reduceIte, hlist, hmap, hinner]
    cases inner with
    | error failure => rfl
    | ok visited =>
      simp only [hrest, bind, Except.bind]
      cases later with
      | error failure => rfl
      | ok more => simp [pure, Except.pure, List.foldl_append]

variable (recursive) in
/-- There is a tour through any stops. -/
theorem exists_tour (stops : List Stop) (hvalid : ∀ s ∈ stops, s.Valid) :
    ∃ out, Tour t recursive stops out := by
  -- what the stops lead to, by weight, is less for the stops below a directory and for the rest
  induction hw : weight t (stops.map Stop.pending) using Nat.strongRecOn generalizing stops with
  | ind w ih =>
    subst hw
    cases stops with
    | nil => exact ⟨_, .nil⟩
    | cons s stops =>
      have hs := hvalid s List.mem_cons_self
      have hvisit := visit_pending recursive ht hs
      have hweight : weight t ((s :: stops).map Stop.pending) =
          s.pending.weight t + weight t (stops.map Stop.pending) := rfl
      have hpos := s.pending.weight_pos t
      obtain ⟨later, hlater⟩ := ih _ (by omega) stops (fun c hc => hvalid c (List.mem_cons_of_mem _ hc)) rfl
      cases hstat : t.stat (s.full t) with
      | error fault => exact ⟨_, .fails hstat⟩
      | ok found =>
        obtain ⟨place, e⟩ := found
        cases e with
        | file content => exact ⟨_, .file hstat hlater⟩
        | link target => exact ⟨_, .skip hstat (by simp) (by simp) hlater⟩
        | pipe => exact ⟨_, .skip hstat (by simp) (by simp) hlater⟩
        | dir =>
          by_cases hskip : s.names ≠ [] ∧ recursive = false
          · exact ⟨_, .skip hstat (by simp) (fun _ => hskip) hlater⟩
          · have hopen : s.names = [] ∨ recursive = true := by
              rwa [not_and_or, not_not, Bool.not_eq_false] at hskip
            by_cases hlisted : place ∈ t.unlisted
            · exact ⟨_, .shut ⟨place, hstat, hopen, hlisted⟩⟩
            simp only [hstat, hskip, hlisted, ↓reduceIte] at hvisit
            have hmap : (t.sortedNames place).map (fun n => (s.child n).pending) =
                ((t.sortedNames place).map s.child).map Stop.pending := by
              rw [List.map_map]
              rfl
            have hless := weight_children hvisit
            rw [hmap] at hless
            have hns := ht.lists place
            obtain ⟨inner, hinner⟩ := ih _ (by omega) _ (valid_children ht hs hns) rfl
            exact ⟨_, .enter hstat hopen hlisted hns hinner hlater⟩

omit ht in
theorem valid_arguments (paths : List (List Char)) : ∀ s ∈ paths.map Stop.ofArgument, s.Valid := by
  intro s hs
  obtain ⟨path, _, rfl⟩ := List.mem_map.mp hs
  exact fun n hn => by simp [Stop.ofArgument] at hn

/-- The walk finds the files of a tour, each once, or fails as the tour fails. -/
theorem walk_of_tour {paths : List (List Char)} {out : Except Failure (List (List Char × List Char))}
    (htour : Tour t recursive (paths.map Stop.ofArgument) out) :
    walk t paths recursive = out.map collect := by
  have h := walkFrom_of_tour ht htour (valid_arguments paths) [] []
  rw [List.append_nil, List.map_map] at h
  refine Eq.trans h ?_
  cases out with
  | error failure => rfl
  | ok visited =>
    simp only [Except.bind, walkFrom_nil, Except.map]
    exact congrArg _ (foldl_addFound [] visited)

theorem exists_tour_of_walk {paths : List (List Char)} {found : Found}
    (h : walk t paths recursive = .ok found) :
    ∃ visited, Tour t recursive (paths.map Stop.ofArgument) (.ok visited) ∧ found = collect visited := by
  obtain ⟨out, htour⟩ := exists_tour recursive ht _ (valid_arguments paths)
  rw [walk_of_tour ht htour] at h
  cases out with
  | error failure => simp [Except.map] at h
  | ok visited =>
    cases h
    exact ⟨visited, htour, rfl⟩

/-- The walk over a stack of waiting paths is the tour that visits the arguments in order, and each
directory it opens before what follows. -/
theorem walk_eq_iff_tour (paths : List (List Char)) (result : Except Failure Found) :
    walk t paths recursive = result ↔
      ∃ out, Tour t recursive (paths.map Stop.ofArgument) out ∧ result = out.map collect := by
  constructor
  · rintro rfl
    obtain ⟨out, htour⟩ := exists_tour recursive ht _ (valid_arguments paths)
    exact ⟨out, htour, walk_of_tour ht htour⟩
  · rintro ⟨out, htour, rfl⟩
    exact walk_of_tour ht htour

end Walk

/-- A directory with a file, a directory and a link to that, seen from inside. -/
def linkedTree : FileTree where
  cwd := ["d".toList]
  entries := [(["d".toList], .dir), (["d".toList, "b.js".toList], .file .empty),
    (["d".toList, "a".toList], .dir), (["d".toList, "a".toList, "x.md".toList], .file .empty),
    (["d".toList, "l".toList], .link "a".toList)]

theorem walk_linkedTree :
    linkedTree.WellFormed ∧
      walk linkedTree ["../d//.".toList, "b.js".toList] true =
        .ok [("/d/a/x.md".toList, "a/x.md".toList), ("/d/b.js".toList, "b.js".toList),
          ("/d/l/x.md".toList, "l/x.md".toList)] := by
  have ht : linkedTree.WellFormed := FileTree.wellFormed_of_check (by decide)
  have hd : linkedTree.Lists ["d".toList] ["a".toList, "b.js".toList, "l".toList] := ht.lists_of (by cbv)
  have ha : linkedTree.Lists ["d".toList, "a".toList] ["x.md".toList] := ht.lists_of (by cbv)
  have hroot : linkedTree.stat "/d".toList = .ok (["d".toList], .dir) := by cbv
  have hb : linkedTree.stat "/d/b.js".toList = .ok (["d".toList, "b.js".toList], .file .empty) := by
    cbv
  have hdir : linkedTree.stat "/d/a".toList = .ok (["d".toList, "a".toList], .dir) := by cbv
  have hx : linkedTree.stat "/d/a/x.md".toList =
      .ok (["d".toList, "a".toList, "x.md".toList], .file .empty) := by cbv
  have hlink : linkedTree.stat "/d/l".toList = .ok (["d".toList, "a".toList], .dir) := by cbv
  have hlx : linkedTree.stat "/d/l/x.md".toList =
      .ok (["d".toList, "a".toList, "x.md".toList], .file .empty) := by cbv
  -- the file that is an argument too is visited before, inside the directory
  exact ⟨ht, (walk_eq_iff_tour ht _ _).mpr ⟨_,
    .enter hroot (Or.inl rfl) (by decide) hd
      (.enter hdir (Or.inr rfl) (by decide) ha (.file hx .nil)
        (.file hb (.enter hlink (Or.inr rfl) (by decide) ha (.file hlx .nil) .nil)))
      (.file hb .nil), rfl⟩⟩

/-- A file, and a directory with another one that may not be listed. -/
def shutTree : FileTree where
  cwd := []
  entries := [(["a.md".toList], .file .empty), (["d".toList], .dir),
    (["d".toList, "b.md".toList], .file .empty)]
  unlisted := [["d".toList]]

/-- A walk fails at a directory that may not be listed, though all there is can be looked up. And it finds
a file by an argument that cannot be looked up as it is spelled, for a step up takes back the name before
it, whether there is such a directory or not. -/
theorem walk_shutTree :
    shutTree.WellFormed ∧ shutTree.has "/d".toList = true ∧ shutTree.has "/d/b.md".toList = true ∧
      walk shutTree ["d".toList] false =
        .error (.failed (.list "d".toList) "[Errno 13] Permission denied: '/d'".toList) ∧
      shutTree.stat "missing/../a.md".toList = .error (.refused .missing "missing/../a.md".toList) ∧
      walk shutTree ["missing/../a.md".toList] false = .ok [("/a.md".toList, "a.md".toList)] := by
  have ht : shutTree.WellFormed := FileTree.wellFormed_of_check (by decide)
  have hdir : shutTree.stat "/d".toList = .ok (["d".toList], .dir) := by cbv
  have hfile : shutTree.stat "/a.md".toList = .ok (["a.md".toList], .file .empty) := by cbv
  refine ⟨ht, by cbv, by cbv, ?_, by cbv, ?_⟩
  · have htour : Tour shutTree false (["d".toList].map Stop.ofArgument) _ :=
      .shut ⟨_, hdir, Or.inl rfl, by decide⟩
    exact walk_of_tour ht htour
  · have htour : Tour shutTree false (["missing/../a.md".toList].map Stop.ofArgument) _ :=
      .file hfile .nil
    exact walk_of_tour ht htour

end Marginalia.Source
