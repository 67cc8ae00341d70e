import Mathlib.Algebra.BigOperators.Group.List.Basic
import Marginalia.Proofs.FileTree.Descent
import Marginalia.Proofs.Source.Growth
import Marginalia.Proofs.Source.Refusal

/-! # The walk, turn by turn

One turn visits the first path that waits, however deep it lies, and no record of earlier visits is kept.
The turns come to an end all the same: a path that leads anywhere stays within the reach of the tree, and
opening a directory trades a path for fewer paths than the tree has entries, each one name longer. A
directory that lies below itself has no such walk: it is opened until a path can no longer be looked up.
-/
namespace Marginalia.Source

open Text

/-- How far a walk has come. -/
structure Progress where
  waiting : List Pending
  found : Found

def Progress.start (paths : List (List Char)) : Progress :=
  ⟨paths.map Pending.ofArgument, []⟩

/-- How far a walk has come after a visit: the entries of a directory come before what waits. -/
def Visit.leaves (ps : List Pending) (found : Found) : Visit → Progress
  | .file full name => ⟨ps, addFound full name found⟩
  | .children cs => ⟨cs ++ ps, found⟩
  | .nothing => ⟨ps, found⟩

/-- Visits the first path that waits. A walk with nothing left to visit stays as it is. -/
def turn (t : FileTree) (recursive : Bool) : Progress → Except Failure Progress
  | ⟨[], found⟩ => .ok ⟨[], found⟩
  | ⟨p :: ps, found⟩ => (look t recursive p).map (Visit.leaves ps found)

def turns (t : FileTree) (recursive : Bool) : Nat → Progress → Except Failure Progress
  | 0, w => .ok w
  | k + 1, w => do turns t recursive k (← turn t recursive w)

/-- A bound on the turns that stops lead to. -/
def load (t : FileTree) (stops : List Stop) : Nat :=
  (stops.map fun s => (t.entries.length + 2) ^ (t.reach + 1 - s.names.length)).sum

def turnBound (t : FileTree) (paths : List (List Char)) : Nat :=
  paths.length * (t.entries.length + 2) ^ (t.reach + 1)

variable {t : FileTree} {recursive : Bool} {s : Stop} {stops : List Stop}

section Load

theorem load_cons (t : FileTree) (s : Stop) (stops : List Stop) :
    load t (s :: stops) = load t [s] + load t stops := by
  simp [load]

theorem load_append (t : FileTree) (as bs : List Stop) :
    load t (as ++ bs) = load t as + load t bs := by
  simp [load]

theorem load_pos (t : FileTree) (s : Stop) : 0 < load t [s] := by
  simp [load]

theorem load_arguments (t : FileTree) (paths : List (List Char)) :
    load t (paths.map Stop.ofArgument) = turnBound t paths := by
  rw [load, List.map_map, turnBound, ← smul_eq_mul, ← List.sum_replicate, ← List.map_const']
  rfl

/-- Within reach, the entries of a directory weigh less than the directory. -/
theorem load_children (place : Place) (hs : s.names.length ≤ t.reach) :
    load t ((t.sortedNames place).map s.child) < load t [s] := by
  have hlen : (t.sortedNames place).length ≤ t.entries.length := by
    rw [FileTree.sortedNames, List.length_mergeSort, FileTree.names]
    exact List.length_filterMap_le ..
  have hdepth : t.reach + 1 - s.names.length = t.reach - s.names.length + 1 := by omega
  have hsum : load t ((t.sortedNames place).map s.child) =
      (t.sortedNames place).length * (t.entries.length + 2) ^ (t.reach - s.names.length) := by
    rw [load, List.map_map, ← smul_eq_mul, ← List.sum_replicate, ← List.map_const']
    congr 2
    funext n
    simp [Stop.child]
  rw [hsum, load, List.map_singleton, List.sum_singleton, hdepth, Nat.pow_succ, Nat.mul_comm]
  apply Nat.mul_lt_mul_of_pos_left
  · omega
  · exact Nat.pow_pos (by omega)

end Load

section Turns

theorem look_eq_visit {p : Pending} (h : ∀ place, t.stat (t.absolute p.path) = .ok (place, .dir) →
    p.depth < maxDepth) : look t recursive p = visit t recursive p := by
  unfold visit
  split
  · next cs hlook =>
    obtain ⟨place, hstat, -⟩ := look_children hlook
    rw [if_neg (Nat.not_le.mpr (h place hstat)), hlook]
  · rfl

theorem walkFrom_leaves (p : Pending) (ps : List Pending) (found : Found) :
    walkFrom t recursive (p :: ps) found = (visit t recursive p).bind fun v =>
      walkFrom t recursive (v.leaves ps found).waiting (v.leaves ps found).found := by
  rw [walkFrom_cons]
  cases visit t recursive p with
  | error failure => rfl
  | ok v => cases v <;> rfl

variable (ht : t.WellFormed)
include ht

theorem Stop.length_le_reach (hs : s.Valid) {place : Place} {e : Entry}
    (hstat : t.stat (s.full t) = .ok (place, e)) : s.names.length ≤ t.reach := by
  rw [Stop.full_eq ht hs] at hstat
  have := FileTree.length_le_reach ht (Stop.rooted_full ht hs) hstat
  rw [List.length_append] at this
  omega

theorem look_pending (hs : s.Valid) : look t recursive s.pending = visit t recursive s.pending := by
  apply look_eq_visit
  intro place hstat
  have hfull : t.absolute s.pending.path = s.full t := Stop.absolute_spelled ht hs
  exact Stop.length_lt ht hs (hfull ▸ hstat)

variable (recursive) in
/-- One turn fails as the walk fails, or leaves the walk what it was with less to visit. -/
theorem turn_stops (hs : s.Fit) (hfit : ∀ c ∈ stops, c.Fit) (found : Found) :
    (∃ f, turn t recursive ⟨(s :: stops).map Stop.pending, found⟩ = .error f ∧
      walkFrom t recursive ((s :: stops).map Stop.pending) found = .error f) ∨
    ∃ (stops' : List Stop) (found' : Found), turn t recursive ⟨(s :: stops).map Stop.pending, found⟩ =
        .ok ⟨stops'.map Stop.pending, found'⟩ ∧
      walkFrom t recursive (stops'.map Stop.pending) found' =
        walkFrom t recursive ((s :: stops).map Stop.pending) found ∧
      (∀ c ∈ stops', c.Fit) ∧ load t stops' < load t (s :: stops) := by
  have hless : load t stops < load t (s :: stops) := by
    rw [load_cons]
    exact Nat.lt_add_of_pos_left (load_pos t s)
  rw [List.map_cons, walkFrom_leaves, turn, look_pending ht hs.valid, visit_pending _ ht hs.valid]
  cases hstat : t.stat (s.full t) with
  | error fault => exact Or.inl ⟨_, rfl, rfl⟩
  | ok x =>
    obtain ⟨place, e⟩ := x
    cases e with
    | file content => exact Or.inr ⟨stops, _, rfl, rfl, hfit, hless⟩
    | link target => exact Or.inr ⟨stops, _, rfl, rfl, hfit, hless⟩
    | pipe => exact Or.inr ⟨stops, _, rfl, rfl, hfit, hless⟩
    | dir =>
      by_cases hskip : s.names ≠ [] ∧ recursive = false
      · simp only [if_pos hskip]
        exact Or.inr ⟨stops, _, rfl, rfl, hfit, hless⟩
      · by_cases hlisted : place ∈ t.unlisted
        · simp only [if_neg hskip, if_pos hlisted]
          exact Or.inl ⟨_, rfl, rfl⟩
        · have hmap : ((t.sortedNames place).map s.child ++ stops).map Stop.pending =
              ((t.sortedNames place).map fun n => (s.child n).pending) ++ stops.map Stop.pending := by
            rw [List.map_append, List.map_map]
            rfl
          simp only [if_neg hskip, if_neg hlisted]
          -- the directory gives way to its entries, which weigh less together
          refine Or.inr ⟨(t.sortedNames place).map s.child ++ stops, found, ?_, ?_, ?_, ?_⟩
          · rw [hmap]
            rfl
          · rw [hmap]
            rfl
          · intro c hc
            rcases List.mem_append.mp hc with hc | hc
            · exact fit_children ht hs (ht.lists place) c hc
            · exact hfit c hc
          · have := load_children place (Stop.length_le_reach ht hs.valid hstat)
            rw [load_append, load_cons t s]
            omega

/-- Enough turns bring the walk to its end. -/
theorem turns_eq_walkFrom (hfit : ∀ c ∈ stops, c.Fit) (found : Found) {k : Nat} (hk : load t stops ≤ k) :
    turns t recursive k ⟨stops.map Stop.pending, found⟩ =
      (walkFrom t recursive (stops.map Stop.pending) found).map (Progress.mk []) := by
  -- each turn takes at least one from what the stops weigh
  induction k generalizing stops found with
  | zero =>
    cases stops with
    | nil =>
      rw [List.map_nil, walkFrom_nil]
      rfl
    | cons s stops =>
      rw [load_cons] at hk
      have := load_pos t s
      omega
  | succ k ih =>
    cases stops with
    | nil =>
      exact ih hfit found (Nat.zero_le k)
    | cons s stops =>
      have hs := hfit s List.mem_cons_self
      have hrest : ∀ c ∈ stops, c.Fit := fun c hc => hfit c (List.mem_cons_of_mem _ hc)
      rw [turns]
      rcases turn_stops recursive ht hs hrest found with
        ⟨f, hturn, hwalk⟩ | ⟨stops', found', hturn, hwalk, hfit', hless⟩
      · rw [hturn, hwalk]
        rfl
      · rw [hturn, ← hwalk]
        exact ih hfit' found' (by omega)

/-- What waits after some turns is what stops of the walk wait for, and the walk goes on to the same end. -/
theorem stops_of_turns (hfit : ∀ c ∈ stops, c.Fit) {found : Found} {k : Nat} {w : Progress}
    (h : turns t recursive k ⟨stops.map Stop.pending, found⟩ = .ok w) :
    ∃ stops' : List Stop, w.waiting = stops'.map Stop.pending ∧ (∀ c ∈ stops', c.Fit) ∧
      walkFrom t recursive w.waiting w.found =
        walkFrom t recursive (stops.map Stop.pending) found := by
  induction k generalizing stops found with
  | zero =>
    cases h
    exact ⟨stops, rfl, hfit, rfl⟩
  | succ k ih =>
    cases stops with
    | nil => exact ih hfit h
    | cons s stops =>
      have hs := hfit s List.mem_cons_self
      have hrest : ∀ c ∈ stops, c.Fit := fun c hc => hfit c (List.mem_cons_of_mem _ hc)
      rw [turns] at h
      rcases turn_stops recursive ht hs hrest found with
        ⟨f, hturn, -⟩ | ⟨stops', found', hturn, hwalk, hfit', -⟩
      · rw [hturn] at h
        cases h
      · rw [hturn] at h
        obtain ⟨last, hlast, hfits, hend⟩ := ih hfit' h
        exact ⟨last, hlast, hfits, hend.trans hwalk⟩

end Turns

section Descent

variable {p q : Place} {ns : List Name} {visited : List (List Char × List Char)}

variable (ht : t.WellFormed)
include ht

/-- An entry of a directory is found where its name leads from the directory. -/
theorem Stop.place_of_child (hs : s.Valid) {n : Name} (hn : IsName n) {e e' : Entry} {r : Place}
    (hstat : t.stat (s.full t) = .ok (p, e)) (hleads : t.Leads p [n] q)
    (hchild : t.stat ((s.child n).full t) = .ok (r, e')) : r = q ∧ t.get? q = some e' := by
  have hc : (s.child n).Valid := hs.child hn
  rw [Stop.full_eq ht hs, FileTree.stat_eq_ok_iff, FileTree.locate_text_iff (Stop.rooted_full ht hs)] at hstat
  rw [Stop.full_eq ht hc, FileTree.stat_eq_ok_iff, FileTree.locate_text_iff (Stop.rooted_full ht hc)] at hchild
  have hway := hchild.2.2.leads (Or.inl rfl)
  have hdir := (hstat.2.2.leads (Or.inl rfl)).append hleads
  have hholds := hchild.2.2.holds ht (by simp [FileTree.get?_nil])
  rw [List.append_assoc] at hdir
  obtain rfl := hway.unique hdir
  exact ⟨rfl, hholds⟩

/-- A tour that opens every directory finds whatever the tree descends to. -/
theorem Tour.descends (hs : s.Fit) (h : Tour t true [s] (.ok visited))
    (hstat : t.stat (s.full t) = .ok (p, .dir)) (hd : t.Descends p ns q) :
    ∃ c : Stop, c.Fit ∧ c.names = s.names ++ ns ∧ t.has (c.full t) = true := by
  induction hd generalizing s visited with
  | here p => exact ⟨s, hs, (List.append_nil _).symm, has_iff.mpr ⟨_, hstat⟩⟩
  | @step p q r n ns hn hleads hdir _ ih =>
    obtain ⟨place, e, first, later, hstat', -, -, hcase⟩ := h.cons_ok
    rw [hstat] at hstat'
    cases hstat'
    rcases hcase with ⟨⟨content, hfile⟩, -⟩ | ⟨-, hskip, -⟩ | ⟨-, -, -, ms, hms, hinner⟩
    · cases hfile
    · exact absurd (hskip rfl).2 (by simp)
    · have hmem : s.child n ∈ ms.map s.child := List.mem_map_of_mem ((hms.mem_iff n).mpr hn)
      have hfit := fit_children ht hs hms _ hmem
      obtain ⟨inside, hchild, -⟩ := hinner.of_mem hmem
      obtain ⟨⟨r', e'⟩, hfound⟩ := has_iff.mp (has_of_tour hchild _ List.mem_cons_self)
      obtain ⟨rfl, hentry⟩ :=
        Stop.place_of_child ht hs.valid (ht.isFileName hn).toIsName hstat hleads hfound
      rw [hdir] at hentry
      cases hentry
      obtain ⟨c, hc, hnames, hhas⟩ := ih hfit hchild hfound
      refine ⟨c, hc, ?_, hhas⟩
      rw [hnames, Stop.child, List.append_assoc]
      rfl

/-- No tour gets through a directory that lies below itself. -/
theorem not_tour_of_cycle (hs : s.Fit) (hstat : t.stat (s.full t) = .ok (p, .dir)) (hne : ns ≠ [])
    (hd : t.Descends p ns p) : ¬ Tour t true [s] (.ok visited) := by
  intro h
  -- going round once more than the reach of the tree gives a path that cannot be looked up
  obtain ⟨c, hc, hnames, hhas⟩ := Tour.descends ht hs h hstat (hd.iterate (t.reach + 1))
  obtain ⟨⟨place, e⟩, hfound⟩ := has_iff.mp hhas
  have hreach := Stop.length_le_reach ht hc.valid hfound
  have hpos : 1 ≤ ns.length := List.length_pos_iff.mpr hne
  have hlong : t.reach + 1 ≤ (t.reach + 1) * ns.length := Nat.le_mul_of_pos_right _ hpos
  rw [hnames, List.length_append, List.length_flatten, List.map_replicate, List.sum_replicate,
    smul_eq_mul] at hreach
  omega

omit ht in
/-- Below a stop that is found, every path is a text for the system. -/
theorem Stop.not_holdsNul_of_argument_eq (hs : s.Fit) {x : Place × Entry}
    (hstat : t.stat (s.full t) = .ok x) {c : Stop} (hc : c.Fit) (harg : c.argument = s.argument) :
    ¬ HoldsNul (c.full t) := by
  intro hnul
  rcases hnul.of_below with hnul | ⟨n, hn, hnul⟩
  · apply FileTree.not_holdsNul_of_stat hstat
    rw [harg] at hnul
    exact hnul.below hs.valid
  · exact (hc n hn).no_nul hnul

/-- A walk that comes to a directory below itself fails, in words of its own. -/
theorem walkFrom_of_cycle (hs : s.Fit) (hstat : t.stat (s.full t) = .ok (p, .dir)) (hne : ns ≠ [])
    (hd : t.Descends p ns p) (rest : List Pending) (found : Found) :
    ∃ path, walkFrom t true (s.pending :: rest) found = .error (.noSuchPath path) ∨
      ∃ why, walkFrom t true (s.pending :: rest) found = .error (.failed (.stat path) why) ∨
        walkFrom t true (s.pending :: rest) found = .error (.failed (.list path) why) := by
  have hvalid : ∀ c ∈ [s], c.Valid := by
    intro c hc
    rw [List.mem_singleton.mp hc]
    exact hs.valid
  obtain ⟨out, htour⟩ := exists_tour true ht [s] hvalid
  have hwalk := walkFrom_of_tour ht htour hvalid rest found
  cases out with
  | ok visited => exact absurd htour (not_tour_of_cycle ht hs hstat hne hd)
  | error f =>
    have hwalk : walkFrom t true (s.pending :: rest) found = .error f := hwalk
    have hP : Inherited t true fun c => c.Fit ∧ c.argument = s.argument :=
      fun hc hdir hopen hn => ⟨inherited_fit ht hc.1 hdir hopen hn, hc.2⟩
    have hstops : ∀ c ∈ [s], c.Fit ∧ c.argument = s.argument := by
      intro c hc
      rw [List.mem_singleton.mp hc]
      exact ⟨hs, rfl⟩
    obtain ⟨c, ⟨hc, harg⟩, hend⟩ := htour.fails_at hP hstops rfl
    rw [hwalk]
    refine ⟨c.spelled, ?_⟩
    rcases hend with ⟨fault, hfail, rfl⟩ | ⟨-, rfl⟩
    · have hnul := Stop.not_holdsNul_of_argument_eq hs hstat hc harg
      unfold Stop.failure
      split
      · exact Or.inl rfl
      · exact absurd (FileTree.holdsNul_of_stat hfail) hnul
      · exact Or.inr ⟨_, Or.inl rfl⟩
    · exact Or.inr ⟨_, Or.inr rfl⟩

end Descent

/-- A walk comes to its end within a number of turns that the tree and the arguments tell, links that lead
in circles included. Where it opens every directory and comes to one that lies below itself, it fails: a
path is missing, cannot be looked up or may not be listed. -/
theorem walk_ends (ht : t.WellFormed) (paths : List (List Char)) :
    (∀ k, turnBound t paths ≤ k → turns t recursive k (.start paths) =
      (walk t paths recursive).map (Progress.mk [])) ∧
    (recursive = true → ∀ k p rest found place ns,
      turns t recursive k (.start paths) = .ok ⟨p :: rest, found⟩ →
      t.stat (t.absolute p.path) = .ok (place, .dir) → ns ≠ [] → t.Descends place ns place →
      ∃ path, walk t paths recursive = .error (.noSuchPath path) ∨
        ∃ why, walk t paths recursive = .error (.failed (.stat path) why) ∨
          walk t paths recursive = .error (.failed (.list path) why)) := by
  have hfit := fit_arguments paths
  have hstart : (paths.map Stop.ofArgument).map Stop.pending = paths.map Pending.ofArgument := by
    rw [List.map_map]
    rfl
  constructor
  · intro k hk
    rw [← load_arguments] at hk
    rw [Progress.start, walk, ← hstart]
    exact turns_eq_walkFrom ht hfit [] hk
  · rintro rfl k p rest found place ns hturns hstat hne hd
    rw [Progress.start, ← hstart] at hturns
    -- what waits after some turns is what stops wait for, so the walk meets the circle too
    obtain ⟨stops, hwaiting, hfits, hwalk⟩ := stops_of_turns ht hfit hturns
    cases stops with
    | nil => simp at hwaiting
    | cons s stops =>
      obtain ⟨rfl, rfl⟩ := List.cons.inj hwaiting
      have hs := hfits s List.mem_cons_self
      have hfull : t.absolute s.pending.path = s.full t := Stop.absolute_spelled ht hs.valid
      rw [hfull] at hstat
      have hend := walkFrom_of_cycle ht hs hstat hne hd (stops.map Stop.pending) found
      rw [hstart] at hwalk
      rwa [show walkFrom t true (s.pending :: stops.map Stop.pending) found = walk t paths true from hwalk]
        at hend

/-- A directory with a link in it that leads back to the directory. -/
def circledTree : FileTree where
  cwd := ["d".toList]
  entries := [(["d".toList], .dir), (["d".toList, "a".toList], .dir),
    (["d".toList, "a".toList, "l".toList], .link "../a".toList)]

theorem walk_circledTree :
    circledTree.WellFormed ∧
      (∀ k, turnBound circledTree [".".toList] ≤ k →
        turns circledTree true k (.start [".".toList]) =
          (walk circledTree [".".toList] true).map (Progress.mk [])) ∧
      ∃ path, walk circledTree [".".toList] true = .error (.noSuchPath path) ∨
        ∃ why, walk circledTree [".".toList] true = .error (.failed (.stat path) why) ∨
          walk circledTree [".".toList] true = .error (.failed (.list path) why) := by
  have ht : circledTree.WellFormed := FileTree.wellFormed_of_check (by decide)
  -- the second turn visits the directory that the link inside it leads back to
  have hturns : turns circledTree true 1 (.start [".".toList]) =
      .ok ⟨[⟨"./a".toList, some ".".toList, 1⟩], []⟩ := by cbv
  have hstat : circledTree.stat (circledTree.absolute "./a".toList) =
      .ok (["d".toList, "a".toList], .dir) := by cbv
  have hdir : circledTree.get? ["d".toList, "a".toList] = some .dir := by cbv
  have hback : circledTree.Leads ["d".toList] ["a".toList] ["d".toList, "a".toList] := by
    refine .name (by decide) (by decide) (by decide) ?_ (.here _)
    intro s hs
    rw [List.singleton_append, hdir] at hs
    cases hs
  have hparts : slashParts "../a".toList = [up, "a".toList] := by cbv
  have hleads : circledTree.Leads ["d".toList, "a".toList] ["l".toList] ["d".toList, "a".toList] := by
    refine .link (s := "../a".toList) (by decide) (by decide) (by decide) (by cbv) ?_
    rw [hparts, List.append_nil]
    exact .up hback
  have hd : circledTree.Descends ["d".toList, "a".toList] ["l".toList] ["d".toList, "a".toList] :=
    .step (by decide) hleads hdir (.here _)
  obtain ⟨hends, hcycle⟩ := @walk_ends circledTree true ht [".".toList]
  exact ⟨ht, hends, hcycle rfl 1 _ _ _ _ _ hturns hstat (by simp) hd⟩

end Marginalia.Source
