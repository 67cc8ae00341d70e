import Mathlib.Data.List.Basic
import Marginalia.Proofs.FileTree.Growth

/-! # Changes made again

Changes lead from a tree `w` to a tree `v`. Made again from `v`, they find every directory and every
file there already, and write what they wrote. The two passes are compared step by step: at each place
the second pass holds what the first one holds, or neither has come to it yet. What both passes read
must be as in `w` when the first one is over, and no file may have become one that may not be written.
-/
namespace Marginalia.FileTree

open Text

/-- A step of the first pass, at `t`, beside the same step of the second pass, at `u`. -/
structure Replay (w v t u : FileTree) : Prop where
  before : w.WellFormed
  after : v.WellFormed
  early : Grows w t
  late : Grows t v
  ahead : Grows v u
  back : Grows u v
  first : t.WellFormed
  second : u.WellFormed
  same : ∀ q, u.get? q = t.get? q ∨ t.get? q = w.get? q ∧ u.get? q = v.get? q
  locked : v.locked = w.locked

namespace Replay

variable {w v t t' u : FileTree} {path source target : List Char} {p q : Place} {n : Name} {e : Entry}
  {c : ByteArray} {P : Path}

theorem start (hw : w.WellFormed) (hv : v.WellFormed) (h : Grows w v) (hlocked : v.locked = w.locked) :
    Replay w v w v :=
  ⟨hw, hv, Grows.refl w, h, Grows.refl v, Grows.refl v, hw, hv, fun _ => Or.inr ⟨rfl, rfl⟩, hlocked⟩

/-- No step of either pass keeps the user from writing a file. -/
theorem locked_eq (h : Replay w v t u) : t.locked = w.locked ∧ u.locked = w.locked := by
  have hfirst := h.early.locked.length_le
  have hlast := h.late.locked.length_le
  rw [h.locked] at hlast
  refine ⟨(h.early.locked.eq_of_length (by omega)).symm, ?_⟩
  rw [← h.locked]
  exact h.back.locked.eq_of_length (Nat.le_antisymm h.back.locked.length_le h.ahead.locked.length_le)

theorem get?_eq_of_end (h : Replay w v v u) (q : Place) : u.get? q = v.get? q := by
  rcases h.same q with hq | ⟨-, hq⟩
  · exact hq
  · exact hq

section Reads

variable (h : Replay w v t u)
include h

/-- Both passes agree where the trees before and after the first one do. -/
theorem agrees (hs : Agrees w v path) : Agrees t u path := by
  have hsame : ∀ {q e f}, w.get? q = v.get? q → t.get? q = some e → u.get? q = some f → e = f := by
    intro q e f hq he hf
    rcases h.same q with hu | ⟨ht, hu⟩
    · exact Option.some.inj (he.symm.trans (hu.symm.trans hf))
    · exact Option.some.inj (he.symm.trans (ht.trans (hq.trans (hu.symm.trans hf))))
  have hplace : ∀ {q e}, v.stat path = .ok (q, e) → w.get? q = v.get? q := by
    intro q e he
    rw [get?_of_stat h.after he, get?_of_stat h.before ((hs _).mpr he)]
  rintro ⟨q, e⟩
  constructor
  · intro ht
    obtain ⟨f, hf, -⟩ := stat_of_grows h.first h.late ht
    obtain ⟨f', hf', -⟩ := stat_of_grows h.after h.ahead hf
    rw [hf', hsame (hplace hf) (get?_of_stat h.first ht) (get?_of_stat h.second hf')]
  · intro hu
    obtain ⟨f, hf, -⟩ := stat_of_grows h.second h.back hu
    obtain ⟨f', hf', -⟩ := stat_of_grows h.before h.early ((hs _).mpr hf)
    rw [hf', hsame (hplace hf) (get?_of_stat h.first hf') (get?_of_stat h.second hu)]

theorem stat_eq (hs : Agrees w v path) {x : Place × Entry} (ht : t.stat path = .ok x) :
    u.stat path = t.stat path := by
  rw [ht, (h.agrees hs x).mp ht]

theorem isDir_eq (hs : Agrees w v path) : u.isDir path = t.isDir path := by
  cases ht : t.stat path with
  | ok x =>
    have hu := h.stat_eq hs ht
    simp only [isDir, hu]
  | error fault =>
    cases hu : u.stat path with
    | ok x =>
      rw [(h.agrees hs x).mpr hu] at ht
      simp at ht
    | error fault' => simp only [isDir, ht, hu]

theorem list_eq (hs : Steady w v path) {names : List Name} (ht : t.list path = .ok names) :
    u.list path = .ok names := by
  obtain ⟨place, htstat, hlisted, rfl⟩ := list_eq_ok_iff.mp ht
  have hunlisted : u.unlisted = t.unlisted := h.ahead.unlisted.trans h.late.unlisted
  refine list_eq_ok_iff.mpr ⟨place, (h.agrees hs.stat _).mp htstat, hunlisted ▸ hlisted, ?_⟩
  -- no name came in between, for the names in `w` are those in `v`
  obtain ⟨f, hvstat, hshape⟩ := stat_of_grows h.first h.late htstat
  obtain rfl : f = .dir := Entry.eq_of_shape_eq hshape (by simp)
  have hwv : w.sortedNames place = v.sortedNames place := by
    have hwlist := list_eq_ok_iff.mpr ⟨place, (hs.stat _).mpr hvstat, h.early.unlisted ▸ hlisted, rfl⟩
    obtain ⟨q, hq, -, hnames⟩ := list_eq_ok_iff.mp ((hs.list _).mp hwlist)
    rw [hvstat] at hq
    cases hq
    exact hnames
  have hnone : ∀ {m}, (v.get? (place ++ [m])).isSome ↔ (w.get? (place ++ [m])).isSome := by
    intro m
    rw [← (h.after.lists place).mem_iff, ← (h.before.lists place).mem_iff, hwv]
  refine Lists.unique ⟨(h.first.lists place).sorted, fun m => ?_⟩ (h.second.lists place)
  rw [(h.first.lists place).mem_iff]
  constructor
  · exact fun hm => h.ahead.isSome (h.late.isSome hm)
  · exact fun hm => h.early.isSome (hnone.mp (h.back.isSome hm))

end Reads

section Changes

/-- Directories that the first pass makes are there in the second one. -/
theorem of_dirs {D : Place → Prop} (h : Replay w v t u) (he : Edits Nowhere D t t') (hlate : Grows t' v) :
    Replay w v t' u := by
  refine ⟨h.before, h.after, h.early.trans he.grows, hlate, h.ahead, h.back, he.wellFormed h.first,
    h.second, fun q => ?_, h.locked⟩
  rcases he.get?_eq q with hq | hq | ⟨-, -, hdir⟩
  · rw [hq]
    exact h.same q
  · exact hq.elim
  · left
    rw [hdir, h.ahead.dir (hlate.dir hdir)]

theorem makeDirs (h : Replay w v t u) (hP : P.Rooted) (hmade : (t.makeDirs P.text).fault = none)
    (hlate : Grows (t.makeDirs P.text).tree v) :
    u.makeDirs P.text = ⟨u, none⟩ ∧ Replay w v (t.makeDirs P.text).tree u := by
  have hedits := FileTree.makeDirs_edits h.first hP
  refine ⟨?_, h.of_dirs hedits hlate⟩
  obtain ⟨q, hq⟩ := stat_makeDirs h.first hP hmade
  obtain ⟨f, hf, hshape⟩ := stat_of_grows (hedits.wellFormed h.first) (hlate.trans h.ahead) hq
  obtain rfl : f = .dir := Entry.eq_of_shape_eq hshape (by simp)
  exact makeDirs_of_stat hP hf

theorem put (h : Replay w v t u) (hput : Puts t p n (.file c)) {d : ByteArray}
    (hlate : Grows (t.put (p ++ [n]) (.file c)) v) (hu : u.get? (p ++ [n]) = some (.file d)) :
    Replay w v (t.put (p ++ [n]) (.file c)) (u.put (p ++ [n]) (.file c)) := by
  have hsome : (u.get? (p ++ [n])).isSome := by simp [hu]
  have hput' : Puts u p n (.file c) :=
    ⟨h.second.parent hsome, h.second.isFileName hsome, Or.inl ⟨⟨c, rfl⟩, by simp [hu]⟩⟩
  obtain ⟨b, hb⟩ := h.back.file hu
  refine ⟨h.before, h.after, h.early.trans hput.grows, hlate, h.ahead.trans hput'.grows,
    ⟨?_, ?_, ?_, h.back.unlisted, h.back.locked⟩, hput.wellFormed h.first, hput'.wellFormed h.second,
    fun q => ?_, h.locked⟩
  · exact h.back.cwd
  · intro q f hf
    rw [get?_put_concat] at hf
    split at hf
    · next hq =>
      cases hf
      exact ⟨.file b, hq ▸ hb, rfl⟩
    · exact h.back.kept hf
  · intro q hq
    rw [get?_put_concat] at hq
    split at hq
    · simp at hq
    · exact h.back.new hq
  · rw [get?_put_concat, get?_put_concat]
    split
    · exact Or.inl rfl
    · exact h.same q

/-- Where the first pass writes a file, the second one finds it. -/
theorem stat_of_write (h : Replay w v t u) (hwrite : t.write path c = .ok t') (hlate : Grows t' v) :
    (∃ p n d, Puts t p n (.file c) ∧ t' = t.put (p ++ [n]) (.file c) ∧
      u.stat path = .ok (p ++ [n], .file d) ∧ p ++ [n] ∉ u.locked ∧
      (t.get? (p ++ [n]) = none ∨ ∃ d, t.stat path = .ok (p ++ [n], .file d))) ∨
    t' = t ∧ ∃ q e, t.stat path = .ok (q, e) ∧ u.stat path = .ok (q, e) ∧ (∀ d, e ≠ .file d) ∧
      e ≠ .dir := by
  rcases write_cases h.first hwrite with ⟨p, n, hput, rfl, hstat, hfree, hold⟩ |
    ⟨rfl, q, e, hstat, hfile, hdir⟩
  · obtain ⟨f, hf, hshape⟩ := stat_of_grows (hput.wellFormed h.first) (hlate.trans h.ahead) hstat
    obtain ⟨d, rfl⟩ := Entry.exists_file_of_shape hshape
    obtain ⟨hlocked, hlocked'⟩ := h.locked_eq
    exact Or.inl ⟨p, n, d, hput, rfl, hf, hlocked' ▸ hlocked ▸ hfree, hold⟩
  · obtain ⟨f, hf, hshape⟩ := stat_of_grows h.first (h.late.trans h.ahead) hstat
    obtain rfl : f = e := Entry.eq_of_shape_eq hshape hfile
    exact Or.inr ⟨rfl, q, f, hstat, hf, hfile, hdir⟩

/-- What the first pass writes, the second one writes to the same place. -/
theorem write (h : Replay w v t u) (hwrite : t.write path c = .ok t') (hlate : Grows t' v) :
    ∃ u', u.write path c = .ok u' ∧ Replay w v t' u' := by
  rcases h.stat_of_write hwrite hlate with
    ⟨p, n, d, hput, rfl, hu, hfree, -⟩ | ⟨rfl, q, e, -, hu, hfile, hdir⟩
  · exact ⟨_, write_of_stat hu hfree, h.put hput hlate (get?_of_stat h.second hu)⟩
  · exact ⟨u, write_of_stat_other hu hfile hdir, h⟩

/-- A path that a file was written to does not lead to a directory. -/
theorem isDir_of_write (h : Replay w v t u) (hwrite : t.write path c = .ok t') (hlate : Grows t' v) :
    u.isDir path = false := by
  rcases h.stat_of_write hwrite hlate with ⟨p, n, d, -, -, hu, -⟩ | ⟨-, q, e, -, hu, -, hdir⟩
  · simp [isDir, hu]
  · cases e with
    | dir => exact absurd rfl hdir
    | _ => simp [isDir, hu]

end Changes

section Copies

theorem copyFile_eq_ok_iff :
    t.copyFile source target = .ok t' ↔ t.sameEntry source target = false ∧ t.isPipe source = false ∧
      t.isPipe target = false ∧ ∃ c, t.read source = .ok c ∧ t.write target c = .ok t' := by
  unfold copyFile
  cases t.sameEntry source target with
  | true => simp
  | false =>
    cases t.isPipe source with
    | true => simp
    | false =>
      cases t.isPipe target with
      | true => simp
      | false => cases t.read source <;> simp [bind, Except.bind]

theorem sameEntry_eq_true_iff :
    t.sameEntry source target = true ↔
      ∃ q e f, t.stat source = .ok (q, e) ∧ t.stat target = .ok (q, f) := by
  unfold sameEntry
  cases t.stat source with
  | error fault => simp
  | ok x =>
    cases t.stat target with
    | error fault => simp
    | ok y =>
      obtain ⟨q, e⟩ := x
      obtain ⟨r, f⟩ := y
      simp only [decide_eq_true_eq, Except.ok.injEq, Prod.mk.injEq]
      constructor
      · rintro rfl
        exact ⟨q, e, f, ⟨rfl, rfl⟩, rfl, rfl⟩
      · rintro ⟨_, _, _, ⟨rfl, rfl⟩, rfl, rfl⟩
        rfl

/-- A file is copied again to the same place. -/
theorem copyFile (h : Replay w v t u) (hs : Agrees w v source)
    (hcopy : t.copyFile source target = .ok t') (hlate : Grows t' v) :
    ∃ u', u.copyFile source target = .ok u' ∧ Replay w v t' u' := by
  obtain ⟨hdiff, hsource, htarget, c, hread, hwrite⟩ := copyFile_eq_ok_iff.mp hcopy
  have hstat : u.stat source = t.stat source := by
    cases hx : t.stat source with
    | error fault => simp [read, hx, bind, Except.bind] at hread
    | ok x => rw [h.stat_eq hs hx, hx]
  obtain ⟨u', hu', hreplay⟩ := h.write hwrite hlate
  have hplace := h.stat_of_write hwrite hlate
  refine ⟨u', copyFile_eq_ok_iff.mpr ⟨?_, ?_, ?_, c, ?_, hu'⟩, hreplay⟩
  · rw [Bool.eq_false_iff, ne_eq, sameEntry_eq_true_iff]
    rintro ⟨q, e, f, hq, hf⟩
    rw [hstat] at hq
    -- the source exists in the first pass, so the target was there too and is the same
    have hsame : ∃ f', t.stat target = .ok (q, f') := by
      rcases hplace with ⟨p, n, d, -, -, hu, -, hold⟩ | ⟨-, q', e', ht, hu, -⟩
      · rw [hu] at hf
        cases hf
        rcases hold with hnone | ⟨d', hd'⟩
        · rw [get?_of_stat h.first hq] at hnone
          simp at hnone
        · exact ⟨_, hd'⟩
      · rw [hu] at hf
        cases hf
        exact ⟨_, ht⟩
    obtain ⟨f', hf'⟩ := hsame
    rw [sameEntry_eq_true_iff.mpr ⟨q, e, f', hq, hf'⟩] at hdiff
    simp at hdiff
  · simpa only [isPipe, hstat] using hsource
  · rcases hplace with ⟨p, n, d, -, -, hu, -⟩ | ⟨-, q, e, ht, hu, -⟩
    · simp [isPipe, hu]
    · simpa only [isPipe, hu, ht] using htarget
  · simpa only [read, hstat] using hread

theorem copyInto_eq_ok_iff :
    t.copyInto n source target = ⟨t', none, []⟩ ↔
      ∃ x, t.copyFile source (if t.isDir target then Path.joined target n else target) = .ok x ∧
        t' = x.copyLock source (if t.isDir target then Path.joined target n else target) := by
  unfold FileTree.copyInto
  dsimp only
  generalize (if t.isDir target then Path.joined target n else target) = target'
  split
  · next hc => simp [hc, eq_comm]
  · next hc => simp [hc]
  · next hc => simp [hc]

/-- Neither pass locks what it copied. -/
theorem copyLock_eq (h : Replay w v t u) (hs : Agrees w v source) (ht : t.stat target = .ok (p, e))
    (hlate : Grows (t.copyLock source target) v) :
    t.copyLock source target = t ∧ u.copyLock source target = u := by
  obtain ⟨hlocked, hlocked'⟩ := h.locked_eq
  have hsource : u.isLocked source = t.isLocked source := by
    unfold isLocked
    cases hx : t.stat source with
    | ok x => rw [h.stat_eq hs hx, hx, hlocked, hlocked']
    | error fault =>
      cases hy : u.stat source with
      | ok x => simp [(h.agrees hs x).mpr hy] at hx
      | error fault' => rfl
  unfold copyLock at hlate ⊢
  rw [hsource]
  cases hlock : t.isLocked source with
  | false => simp
  | true =>
    rw [hlock, if_pos rfl] at hlate
    -- had the target been a file, there would be one more that may not be written
    have hfile : ∀ c, e ≠ .file c := by
      rintro c rfl
      have hlen := hlate.locked.length_le
      rw [lock, ht, h.locked, ← hlocked] at hlen
      simp at hlen
    obtain ⟨f, hf, hshape⟩ := stat_of_grows h.first (h.late.trans h.ahead) ht
    obtain rfl : f = e := Entry.eq_of_shape_eq hshape hfile
    have hnot : ∀ {x : FileTree}, x.stat target = .ok (p, f) → x.lock target = x := by
      intro x hx
      unfold lock
      split
      · next hy =>
        rw [hx] at hy
        cases hy
        exact absurd rfl (hfile _)
      · rfl
    exact ⟨hnot ht, hnot hf⟩

theorem copyInto (h : Replay w v t u) (hs : Agrees w v source)
    (hcopy : t.copyInto n source target = ⟨t', none, []⟩) (hlate : Grows t' v) :
    ∃ u', u.copyInto n source target = ⟨u', none, []⟩ ∧ Replay w v t' u' := by
  obtain ⟨x, hok, rfl⟩ := copyInto_eq_ok_iff.mp hcopy
  obtain ⟨-, -, -, c, -, hwrite⟩ := copyFile_eq_ok_iff.mp hok
  have hx := (write_edits h.first hwrite).wellFormed h.first
  have hlate' : Grows x v := (copyLock_edits hx source).grows.trans hlate
  -- in both passes the target is a directory or in neither
  have hdir : u.isDir target = t.isDir target := by
    cases ht : t.isDir target with
    | true =>
      unfold isDir at ht
      split at ht
      · next q hq =>
        obtain ⟨f, hf, hshape⟩ := stat_of_grows h.first (h.late.trans h.ahead) hq
        obtain rfl : f = .dir := Entry.eq_of_shape_eq hshape (by simp)
        simp [isDir, hf]
      · simp at ht
    | false =>
      rw [ht] at hwrite
      exact h.isDir_of_write hwrite hlate'
  obtain ⟨u', hu', hreplay⟩ := h.copyFile hs hok hlate'
  obtain ⟨q, e, hstat⟩ := stat_of_written h.first hwrite
  obtain ⟨hfirst, hsecond⟩ := hreplay.copyLock_eq hs hstat hlate
  refine ⟨u', copyInto_eq_ok_iff.mpr ⟨u', hdir ▸ hu', ?_⟩, hfirst.symm ▸ hreplay⟩
  rw [hdir, hsecond]

/-- Copies of directories are made again to the same places. -/
def CopiesAgain (w v : FileTree) (copy : FileTree → List Char → List Char → Copied) : Prop :=
  ∀ {t u t' : FileTree} {source : List Char} {P : Path}, Replay w v t u → SteadyBelow w v source →
    P.Rooted → copy t source P.text = ⟨t', none, []⟩ → Grows t' v →
    ∃ u', copy u source P.text = ⟨u', none, []⟩ ∧ Replay w v t' u'

variable {copy : FileTree → List Char → List Char → Copied} {names : List Name}

theorem faults_foldl {done : Copied} (h : (names.foldl (copyEntry copy source target) done).faults = []) :
    done.faults = [] := by
  induction names generalizing done with
  | nil => exact h
  | cons n names ih =>
    have hstep := ih h
    exact (List.append_eq_nil_iff.mp hstep).1

theorem copyEntry_eq_ok_iff :
    copyEntry copy source target ⟨t, none, []⟩ n = ⟨t', none, []⟩ ↔
      (if t.isDir (Path.joined source n) then copy t (Path.joined source n) (Path.joined target n)
        else t.copyInto n (Path.joined source n) (Path.joined target n)) = ⟨t', none, []⟩ := by
  unfold copyEntry
  dsimp only
  generalize (if t.isDir (Path.joined source n) = true then _ else _) = next
  obtain ⟨tree, fault, faults⟩ := next
  cases fault with
  | none => simp
  | some fault => simp

theorem copyEntry (h : Replay w v t u) (hcopy : CopiesAgain w v copy) (hs : SteadyBelow w v source)
    (hP : P.Rooted) (hn : IsName n)
    (hstep : copyEntry copy source P.text ⟨t, none, []⟩ n = ⟨t', none, []⟩) (hlate : Grows t' v) :
    ∃ u', FileTree.copyEntry copy source P.text ⟨u, none, []⟩ n = ⟨u', none, []⟩ ∧
      Replay w v t' u' := by
  have hn' := hs.joined hn
  have hP' : Path.Rooted ⟨P.root, P.segments ++ [n]⟩ := hP.append (by simpa using hn)
  rw [copyEntry_eq_ok_iff, Path.joined_text hP hn] at hstep
  simp only [copyEntry_eq_ok_iff, Path.joined_text hP hn, h.isDir_eq hn'.self.stat]
  split at hstep
  · next hdir =>
    simp only [hdir, ↓reduceIte]
    exact hcopy h hn' hP' hstep hlate
  · next hdir =>
    simp only [hdir, Bool.false_eq_true, ↓reduceIte]
    exact h.copyInto hn'.self.stat hstep hlate

theorem foldl_copyEntry (h : Replay w v t u) (hcopy : CopiesAgain w v copy)
    (hgrows : EditsTree copy) (hs : SteadyBelow w v source) (hP : P.Rooted) (hnames : ∀ n ∈ names, IsName n)
    (hfold : names.foldl (FileTree.copyEntry copy source P.text) ⟨t, none, []⟩ = ⟨t', none, []⟩)
    (hlate : Grows t' v) :
    ∃ u', names.foldl (FileTree.copyEntry copy source P.text) ⟨u, none, []⟩ = ⟨u', none, []⟩ ∧
      Replay w v t' u' := by
  induction names generalizing t u with
  | nil =>
    cases hfold
    exact ⟨u, rfl, h⟩
  | cons n names ih =>
    rw [List.foldl_cons] at hfold
    have hfaults := faults_foldl (congrArg Copied.faults hfold)
    obtain ⟨s, hstep⟩ : ∃ s, FileTree.copyEntry copy source P.text ⟨t, none, []⟩ n = ⟨s, none, []⟩ :=
      ⟨(FileTree.copyEntry copy source P.text ⟨t, none, []⟩ n).tree,
        congrArg (Copied.mk _ none) hfaults⟩
    have hwf : (Copied.mk t none []).tree.WellFormed := h.first
    have hedits := copyEntry_anywhere hgrows hwf source P.text n
    rw [hstep] at hedits hfold
    have hrest := foldl_copyEntry_anywhere hgrows (hedits.wellFormed h.first) source P.text names
    rw [hfold] at hrest
    obtain ⟨s', hs', hreplay⟩ := h.copyEntry hcopy hs hP (hnames n List.mem_cons_self) hstep
      (hrest.grows.trans hlate)
    rw [List.foldl_cons, hs']
    exact ih hreplay (fun m hm => hnames m (List.mem_cons_of_mem _ hm)) hfold

theorem copiesAgain_copyDirFrom (depth : Nat) : CopiesAgain w v (copyDirFrom depth) := by
  induction depth with
  | zero =>
    intro t u t' source P _ _ _ hcopy
    simp [copyDirFrom] at hcopy
  | succ depth ih =>
    intro t u t' source P h hs hP hcopy hlate
    rw [copyDirFrom] at hcopy ⊢
    cases hlist : t.list source with
    | error fault => simp [hlist] at hcopy
    | ok names =>
      rw [h.list_eq hs.self hlist]
      simp only [hlist] at hcopy ⊢
      cases hfault : (t.makeDirs P.text).fault with
      | some fault => simp [hfault] at hcopy
      | none =>
        simp only [hfault] at hcopy
        have hmade := FileTree.makeDirs_edits h.first hP
        have hwf : (Copied.mk (t.makeDirs P.text).tree none []).tree.WellFormed :=
          hmade.wellFormed h.first
        have hrest := foldl_copyEntry_anywhere (copyDirFrom_anywhere depth) hwf source P.text names
        rw [hcopy] at hrest
        obtain ⟨hu, hreplay⟩ := h.makeDirs hP hfault (hrest.grows.trans hlate)
        rw [hu]
        exact hreplay.foldl_copyEntry ih (copyDirFrom_anywhere depth) hs hP
          (isName_of_list h.first hlist) hcopy hlate

end Copies

end Replay

end Marginalia.FileTree
