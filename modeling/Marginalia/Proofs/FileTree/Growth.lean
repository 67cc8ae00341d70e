import Mathlib
import Marginalia.Proofs.FileTree.Refusal
import Marginalia.Proofs.FileTree.Writes

/-! # Look-ups in a tree that has grown

A path that leads to an entry still leads there when the tree grows. What was written is found, and
directories that exist are not made again.
-/
namespace Marginalia.FileTree

open Text

variable {t u : FileTree} {follow : Bool} {links : Nat} {path : List Char} {p q : Place} {n : Name}
  {ns : List Name} {e : Entry} {P : Path}

section LookUp

theorem Entry.link_of_shape {e f : Entry} (h : f.shape = e.shape) (he : ∀ s, e ≠ .link s) :
    ∀ s, f ≠ .link s := by
  rintro s rfl
  cases e with
  | link s' =>
    exact he s' rfl
  | _ => simp [Entry.shape] at h

theorem Located.grows (hg : Grows t u) (ht : t.WellFormed)
    (h : Located t follow links p ns (.found q e)) (hp : (t.get? p).isSome) :
    ∃ f, Located u follow links p ns (.found q f) ∧ f.shape = e.shape := by
  generalize hgoal : Target.found q e = g at h
  induction h with
  | here links p =>
    cases hgoal
    obtain ⟨e, he⟩ := Option.isSome_iff_exists.mp hp
    obtain ⟨f, hf, hs⟩ := hg.kept he
    refine ⟨_, .here _ _, ?_⟩
    simpa [he, hf] using hs
  | stay hd hn _ ih =>
    obtain ⟨f, hf, hs⟩ := ih hp hgoal
    exact ⟨f, .stay (hg.dir hd) hn hf, hs⟩
  | up hd _ ih =>
    obtain ⟨f, hf, hs⟩ := ih (by simp [ht.dropLast hd]) hgoal
    exact ⟨f, .up (hg.dir hd) hf, hs⟩
  | name hd hn he hl _ ih =>
    obtain ⟨f, hf, hs⟩ := ih (by simp [he]) hgoal
    obtain ⟨e', he', hs'⟩ := hg.kept he
    exact ⟨f, .name (hg.dir hd) hn he' (Entry.link_of_shape hs' hl) hf, hs⟩
  | free => simp at hgoal
  | unfollowed hd hn he hf =>
    cases hgoal
    exact ⟨_, .unfollowed (hg.dir hd) hn ((hg.sameLinks _ _).mpr he) hf, rfl⟩
  -- no link is lost, so the target is read from the same place
  | @link links p n ns g s hd hn he hf hs _ ih =>
    obtain ⟨f, hrest, hshape⟩ := ih (by unfold startOf; split <;> simp [hd, get?_nil]) hgoal
    exact ⟨f, .link (hg.dir hd) hn ((hg.sameLinks _ _).mpr he) hf hs hrest, hshape⟩

theorem isSome_startOf (ht : t.WellFormed) (path : List Char) :
    (t.get? (startOf path t.cwd)).isSome := by
  unfold startOf
  split <;> simp [get?_nil, ht.cwd]

/-- A path that leads to an entry leads there in a tree that has grown. -/
theorem stat_of_grows (ht : t.WellFormed) (hg : Grows t u) (h : t.stat path = .ok (q, e)) :
    ∃ f, u.stat path = .ok (q, f) ∧ f.shape = e.shape := by
  obtain ⟨h0, hne, hlen, hl⟩ := locate_eq_ok_iff.mp (stat_eq_ok_iff.mp h)
  obtain ⟨f, hf, hs⟩ := hl.grows hg ht (isSome_startOf ht path)
  rw [← hg.cwd] at hf
  exact ⟨f, stat_eq_ok_iff.mpr (locate_eq_ok_iff.mpr ⟨h0, hne, hlen, hf⟩), hs⟩

theorem get?_of_stat (ht : t.WellFormed) (h : t.stat path = .ok (q, e)) : t.get? q = some e :=
  holds_of_locate ht (stat_eq_ok_iff.mp h)

/-- Without following the last link there is something too. -/
theorem Located.unfollow (h : Located t true links p ns (.found q e)) :
    ∃ q' f, Located t false links p ns (.found q' f) := by
  generalize hgoal : Target.found q e = g at h
  induction h with
  | here links p => exact ⟨_, _, .here links p⟩
  | stay hd hn _ ih =>
    obtain ⟨q', f, hf⟩ := ih hgoal
    exact ⟨q', f, .stay hd hn hf⟩
  | up hd _ ih =>
    obtain ⟨q', f, hf⟩ := ih hgoal
    exact ⟨q', f, .up hd hf⟩
  | name hd hn he hl _ ih =>
    obtain ⟨q', f, hf⟩ := ih hgoal
    exact ⟨q', f, .name hd hn he hl hf⟩
  | free => simp at hgoal
  | unfollowed _ _ _ hf => simp at hf
  | @link links p n ns g s hd hn he _ hs _ ih =>
    by_cases hns : ns = []
    · subst hns
      exact ⟨_, _, .unfollowed hd hn he rfl⟩
    · obtain ⟨q', f, hf⟩ := ih hgoal
      exact ⟨q', f, .link hd hn he (Or.inl hns) hs hf⟩

end LookUp

section Parent

theorem text_prefix_joined {a : List Char} (hn : n.head? ≠ some '/') : a <+: Path.joined a n := by
  unfold Path.joined
  rw [if_neg hn]
  split
  · exact List.prefix_append ..
  · exact List.prefix_append ..

theorem byteLength_append (a b : List Char) : byteLength (a ++ b) = byteLength a + byteLength b := by
  induction a with
  | nil => simp [byteLength, total]
  | cons x a ih =>
    simp only [byteLength, List.cons_append, List.map_cons, total] at ih ⊢
    omega

theorem byteLength_mono {a b : List Char} (h : a <+: b) : byteLength a ≤ byteLength b := by
  obtain ⟨c, rfl⟩ := h
  rw [byteLength_append]
  omega

/-- A path that leads anywhere goes through the directory around it. -/
theorem stat_of_locate_joined (hP : P.Rooted) (hn : IsName n) {g : Target}
    (h : t.locate (Path.joined P.text n) follow = .ok g) :
    ∃ links q, t.stat P.text = .ok (q, .dir) ∧ t.get? q = some .dir ∧ Located t follow links q [n] g := by
  have hpre : P.text <+: Path.joined P.text n := text_prefix_joined hn.head_ne_slash
  have hP' : Path.Rooted ⟨P.root, P.segments ++ [n]⟩ := hP.append (by simpa using hn)
  have htext := Path.joined_text hP hn
  rw [htext] at hpre h
  obtain ⟨h0, hlen, hl⟩ := (locate_text_iff hP').mp h
  obtain ⟨links, q, hq, hdir, hlast⟩ := hl.split hn.ne_nil
  refine ⟨links, q, ?_, hdir, hlast⟩
  have hlt := Nat.lt_of_le_of_lt (byteLength_mono hpre) hlen
  exact stat_eq_ok_iff.mpr ((locate_text_iff hP).mpr ⟨fun hc => h0 (hpre.subset hc), hlt, hq⟩)

end Parent

section Filled

/-- A free place is found once something is put there. -/
theorem Located.filled {slash : Bool} (hput : Puts t q n e) (hslash : slash = false ∨ e = .dir)
    (h : Located t follow links p ns (.free q n slash)) :
    Located (t.put (q ++ [n]) e) true links p ns (.found (q ++ [n]) e) := by
  have hg := hput.grows
  have hget : (t.put (q ++ [n]) e).get? (q ++ [n]) = some e := by rw [get?_put_concat, if_pos rfl]
  have hlink : ∀ s, e ≠ .link s := by
    rintro s rfl
    rcases hput.old with ⟨⟨c, hc⟩, -⟩ | ⟨hc, -⟩
    · simp at hc
    · simp at hc
  generalize hgoal : Target.free q n slash = g at h
  induction h with
  | here => simp at hgoal
  | stay hd hn _ ih => exact .stay (hg.dir hd) hn (ih hgoal)
  | up hd _ ih => exact .up (hg.dir hd) (ih hgoal)
  | name hd hn he hl _ ih =>
    obtain ⟨e', he', hs'⟩ := hg.kept he
    exact .name (hg.dir hd) hn he' (Entry.link_of_shape hs' hl) (ih hgoal)
  | @free links p m ns hd hn _ hns =>
    cases hgoal
    refine .name (hg.dir hd) hn hget hlink ?_
    -- slashes behind a directory stay in it
    have hstay : ∀ {ms : List Name}, (∀ k ∈ ms, k = []) → (ms = [] ∨ e = .dir) →
        Located (t.put (q ++ [n]) e) true links (q ++ [n]) ms (.found (q ++ [n]) e) := by
      intro ms hms hd
      induction ms with
      | nil => exact here_of hget
      | cons k ms ih =>
        obtain rfl : e = .dir := hd.resolve_left (by simp)
        exact .stay hget (Or.inl (hms k List.mem_cons_self))
          (ih (fun j hj => hms j (List.mem_cons_of_mem _ hj)) (Or.inr rfl))
    exact hstay hns (hslash.imp (by simp) id)
  | unfollowed => simp at hgoal
  | link hd hn he _ hs _ ih =>
    exact .link (hg.dir hd) hn ((hg.sameLinks _ _).mpr he) (Or.inr rfl) hs (ih hgoal)

theorem stat_put_of_free {slash : Bool} (hput : Puts t q n e) (hslash : slash = false ∨ e = .dir)
    (h : t.locate path follow = .ok (.free q n slash)) :
    (t.put (q ++ [n]) e).stat path = .ok (q ++ [n], e) := by
  obtain ⟨h0, hne, hlen, hl⟩ := locate_eq_ok_iff.mp h
  exact stat_eq_ok_iff.mpr (locate_eq_ok_iff.mpr ⟨h0, hne, hlen, hl.filled hput hslash⟩)

end Filled

section Write

variable {c : ByteArray}

/-- What is written is found afterwards, unless the path leads to what takes no content. -/
theorem write_cases (ht : t.WellFormed) (h : t.write path c = .ok u) :
    (∃ p n, Puts t p n (.file c) ∧ u = t.put (p ++ [n]) (.file c) ∧
      u.stat path = .ok (p ++ [n], .file c) ∧ p ++ [n] ∉ t.locked ∧
      (t.get? (p ++ [n]) = none ∨ ∃ d, t.stat path = .ok (p ++ [n], .file d))) ∨
    u = t ∧ ∃ q e, t.stat path = .ok (q, e) ∧ (∀ d, e ≠ .file d) ∧ e ≠ .dir := by
  rw [write] at h
  cases hl : t.locate path true with
  | error fault => simp [hl, bind, Except.bind] at h
  | ok g =>
    simp only [hl, bind, Except.bind] at h
    cases g with
    | found place e =>
      have hstat := stat_eq_ok_iff.mpr hl
      have hget := get?_of_stat ht hstat
      cases e with
      | file d =>
        dsimp only at h
        split at h
        · simp at h
        next hfree =>
        cases h
        obtain ⟨r, n, rfl⟩ := exists_concat_of_get? hget (by simp)
        have hsome : (t.get? (r ++ [n])).isSome := by simp [hget]
        have hput : Puts t r n (.file c) :=
          ⟨ht.parent hsome, ht.isFileName hsome, Or.inl ⟨⟨c, rfl⟩, by simp [hget]⟩⟩
        -- the path leads to the same place afterwards, where the new content is
        obtain ⟨f, hf, -⟩ := stat_of_grows ht hput.grows hstat
        have hf' := get?_of_stat (hput.wellFormed ht) hf
        rw [get?_put_concat, if_pos rfl] at hf'
        cases hf'
        exact Or.inl ⟨r, n, hput, rfl, hf, by simpa using hfree, Or.inr ⟨d, hstat⟩⟩
      | dir => simp at h
      | link s =>
        cases h
        exact Or.inr ⟨rfl, place, _, hstat, by simp, by simp⟩
      | pipe =>
        cases h
        exact Or.inr ⟨rfl, place, _, hstat, by simp, by simp⟩
    | free place n slash =>
      cases slash with
      | true => simp at h
      | false =>
        cases h
        have hput : Puts t place n (.file c) := puts_of_free ht hl (Or.inl ⟨_, rfl⟩)
        have hnone : t.get? (place ++ [n]) = none := (holds_of_locate ht hl).2.1
        refine Or.inl ⟨place, n, hput, rfl, stat_put_of_free hput (Or.inl rfl) hl, fun hlocked => ?_,
          Or.inl hnone⟩
        obtain ⟨d, hd⟩ := ht.locked hlocked
        simp [hnone] at hd

/-- A path that was written to leads to an entry. -/
theorem stat_of_written (ht : t.WellFormed) (h : t.write path c = .ok u) : ∃ q e, u.stat path = .ok (q, e) := by
  rcases write_cases ht h with ⟨p, n, -, -, hstat, -⟩ | ⟨rfl, q, e, hstat, -⟩
  · exact ⟨_, _, hstat⟩
  · exact ⟨q, e, hstat⟩

theorem write_of_stat {d : ByteArray} (h : t.stat path = .ok (q, .file d)) (hq : q ∉ t.locked) :
    t.write path c = .ok (t.put q (.file c)) := by
  rw [write, stat_eq_ok_iff.mp h]
  simp [bind, Except.bind, hq]

theorem write_of_stat_other (h : t.stat path = .ok (q, e)) (hfile : ∀ d, e ≠ .file d) (hdir : e ≠ .dir) :
    t.write path c = .ok t := by
  rw [write, stat_eq_ok_iff.mp h]
  cases e with
  | file d => exact absurd rfl (hfile d)
  | dir => exact absurd rfl hdir
  | link s => rfl
  | pipe => rfl

end Write

section Directories

/-- Where a directory was made, or was there, it is found. -/
theorem stat_makeLast (ht : t.WellFormed) (h : (t.makeLast path).fault = none) :
    ∃ q, (t.makeLast path).tree.stat path = .ok (q, .dir) := by
  rw [makeLast] at h ⊢
  cases hm : t.makeDir path with
  | ok u =>
    rw [makeDir] at hm
    cases hl : t.locate path false with
    | error fault => simp [hl, bind, Except.bind] at hm
    | ok g =>
      cases g with
      | found => simp [hl, bind, Except.bind] at hm
      | free p n slash =>
        simp only [hl, bind, Except.bind, Except.ok.injEq] at hm
        subst hm
        have hput : Puts t p n .dir := puts_of_free ht hl (Or.inr rfl)
        exact ⟨p ++ [n], stat_put_of_free hput (Or.inr rfl) hl⟩
  | error fault =>
    rw [hm] at h
    have hdir : t.isDir path = true := by simpa using h
    unfold isDir at hdir
    split at hdir
    · next q hs => exact ⟨q, hs⟩
    · simp at hdir

theorem makeLast_of_stat (h : t.stat path = .ok (q, .dir)) : t.makeLast path = ⟨t, none⟩ := by
  obtain ⟨h0, hne, hlen, hl⟩ := locate_eq_ok_iff.mp (stat_eq_ok_iff.mp h)
  obtain ⟨q', f, hf⟩ := hl.unfollow
  have hloc : t.locate path false = .ok (.found q' f) := locate_eq_ok_iff.mpr ⟨h0, hne, hlen, hf⟩
  have hmake : t.makeDir path = .error (.refused .exists path) := by
    rw [makeDir, hloc]
    rfl
  have hdir : t.isDir path = true := by simp [isDir, h]
  simp [makeLast, hmake, hdir]

theorem stat_makeDirs (ht : t.WellFormed) (hP : P.Rooted) (h : (t.makeDirs P.text).fault = none) :
    ∃ q, (t.makeDirs P.text).tree.stat P.text = .ok (q, .dir) := by
  rw [makeDirs, Path.parse_text hP.spelled] at h ⊢
  rcases List.eq_nil_or_concat P.segments with hnil | ⟨ms, m, hms⟩
  · refine ⟨[], ?_⟩
    rw [hnil]
    obtain ⟨r, ns⟩ := P
    obtain rfl : ns = [] := hnil
    -- a path without names is the root, which is always there
    have hroot : ∀ r : Root, r ≠ .none →
        Char.ofNat 0 ∉ Path.text ⟨r, []⟩ ∧ byteLength (Path.text ⟨r, []⟩) < 4096 := by
      intro r hr
      cases r with
      | none => exact absurd rfl hr
      | single => decide
      | double => decide
    exact stat_eq_ok_iff.mpr ((locate_text_iff hP).mpr
      ⟨(hroot r hP.root).1, (hroot r hP.root).2, Located.here_of (get?_nil t)⟩)
  · rw [List.concat_eq_append] at hms
    have htext : Path.text ⟨P.root, (m :: ms.reverse).reverse⟩ = P.text := by
      rw [List.reverse_cons, List.reverse_reverse, ← hms]
    have hshort : Path.Rooted ⟨P.root, ms.reverse.reverse⟩ := by
      rw [List.reverse_reverse]
      exact ⟨hP.root, fun k hk => hP.names k (by simp [hms, hk])⟩
    rw [hms, List.reverse_append, List.reverse_singleton, List.singleton_append] at h ⊢
    rcases makeDirsFrom_cases t P.root m ms.reverse with hcase | hcase | hcase
    · rw [hcase, htext] at h ⊢
      exact stat_makeLast ht h
    · rw [hcase, htext] at h ⊢
      exact stat_makeLast ((makeDirsFrom_edits ht hshort).wellFormed ht) h
    · exact absurd (hcase.1 ▸ h) hcase.2.1

/-- A directory that exists is not made again. -/
theorem makeDirs_of_stat (hP : P.Rooted) (h : t.stat P.text = .ok (q, .dir)) :
    t.makeDirs P.text = ⟨t, none⟩ := by
  rw [makeDirs, Path.parse_text hP.spelled]
  rcases List.eq_nil_or_concat P.segments with hnil | ⟨ms, m, hms⟩
  · rw [hnil]
    rfl
  · rw [List.concat_eq_append] at hms
    have hm : IsName m := hP.names m (by simp [hms])
    have hshort : Path.Rooted ⟨P.root, ms⟩ := ⟨hP.root, fun k hk => hP.names k (by simp [hms, hk])⟩
    have htext : P.text = Path.joined (Path.text ⟨P.root, ms⟩) m := by
      rw [Path.joined_text hshort hm, ← hms]
    have hlast := makeLast_of_stat h
    rw [htext, stat_eq_ok_iff] at h
    obtain ⟨-, q', hq', -, -⟩ := stat_of_locate_joined hshort hm h
    have hhas : t.has (Path.text ⟨P.root, ms⟩) = true := by simp [has, hq']
    rw [hms, List.reverse_append, List.reverse_singleton, List.singleton_append, makeDirsFrom]
    simp only [List.reverse_reverse, hhas, ↓reduceIte, List.reverse_cons]
    rw [← hms]
    exact hlast

end Directories

section Anywhere

/-- Any place. -/
def Anywhere (_ : Place) : Prop := True

theorem Edits.anywhere {F D : Place → Prop} (h : Edits F D t u) : Edits Anywhere Anywhere t u :=
  h.imp (fun _ _ => trivial) fun _ _ _ => trivial

theorem makeDirsFrom_anywhere (ht : t.WellFormed) (r : Root) (ns : List Name) :
    Edits Anywhere Anywhere t (t.makeDirsFrom r ns).tree := by
  induction ns with
  | nil => exact .refl
  | cons n ns ih =>
    rcases makeDirsFrom_cases t r n ns with h | h | h
    · rw [h]
      exact (makeLast_edits ht).anywhere
    · rw [h]
      exact ih.trans (makeLast_edits (ih.wellFormed ht)).anywhere
    · rw [h.1]
      exact ih

theorem copyInto_anywhere (ht : t.WellFormed) (source target : List Char) :
    Edits Anywhere Anywhere t (t.copyInto n source target).tree := by
  unfold copyInto
  dsimp only
  generalize (if t.isDir target then Path.joined target n else target) = target'
  split
  · next hc =>
    have hcopied := copyFile_edits ht hc
    exact hcopied.anywhere.trans (copyLock_edits (hcopied.wellFormed ht) source).anywhere
  · exact .refl
  · exact .refl

/-- A way to copy directories that edits the tree. -/
def EditsTree (copy : FileTree → List Char → List Char → Copied) : Prop :=
  ∀ t source target, t.WellFormed → Edits Anywhere Anywhere t (copy t source target).tree

theorem copyEntry_anywhere {copy : FileTree → List Char → List Char → Copied} {done : Copied}
    (hcopy : EditsTree copy) (hdone : done.tree.WellFormed) (source target : List Char) (n : Name) :
    Edits Anywhere Anywhere done.tree (copyEntry copy source target done n).tree := by
  unfold copyEntry
  dsimp only
  split
  · exact hcopy _ _ _ hdone
  · exact copyInto_anywhere hdone _ _

theorem foldl_copyEntry_anywhere {copy : FileTree → List Char → List Char → Copied} {done : Copied}
    (hcopy : EditsTree copy) (hdone : done.tree.WellFormed) (source target : List Char) (names : List Name) :
    Edits Anywhere Anywhere done.tree (names.foldl (copyEntry copy source target) done).tree := by
  induction names generalizing done with
  | nil => exact .refl
  | cons n names ih =>
    have hstep : Edits Anywhere Anywhere done.tree (copyEntry copy source target done n).tree :=
      copyEntry_anywhere hcopy hdone source target n
    exact hstep.trans (ih (hstep.wellFormed hdone))

/-- Copying a directory edits the tree, whatever goes wrong. -/
theorem copyDirFrom_anywhere (depth : Nat) : EditsTree (copyDirFrom depth) := by
  induction depth with
  | zero => exact fun t source target _ => .refl
  | succ depth ih =>
    intro t source target ht
    rw [copyDirFrom]
    split
    · exact .refl
    · next names _ =>
      have hmade : Edits Anywhere Anywhere t (t.makeDirs target).tree := makeDirsFrom_anywhere ht _ _
      dsimp only
      split
      · exact hmade
      · refine hmade.trans ?_
        have hdone : (Copied.mk (t.makeDirs target).tree none []).tree.WellFormed := hmade.wellFormed ht
        exact foldl_copyEntry_anywhere ih hdone source target names

end Anywhere

section Agree

/-- Two trees in which a path leads to the same entry. -/
def Agrees (t u : FileTree) (path : List Char) : Prop :=
  ∀ x, t.stat path = .ok x ↔ u.stat path = .ok x

/-- Two trees in which a path leads to the same entry, with the same names in it. -/
structure Steady (t u : FileTree) (path : List Char) : Prop where
  stat : Agrees t u path
  list : ∀ names, t.list path = .ok names ↔ u.list path = .ok names

/-- All that lies below a directory is steady. -/
def SteadyBelow (t u : FileTree) (dir : List Char) : Prop :=
  ∀ ns, (∀ n ∈ ns, IsName n) → Steady t u (Path.below dir ns)

theorem SteadyBelow.joined {dir : List Char} (h : SteadyBelow t u dir) (hn : IsName n) :
    SteadyBelow t u (Path.joined dir n) :=
  fun ns hns => h (n :: ns) (by simpa using ⟨hn, hns⟩)

theorem SteadyBelow.self {dir : List Char} (h : SteadyBelow t u dir) : Steady t u dir :=
  h [] (by simp)

theorem list_eq_ok_iff {names : List Name} :
    t.list path = .ok names ↔
      ∃ q, t.stat path = .ok (q, .dir) ∧ q ∉ t.unlisted ∧ names = t.sortedNames q := by
  rw [list]
  cases t.stat path with
  | error fault => simp [bind, Except.bind]
  | ok x =>
    obtain ⟨q, e⟩ := x
    cases e with
    | dir => by_cases hq : q ∈ t.unlisted <;> simp [bind, Except.bind, hq, eq_comm]
    | _ => simp [bind, Except.bind]

end Agree

end Marginalia.FileTree
