import Marginalia.Proofs.FileTree.Fresh

/-! # A directory copied onto another one

Each file of the directory goes to the place that its path has in the other one, except where a directory
stands there: then the file goes into that directory, under its own name. A copy without faults leaves
every file where it goes, and changes no other entry. Files that would go among those that are copied are
left out, for what is copied later would then not be what stood there first.
-/
namespace Marginalia.FileTree

open Text

variable {t u v : FileTree} {S T q : Place} {r x : List Name} {c : ByteArray} {src : List Char} {n : Name}
  {Q : Path}

section Landing

/-- Where a file goes, seen from the directory that is copied onto. -/
def landing (t : FileTree) (T : Place) (r : List Name) : List Name :=
  if t.isDirAt (T ++ r) then r ++ r.getLast?.toList else r

/-- A file of the directory `S` goes to a place when it is copied onto `T`. -/
def Due (t : FileTree) (S T q : Place) (c : ByteArray) : Prop :=
  ∃ r, t.get? (S ++ r) = some (.file c) ∧ q = T ++ landing t T r

/-- No file goes to a place or to one around it. -/
def Unclaimed (t : FileTree) (S T q : Place) : Prop :=
  ∀ r c, t.get? (S ++ r) = some (.file c) → ¬ T ++ r <+: q

/-- No file goes among those that are copied, unless onto itself. -/
def Clear (t : FileTree) (S T : Place) : Prop :=
  ∀ r c, t.get? (S ++ r) = some (.file c) → S <+: T ++ landing t T r → T ++ landing t T r = S ++ r

theorem landing_of_dir (h : t.get? (T ++ r) = some .dir) : landing t T r = r ++ r.getLast?.toList :=
  if_pos (isDirAt_iff.mpr h)

theorem landing_of_not_dir (h : t.get? (T ++ r) ≠ some .dir) : landing t T r = r :=
  if_neg (isDirAt_iff.not.mpr h)

theorem prefix_landing (t : FileTree) (T : Place) (r : List Name) : r <+: landing t T r := by
  unfold landing
  split
  · exact List.prefix_append ..
  · exact List.prefix_rfl

/-- Directories that do not lie in one another are clear of one another. -/
theorem clear_of_apart (hST : ¬ S <+: T) (hTS : ¬ T <+: S) : Clear t S T := by
  intro r c _ h
  rcases List.prefix_or_prefix_of_prefix h (List.prefix_append ..) with h | h
  · exact absurd h hST
  · exact absurd h hTS

variable (ht : t.WellFormed)
include ht

/-- Files go to places of their own. -/
theorem landing_inj {r' : List Name} {c' : ByteArray} (hr : t.get? (S ++ r) = some (.file c))
    (hr' : t.get? (S ++ r') = some (.file c')) (h : landing t T r = landing t T r') : r = r' := by
  have hpre := prefix_landing t T r
  rw [h] at hpre
  rcases List.prefix_or_prefix_of_prefix hpre (prefix_landing t T r') with hle | hle
  · have heq := ht.eq_of_file_of_prefix hr ((List.prefix_append_right_inj S).mpr hle) (by simp [hr'])
    exact (List.append_cancel_left heq).symm
  · have heq := ht.eq_of_file_of_prefix hr' ((List.prefix_append_right_inj S).mpr hle) (by simp [hr])
    exact List.append_cancel_left heq

theorem Due.unique {c' : ByteArray} (h : Due t S T q c) (h' : Due t S T q c') : c = c' := by
  obtain ⟨r, hr, rfl⟩ := h
  obtain ⟨r', hr', heq⟩ := h'
  obtain rfl := landing_inj ht hr hr' (List.append_cancel_left heq)
  rw [hr] at hr'
  cases hr'
  rfl

end Landing

section Brings

/-- A step of the copy: files come to where they go, and directories are made where no file goes. -/
structure Brings (t : FileTree) (S T : Place) (u v : FileTree) : Prop where
  edits : Edits (fun q => ∃ c, Due t S T q c) (Unclaimed t S T) u v
  content : ∀ {q c}, Due t S T q c → v.get? q = u.get? q ∨ v.get? q = some (.file c)

theorem Brings.refl (t : FileTree) (S T : Place) (u : FileTree) : Brings t S T u u :=
  ⟨.refl, fun _ => .inl rfl⟩

theorem Brings.trans {w : FileTree} (h : Brings t S T u v) (h' : Brings t S T v w) : Brings t S T u w := by
  refine ⟨h.edits.trans h'.edits, fun hdue => ?_⟩
  rcases h'.content hdue with hw | hw
  · rw [hw]
    exact h.content hdue
  · exact .inr hw

/-- All files at or below a place are found where they go. -/
def Arrived (t : FileTree) (S T : Place) (Q : Path) (x : List Name) (v : FileTree) : Prop :=
  ∀ r c, t.get? (S ++ (x ++ r)) = some (.file c) →
    v.stat (Path.below Q.text (landing t T (x ++ r))) = .ok (T ++ landing t T (x ++ r), .file c)

/-- A file that is where it goes stays there. -/
theorem Brings.arrived (hu : u.WellFormed) (h : Brings t S T u v) (hx : Arrived t S T Q x u) :
    Arrived t S T Q x v := by
  intro r c hr
  have hstat := hx r c hr
  refine stat_of_left hu (h.edits.wellFormed hu) h.edits.grows hstat ?_
  rcases h.content ⟨_, hr, rfl⟩ with hv | hv
  · rw [hv, get?_of_stat hu hstat]
  · exact hv

theorem brings_of_dirs (h : Edits Nowhere (Unclaimed t S T) u v) : Brings t S T u v := by
  refine ⟨h.imp (fun _ hq => hq.elim) fun _ _ hq => hq, ?_⟩
  rintro q c ⟨r, hr, rfl⟩
  rcases h.get?_eq (T ++ landing t T r) with hsame | hF | ⟨hD, -, -⟩
  · exact .inl hsame
  · exact hF.elim
  · exact absurd ((List.prefix_append_right_inj T).mpr (prefix_landing t T r)) (hD r c hr)

theorem brings_of_file (ht : t.WellFormed) (hr : t.get? (S ++ r) = some (.file c))
    (h : Edits (· = T ++ landing t T r) Nowhere u v)
    (hv : v.get? (T ++ landing t T r) = some (.file c)) : Brings t S T u v := by
  refine ⟨h.imp (fun q hq => ⟨c, r, hr, hq⟩) fun _ _ hq => hq.elim, ?_⟩
  intro q d hdue
  rcases h.get?_eq q with hsame | rfl | ⟨hD, -, -⟩
  · exact .inl hsame
  · rw [hdue.unique ht ⟨r, hr, rfl⟩]
    exact .inr hv
  · exact hD.elim

/-- Below a file there is no other one. -/
theorem arrived_of_file (ht : t.WellFormed) (hx : t.get? (S ++ x) = some (.file c))
    (hv : v.stat (Path.below Q.text (landing t T x)) = .ok (T ++ landing t T x, .file c)) :
    Arrived t S T Q x v := by
  intro r d hr
  rw [← List.append_assoc] at hr
  have hself := ht.eq_of_file_of_prefix hx (List.prefix_append ..) (Option.isSome_of_mem hr)
  obtain rfl : r = [] := by simpa using hself
  rw [List.append_nil, hx] at hr
  cases hr
  rwa [List.append_nil]

variable (h : Brings t S T t u)
include h

/-- The files that are copied stay what they are. -/
theorem Brings.file_iff (hclear : Clear t S T) :
    u.get? (S ++ r) = some (.file c) ↔ t.get? (S ++ r) = some (.file c) := by
  rcases h.edits.get?_eq (S ++ r) with hsame | ⟨c', hdue⟩ | ⟨-, hnone, hdir⟩
  · rw [hsame]
  · have hdue' := hdue
    obtain ⟨r', hr', heq⟩ := hdue'
    have hself := hclear r' c' hr' (heq ▸ List.prefix_append ..)
    obtain rfl := List.append_cancel_left (heq.trans hself)
    rcases h.content hdue with hu | hu
    · rw [hu]
    · rw [hu, hr']
  · simp [hnone, hdir]

theorem Brings.dir_iff (hr : t.get? (S ++ r) = some (.file c)) :
    u.get? (T ++ r) = some .dir ↔ t.get? (T ++ r) = some .dir := by
  refine ⟨fun hdir => ?_, fun hdir => h.edits.grows.dir hdir⟩
  rcases h.edits.get?_eq (T ++ r) with hsame | ⟨c', hdue⟩ | ⟨hD, -, -⟩
  · rw [← hsame, hdir]
  · rcases h.content hdue with hu | hu
    · rw [← hu, hdir]
    · rw [hu] at hdir
      cases hdir
  · exact absurd List.prefix_rfl (hD r c hr)

/-- A file in a directory lies at or below one of its entries. -/
theorem Brings.arrived_of_names (hclear : Clear t S T) (hu : u.WellFormed) (hdir : u.get? (S ++ x) = some .dir)
    (hv : ∀ n ∈ u.sortedNames (S ++ x), Arrived t S T Q (x ++ [n]) v) : Arrived t S T Q x v := by
  intro r c hr
  have hfile := (h.file_iff hclear).mpr hr
  cases r with
  | nil => simp [hdir] at hfile
  | cons n r =>
    have hmem : n ∈ u.sortedNames (S ++ x) := by
      rw [(hu.lists _).mem_iff, ← Option.ne_none_iff_isSome]
      intro hnone
      have hbelow := hu.none_of_none hnone r
      simp only [List.append_assoc, List.singleton_append] at hbelow
      rw [hbelow] at hfile
      cases hfile
    simpa using hv n hmem r c (by simpa using hr)

theorem Brings.unclaimed (hclear : Clear t S T) (hu : u.WellFormed) {ks : List Name}
    (hdir : u.get? (S ++ x) = some .dir) (hks : ks <+: x) : Unclaimed t S T (T ++ ks) := by
  intro r c hr hpre
  have hrx := ((List.prefix_append_right_inj T).mp hpre).trans hks
  have hfile := (h.file_iff hclear).mpr hr
  rw [hu.get?_of_prefix ((List.prefix_append_right_inj S).mpr hrx) hdir] at hfile
  cases hfile

end Brings

section Underway

/-- A copy that is underway: its paths lead where they led, and every step brought files. -/
structure Underway (t : FileTree) (S T : Place) (src : List Char) (Q : Path) (u : FileTree) : Prop where
  source : u.LeadsTo src S
  sourceFree : u.LinkFree S
  target : Ready u Q T
  brings : Brings t S T t u

variable (ht : t.WellFormed) (hclear : Clear t S T) (h : Underway t S T src Q u)

include h in
theorem Underway.step (hb : Brings t S T u v) : Underway t S T src Q v :=
  ⟨h.source.of_grows hb.edits.grows, hb.edits.grows.sameLinks.linkFree h.sourceFree,
    h.target.of_edits hb.edits, h.brings.trans hb⟩

include h in
/-- What a path into the directory leads to stands at the place that it spells. -/
theorem Underway.get?_source {e : Entry} (hx : ∀ n ∈ x, IsName n)
    (hs : u.stat (Path.below src x) = .ok (q, e)) : q = S ++ x ∧ u.get? (S ++ x) = some e := by
  obtain rfl : q = S ++ x := (leadsTo_of_stat hs).unique (h.source.below h.sourceFree hx)
  exact ⟨rfl, get?_of_stat h.target.wellFormed hs⟩

include h in
theorem Underway.file_of_read (hx : ∀ n ∈ x, IsName n) (hpipe : u.isPipe (Path.below src x) = false)
    (hread : u.read (Path.below src x) = .ok c) : u.get? (S ++ x) = some (.file c) := by
  unfold isPipe at hpipe
  unfold read at hread
  cases hs : u.stat (Path.below src x) with
  | error fault => simp [hs, bind, Except.bind] at hread
  | ok found =>
    obtain ⟨q, e⟩ := found
    obtain ⟨rfl, hget⟩ := h.get?_source hx hs
    cases e with
    | file d =>
      simp only [hs, bind, Except.bind, Except.ok.injEq] at hread
      rw [hget, hread]
    | dir => simp [hs, bind, Except.bind] at hread
    | link s => exact absurd hget (h.sourceFree _ (List.prefix_append ..) s)
    | pipe => simp [hs] at hpipe

include ht hclear h

theorem Underway.copyInto (hx : ∀ m ∈ x ++ [n], IsName m)
    (hc : u.copyInto n (Path.below src (x ++ [n])) (Path.below Q.text (x ++ [n])) = ⟨v, none, []⟩) :
    Brings t S T u v ∧ Arrived t S T Q (x ++ [n]) v := by
  obtain ⟨w, hcopied, rfl⟩ := Replay.copyInto_eq_ok_iff.mp hc
  obtain ⟨-, hpipe, -, c, hread, -⟩ := Replay.copyFile_eq_ok_iff.mp hcopied
  have hfile := (h.brings.file_iff hclear).mp (h.file_of_read hx hpipe hread)
  have hcome : ∀ {ms}, (∀ m ∈ ms, IsName m) → landing t T (x ++ [n]) = ms →
      u.copyFile (Path.below src (x ++ [n])) (Path.below Q.text ms) = .ok w →
      Brings t S T u (w.copyLock (Path.below src (x ++ [n])) (Path.below Q.text ms)) ∧
        Arrived t S T Q (x ++ [n]) (w.copyLock (Path.below src (x ++ [n])) (Path.below Q.text ms)) := by
    rintro ms hms rfl hcopy
    obtain ⟨d, hread', hedits, hstat⟩ := h.target.copyLock_below hms hcopy
    obtain rfl : c = d := Except.ok.inj (hread.symm.trans hread')
    have hv := get?_of_stat (hedits.wellFormed h.target.wellFormed) hstat
    exact ⟨brings_of_file ht hfile hedits hv, arrived_of_file ht hfile hstat⟩
  cases hdir : u.isDir (Path.below Q.text (x ++ [n])) with
  | true =>
    -- a directory in the way was there from the start
    have hplace : u.get? (T ++ (x ++ [n])) = some .dir := by
      unfold isDir at hdir
      split at hdir
      · next q hs =>
        obtain rfl := h.target.place_of_stat hx hs
        exact get?_of_stat h.target.wellFormed hs
      · cases hdir
    simp only [hdir, ↓reduceIte, show Path.joined (Path.below Q.text (x ++ [n])) n =
      Path.below Q.text (x ++ [n] ++ [n]) by simp [Path.below]] at hcopied ⊢
    refine hcome ?_ ?_ hcopied
    · simpa [or_imp, forall_and] using hx
    · rw [landing_of_dir ((h.brings.dir_iff hfile).mp hplace)]
      simp
  | false =>
    simp only [hdir, Bool.false_eq_true, ↓reduceIte] at hcopied ⊢
    refine hcome hx (landing_of_not_dir fun hplace => ?_) hcopied
    -- what was written is no directory, and directories stay
    obtain ⟨d, -, hedits, hstat⟩ := h.target.copyFile_below hx hcopied
    have hv := get?_of_stat (hedits.wellFormed h.target.wellFormed) hstat
    rw [(h.brings.edits.grows.trans hedits.grows).dir hplace] at hv
    cases hv

/-- A copy of directories that brings all files below. -/
def BringsBelow (t : FileTree) (S T : Place) (src : List Char) (Q : Path)
    (copy : FileTree → List Char → List Char → Copied) : Prop :=
  ∀ {u v x}, Underway t S T src Q u → (∀ n ∈ x, IsName n) →
    copy u (Path.below src x) (Path.below Q.text x) = ⟨v, none, []⟩ →
    Brings t S T u v ∧ Arrived t S T Q x v

theorem Underway.copyEntry {copy : FileTree → List Char → List Char → Copied}
    (hcopy : BringsBelow t S T src Q copy) (hx : ∀ m ∈ x ++ [n], IsName m)
    (hc : copyEntry copy (Path.below src x) (Path.below Q.text x) ⟨u, none, []⟩ n = ⟨v, none, []⟩) :
    Brings t S T u v ∧ Arrived t S T Q (x ++ [n]) v := by
  have hjoined : ∀ p, Path.joined (Path.below p x) n = Path.below p (x ++ [n]) := by simp [Path.below]
  rw [Replay.copyEntry_eq_ok_iff, hjoined, hjoined] at hc
  split at hc
  · exact hcopy h hx hc
  · exact h.copyInto ht hclear hx hc

theorem Underway.foldl_copyEntry {copy : FileTree → List Char → List Char → Copied} {names : List Name}
    (hcopy : BringsBelow t S T src Q copy) (hx : ∀ m ∈ x, IsName m) (hnames : ∀ n ∈ names, IsName n)
    (hc : names.foldl (FileTree.copyEntry copy (Path.below src x) (Path.below Q.text x)) ⟨u, none, []⟩ =
      ⟨v, none, []⟩) :
    Brings t S T u v ∧ ∀ n ∈ names, Arrived t S T Q (x ++ [n]) v := by
  induction names generalizing u with
  | nil =>
    cases hc
    exact ⟨.refl .., by simp⟩
  | cons n names ih =>
    rw [List.foldl_cons] at hc
    obtain ⟨w, hstep⟩ : ∃ w, FileTree.copyEntry copy (Path.below src x) (Path.below Q.text x) ⟨u, none, []⟩ n =
        ⟨w, none, []⟩ :=
      ⟨_, congrArg (Copied.mk _ none) (Replay.faults_foldl (congrArg Copied.faults hc))⟩
    rw [hstep] at hc
    have hall : ∀ m ∈ x ++ [n], IsName m := by
      simpa [or_imp, forall_and] using ⟨hx, hnames n List.mem_cons_self⟩
    obtain ⟨hbrings, harrived⟩ := h.copyEntry ht hclear hcopy hall hstep
    have hw := h.step hbrings
    obtain ⟨hrest, hlater⟩ := ih hw (fun m hm => hnames m (List.mem_cons_of_mem _ hm)) hc
    exact ⟨hbrings.trans hrest, List.forall_mem_cons.mpr ⟨hrest.arrived hw.target.wellFormed harrived, hlater⟩⟩

omit h in
theorem bringsBelow_copyDirFrom (depth : Nat) : BringsBelow t S T src Q (copyDirFrom depth) := by
  induction depth with
  | zero =>
    intro u v x _ _ hc
    simp [copyDirFrom] at hc
  | succ depth ih =>
    intro u v x h hx hc
    rw [copyDirFrom] at hc
    cases hlist : u.list (Path.below src x) with
    | error fault => simp [hlist] at hc
    | ok names =>
      obtain ⟨q, hs, -, rfl⟩ := list_eq_ok_iff.mp hlist
      obtain ⟨rfl, hdir⟩ := h.get?_source hx hs
      simp only [hlist] at hc
      cases hfault : (u.makeDirs (Path.below Q.text x)).fault with
      | some fault => simp [hfault] at hc
      | none =>
        simp only [hfault] at hc
        have hmade : Brings t S T u (u.makeDirs (Path.below Q.text x)).tree := by
          refine brings_of_dirs ((h.target.makeDirs_below hx).imp (fun _ hr => hr) ?_)
          rintro _ - ⟨ks, hks, rfl⟩
          exact h.brings.unclaimed hclear h.target.wellFormed hdir hks
        obtain ⟨hrest, hall⟩ := (h.step hmade).foldl_copyEntry ht hclear ih hx
          (isName_of_list h.target.wellFormed hlist) hc
        exact ⟨hmade.trans hrest, h.brings.arrived_of_names hclear h.target.wellFormed hdir hall⟩

end Underway

/-- A directory that is copied without faults: each file is where it goes, and nothing else changed but
that directories were made. -/
theorem copyDir_brings (ht : t.WellFormed) (hQ : Q.Rooted) (hsrc : t.stat src = .ok (S, .dir))
    (hS : t.LinkFree S) (hto : t.LeadsTo Q.text T) (hT : t.LinkFree T) (hclear : Clear t S T)
    (hc : t.copyDir src Q.text = ⟨v, none, []⟩) : Brings t S T t v ∧ Arrived t S T Q [] v := by
  have hdir := get?_of_stat ht hsrc
  rw [copyDir, maxDepth, copyDirFrom] at hc
  split at hc
  · simp at hc
  next names hlist =>
  obtain ⟨q, hq, -, rfl⟩ := list_eq_ok_iff.mp hlist
  obtain ⟨rfl, -⟩ := Prod.mk.inj (Except.ok.inj (hsrc.symm.trans hq))
  dsimp only at hc
  cases hfault : (t.makeDirs Q.text).fault with
  | some fault => simp [hfault] at hc
  | none =>
    simp only [hfault] at hc
    obtain ⟨T', hT', hready⟩ := ready_of_makeDirs ht hQ hfault fun q hq => hq.unique hto ▸ hT
    obtain rfl := hT'.unique hto
    have hmade : Brings t S T' t (t.makeDirs Q.text).tree := by
      refine brings_of_dirs ((FileTree.makeDirs_edits ht hQ).imp (fun _ hr => hr) ?_)
      rintro q hnone ⟨ms, ⟨ks, hms⟩, hl⟩ r c hr hpre
      -- what is made lies on the way to the directory, not below it
      have hks : ∀ k ∈ ks, IsName k := fun k hk => hQ.names k (by simp [← hms, hk])
      have hend := hl.append (leads_of_linkFree (linkFree_of_none ht hnone) hks)
      rw [hms] at hend
      obtain rfl := ((leadsTo_text_iff hQ).mp hto).unique hend
      have hlen := hpre.length_le
      simp only [List.length_append] at hlen
      obtain rfl : r = [] := List.length_eq_zero_iff.mp (by omega)
      simp [hdir] at hr
    have hunderway : Underway t S T' src Q (t.makeDirs Q.text).tree :=
      ⟨(leadsTo_of_stat hsrc).of_grows hmade.edits.grows,
        hmade.edits.grows.sameLinks.linkFree hS, hready, hmade⟩
    obtain ⟨hrest, hall⟩ := hunderway.foldl_copyEntry ht hclear (bringsBelow_copyDirFrom ht hclear 4095)
      (x := []) (by simp) (isName_of_list ht hlist) hc
    have hdir' : t.get? (S ++ []) = some .dir := by rwa [List.append_nil]
    refine ⟨hmade.trans hrest, (Brings.refl t S T' t).arrived_of_names hclear ht hdir' ?_⟩
    rwa [List.append_nil]

end Marginalia.FileTree
