import Marginalia.Proofs.FileTree.Below
import Marginalia.Proofs.FileTree.Replay

/-! # Filling a new directory

A directory that did not exist and was made is empty. What is copied or written into it stands at the
place that its path spells, and a file is never in the way of another one's directory.
-/
namespace Marginalia.FileTree

open Text

variable {t u : FileTree} {path source : List Char} {q O : Place} {n : Name} {ns : List Name} {P : Path}

section Missing

theorem has_of_stat {e : Entry} (h : t.stat path = .ok (q, e)) : t.has path = true := by
  simp [has, h]

theorem has_of_isDir (h : t.isDir path = true) : t.has path = true := by
  unfold isDir at h
  split at h
  · next hs => exact has_of_stat hs
  · simp at h

theorem isDir_makeLast (h : (t.makeLast path).fault ≠ none) :
    (t.makeLast path).tree.isDir path = false := by
  unfold makeLast at h ⊢
  cases hm : t.makeDir path with
  | ok u => simp [hm] at h
  | error fault => simpa [hm] using h

/-- A directory whose path led nowhere stood nowhere before it was made. -/
theorem makeLast_missing (ht : t.WellFormed) (hP : P.Rooted) (hmiss : t.has P.text = false)
    (h : (t.makeLast P.text).fault = none) (hq : t.Leads [] P.segments q) : t.get? q = none := by
  unfold makeLast at h
  cases hm : t.makeDir P.text with
  | error fault =>
    simp only [hm, ite_eq_left_iff, reduceCtorEq, imp_false, Bool.not_eq_true, Bool.not_eq_false] at h
    rw [has_of_isDir h] at hmiss
    simp at hmiss
  | ok u =>
    rw [makeDir] at hm
    cases hl : t.locate P.text false with
    | error fault => simp [hl, bind, Except.bind] at hm
    | ok g =>
      cases g with
      | found => simp [hl, bind, Except.bind] at hm
      | free p n slash =>
        obtain ⟨-, -, hl'⟩ := (locate_text_iff hP).mp hl
        rw [hq.unique (hl'.leads (Or.inr ⟨_, _, _, rfl⟩))]
        exact (holds_of_locate ht hl).2.1

theorem has_root {r : Root} (ht : t.WellFormed) (hP : Path.Rooted ⟨r, []⟩) :
    t.has (Path.text ⟨r, []⟩) = true := by
  have hmade : t.makeDirs (Path.text ⟨r, []⟩) = ⟨t, none⟩ := by
    rw [makeDirs, Path.parse_text hP.spelled]
    rfl
  obtain ⟨q, hq⟩ := stat_makeDirs ht hP (congrArg Changed.fault hmade)
  rw [hmade] at hq
  exact has_of_stat hq

/-- A path that leads anywhere has a directory around it. -/
theorem isDir_of_has (hP : P.Rooted) (hn : IsName n) (h : t.has (Path.joined P.text n) = true) :
    t.isDir P.text = true := by
  unfold has at h
  split at h
  · next x hx =>
    obtain ⟨q, e⟩ := x
    obtain ⟨-, o, ho, -, -⟩ := stat_of_locate_joined hP hn (stat_eq_ok_iff.mp hx)
    simp [isDir, ho]
  · simp at h

theorem isDir_makeDirsFrom {r : Root} {file : List Char}
    (h : (t.makeDirsFrom r ns).fault = some (.refused .exists file)) :
    (t.makeDirsFrom r ns).tree.isDir (Path.text ⟨r, ns.reverse⟩) = false := by
  cases ns with
  | nil => simp [makeDirsFrom] at h
  | cons n ns =>
    rcases makeDirsFrom_cases t r n ns with hcase | hcase | hcase
    · rw [hcase] at h ⊢
      refine isDir_makeLast fun hnone => ?_
      rw [hnone] at h
      cases h
    · rw [hcase] at h ⊢
      refine isDir_makeLast fun hnone => ?_
      rw [hnone] at h
      cases h
    · exact absurd (hcase.1 ▸ h) (hcase.2.2 file)

/-- Directories are made where none stood, if their path led nowhere. -/
theorem makeDirsFrom_missing (ht : t.WellFormed) {r : Root} (hP : Path.Rooted ⟨r, ns.reverse⟩)
    (hmiss : t.has (Path.text ⟨r, ns.reverse⟩) = false) (h : (t.makeDirsFrom r ns).fault = none)
    (hq : t.Leads [] ns.reverse q) : t.get? q = none := by
  induction ns generalizing q with
  | nil =>
    rw [List.reverse_nil] at hP hmiss
    simp [has_root ht hP] at hmiss
  | cons n ns ih =>
    have hshort : Path.Rooted ⟨r, ns.reverse⟩ :=
      ⟨hP.root, fun m hm => hP.names m (by simp [List.mem_reverse.mp hm])⟩
    have hn : IsName n := hP.names n (by simp)
    have houter := makeDirsFrom_edits ht hshort
    rw [makeDirsFrom] at h
    split at h
    · exact makeLast_missing ht hP hmiss h hq
    · next hhas =>
      dsimp only at h
      split at h
      · -- the directory around was missing, so it had no entries
        next hnone =>
        obtain ⟨o, ho, -⟩ := makeDirsFrom_made ht hshort hnone
        have hmissing := ih hshort (by simpa using hhas) hnone ho
        have hname : ∀ m ∈ [n], IsName m := by simpa using hn
        have hlast := leads_of_linkFree (linkFree_of_none ht hmissing) hname
        rw [List.reverse_cons] at hq
        rw [hq.unique (ho.append hlast)]
        exact ht.none_of_none hmissing [n]
      · -- what is around is no directory, so the path led nowhere
        next hexists =>
        have hdir := isDir_makeDirsFrom hexists
        have hmiss' : (t.makeDirsFrom r ns).tree.has (Path.text ⟨r, (n :: ns).reverse⟩) = false := by
          rw [← Bool.not_eq_true]
          intro hhas'
          rw [isDir_of_has hshort hn (by rwa [Path.joined_text hshort hn, ← List.reverse_cons])] at hdir
          simp at hdir
        have hleads := hq.of_sameLinks houter.grows.sameLinks
        exact houter.grows.none_of_none
          (makeLast_missing (houter.wellFormed ht) hP hmiss' h hleads)
      · next fault hfault => exact absurd h (by rw [hfault]; simp)

end Missing

section Fresh

/-- A directory that is ready and empty, where nothing stood before. -/
structure Fresh (t u : FileTree) (P : Path) (O : Place) : Prop where
  ready : Ready u P O
  missing : t.get? O = none
  empty : ∀ n ns, u.get? (O ++ n :: ns) = none

/-- A directory whose path led nowhere is fresh once it is made. -/
theorem fresh_of_makeDirs (ht : t.WellFormed) (hP : P.Rooted) (hmiss : t.has P.text = false)
    (h : t.makeDirs P.text = ⟨u, none⟩) : ∃ O, t.LeadsTo P.text O ∧ Fresh t u P O := by
  have hnone : ∀ q, t.LeadsTo P.text q → t.get? q = none := by
    intro q hq
    have hq' := (leadsTo_text_iff hP).mp hq
    rw [makeDirs, Path.parse_text hP.spelled] at h
    have hback : P = ⟨P.root, P.segments.reverse.reverse⟩ := by rw [List.reverse_reverse]
    rw [hback] at hP hmiss hq'
    exact makeDirsFrom_missing ht hP hmiss (congrArg Changed.fault h) hq'
  obtain ⟨O, hO, hready⟩ := ready_of_makeDirs ht hP (congrArg Changed.fault h) fun q hq =>
    linkFree_of_none ht (hnone q hq)
  have hmissing := hnone O hO
  have hedits := FileTree.makeDirs_edits ht hP
  rw [h] at hready hedits
  refine ⟨O, hO, hready, hmissing, fun n ns => ?_⟩
  have hbelow := ht.none_of_none hmissing (n :: ns)
  rcases hedits.get?_eq (O ++ n :: ns) with hsame | hF | ⟨⟨ms, ⟨ks, hms⟩, hl⟩, -, -⟩
  · rw [hsame, hbelow]
  · exact hF.elim
  · -- a way that went below the directory would not end at it
    have hks : ∀ k ∈ ks, IsName k := fun k hk => hP.names k (by simp [← hms, hk])
    have hend := hl.append (leads_of_linkFree (linkFree_of_none ht hbelow) hks)
    rw [hms] at hend
    have hlen := congrArg List.length (((leadsTo_text_iff hP).mp hO).unique hend)
    simp at hlen

end Fresh

section Inside

variable {follow : Bool} {links : Nat} {p place : Place} {e f : Entry}

theorem Located.concat (h : Located t true links p ns (.found q .dir)) (hq : t.get? q = some .dir)
    (hn : Fits n) (he : t.get? (q ++ [n]) = some e) (hlink : ∀ s, e ≠ .link s) :
    Located t true links p (ns ++ [n]) (.found (q ++ [n]) e) := by
  generalize hgoal : Target.found q .dir = g at h
  induction h with
  | here links p =>
    obtain rfl : q = p := congrArg Target.place hgoal
    exact .name hq hn he hlink (.here_of he)
  | stay hp hm _ ih => exact .stay hp hm (ih hgoal)
  | up hp _ ih => exact .up hp (ih hgoal)
  | name hp hm hf hl _ ih => exact .name hp hm hf hl (ih hgoal)
  | free => simp at hgoal
  | unfollowed _ _ _ hf => simp at hf
  | link hp hm hf _ hs _ ih =>
    rw [List.append_assoc] at ih
    exact .link hp hm hf (Or.inr rfl) hs (ih hgoal)

/-- A path into a directory that leads anywhere leads to what the directory holds. -/
theorem eq_of_stat_joined (hP : P.Rooted) (hn : IsName n) (hdir : t.stat P.text = .ok (place, .dir))
    (he : t.get? (place ++ [n]) = some e) (hlink : ∀ s, e ≠ .link s)
    (h : t.stat (Path.joined P.text n) = .ok (q, f)) : q = place ++ [n] ∧ f = e := by
  obtain ⟨links, o, ho, -, hl⟩ := stat_of_locate_joined hP hn (stat_eq_ok_iff.mp h)
  rw [hdir] at ho
  cases ho
  cases hl with
  | stay _ hm _ =>
    rcases hm with hm | hm
    · exact absurd hm hn.ne_nil
    · exact absurd hm hn.ne_here
  | up => exact absurd rfl hn.ne_up
  | name _ _ hf _ hrest =>
    rw [he] at hf
    cases hf
    cases hrest
    exact ⟨rfl, by simp [he]⟩
  | unfollowed _ _ _ hfollow => simp at hfollow
  | link _ _ hf _ _ _ => exact absurd (Option.some.inj (he.symm.trans hf)) (hlink _)

/-- A directory that one path can look into can be looked into by every path that is no longer. -/
theorem stat_joined_of_stat {m : Name} (ht : t.WellFormed) (hP : P.Rooted) (hm : IsName m) (hn : Fits n)
    (hdir : t.stat P.text = .ok (place, .dir)) (he : t.get? (place ++ [n]) = some e)
    (hlink : ∀ s, e ≠ .link s) (hlen : byteLength n ≤ byteLength m)
    (h : t.stat (Path.joined P.text m) = .ok (q, f)) :
    t.stat (Path.joined P.text n) = .ok (place ++ [n], e) := by
  have hname := ht.isFileName (Option.isSome_of_mem he)
  have hrooted (k : Name) (hk : IsName k) : Path.Rooted ⟨P.root, P.segments ++ [k]⟩ :=
    hP.append (by simpa using hk)
  have hspell (k : Name) (hk : IsName k) : Path.text ⟨P.root, P.segments ++ [k]⟩ =
      Path.joined P.text [] ++ k := by
    rw [← Path.joined_text hP hk, Path.joined_append (by simp) k hk.head_ne_slash, List.nil_append]
  rw [Path.joined_text hP hm] at h
  obtain ⟨h0, hshort, -⟩ := (locate_text_iff (hrooted m hm)).mp (stat_eq_ok_iff.mp h)
  obtain ⟨-, -, hl⟩ := (locate_text_iff hP).mp (stat_eq_ok_iff.mp hdir)
  rw [Path.joined_text hP hname.toIsName, stat_eq_ok_iff]
  refine (locate_text_iff (hrooted n hname.toIsName)).mpr ⟨?_, ?_, ?_⟩
  · rw [hspell m hm, List.mem_append, not_or] at h0
    rw [hspell n hname.toIsName, List.mem_append, not_or]
    exact ⟨h0.1, hname.no_nul⟩
  · rw [hspell m hm, byteLength_append] at hshort
    rw [hspell n hname.toIsName, byteLength_append]
    omega
  · exact hl.concat (get?_of_stat ht hdir) hn he hlink

end Inside

section Copy

variable (h : Ready t P O) (hns : ∀ m ∈ ns, IsName m)
include h hns

/-- A file that is copied is a file with its content at the target, and nothing else is edited. -/
theorem Ready.copyFile_below (hc : t.copyFile source (Path.below P.text ns) = .ok u) :
    ∃ c, t.read source = .ok c ∧ Edits (· = O ++ ns) Nowhere t u ∧
      u.stat (Path.below P.text ns) = .ok (O ++ ns, .file c) := by
  obtain ⟨-, -, hpipe, c, hread, hwrite⟩ := Replay.copyFile_eq_ok_iff.mp hc
  obtain ⟨hedits, hfile | ⟨hstat, hget⟩⟩ := h.write_below hns hwrite
  · exact ⟨c, hread, hedits, hfile⟩
  · -- nothing is copied onto a pipe
    rcases write_cases h.wellFormed hwrite with ⟨p, n, -, -, hu, -⟩ | ⟨rfl, -⟩
    · simp [hstat] at hu
    · simp [isPipe, hstat] at hpipe

/-- The same holds of a copy that gets what the user may do to its source. -/
theorem Ready.copyLock_below (hc : t.copyFile source (Path.below P.text ns) = .ok u) :
    ∃ c, t.read source = .ok c ∧
      Edits (· = O ++ ns) Nowhere t (u.copyLock source (Path.below P.text ns)) ∧
      (u.copyLock source (Path.below P.text ns)).stat (Path.below P.text ns) = .ok (O ++ ns, .file c) := by
  obtain ⟨c, hread, hedits, hstat⟩ := h.copyFile_below hns hc
  have hu := h.of_edits hedits
  have hlocked : Edits (u.LeadsTo (Path.below P.text ns)) Nowhere u _ := copyLock_edits hu.wellFormed source
  exact ⟨c, hread, hedits.trans (hlocked.imp (fun r hr => hu.leadsTo hns hr) fun _ _ hr => hr),
    stat_copyLock hu.wellFormed hstat⟩

/-- Copying a file edits nothing but what lies at or below its target. -/
theorem Ready.copyInto_below (hn : IsName n) (source : List Char) :
    Edits (Below (O ++ ns)) Nowhere t (t.copyInto n source (Path.below P.text ns)).tree := by
  obtain ⟨ks, hks, htarget⟩ : ∃ ks, (∀ m ∈ ns ++ ks, IsName m) ∧
      (if t.isDir (Path.below P.text ns) then Path.joined (Path.below P.text ns) n
        else Path.below P.text ns) = Path.below P.text (ns ++ ks) := by
    split
    · exact ⟨[n], by simpa [or_imp, forall_and] using ⟨hns, hn⟩, by simp [Path.below]⟩
    · exact ⟨[], by simpa using hns, by simp⟩
  rw [copyInto, htarget]
  cases hc : t.copyFile source (Path.below P.text (ns ++ ks)) with
  | error fault => cases fault <;> exact .refl
  | ok u =>
    obtain ⟨c, -, hedits, -⟩ := h.copyLock_below hks hc
    refine hedits.imp (fun r hr => ?_) fun _ _ hr => hr
    rw [hr, ← List.append_assoc]
    exact List.prefix_append ..

/-- Copying a directory edits nothing but what lies at or below its target, and makes directories on
the way to it. -/
theorem Ready.copyDirFrom_below (depth : Nat) (source : List Char) :
    Edits (Below (O ++ ns)) (fun r => Below (O ++ ns) r ∨ r <+: O ++ ns) t
      (copyDirFrom depth t source (Path.below P.text ns)).tree := by
  cases depth with
  | zero => exact .refl
  | succ depth =>
    rw [copyDirFrom]
    cases hlist : t.list source with
    | error fault => exact .refl
    | ok names =>
      have hmade : Edits (Below (O ++ ns)) (fun r => Below (O ++ ns) r ∨ r <+: O ++ ns) t
          (t.makeDirs (Path.below P.text ns)).tree := by
        refine (h.makeDirs_below hns).imp (fun _ hr => hr.elim) ?_
        rintro r - ⟨ks, hks, rfl⟩
        exact Or.inr ((List.prefix_append_right_inj O).mpr hks)
      dsimp only
      split
      · exact hmade
      · next hfault =>
        -- from now on the target is ready itself
        have hP := h.rooted.append hns
        rw [Path.below_text h.rooted hns] at hfault hmade ⊢
        obtain ⟨q, hq, hready⟩ := ready_of_makeDirs h.wellFormed hP hfault fun q hq s hs => by
          rw [← Path.below_text h.rooted hns] at hq
          rw [h.leadsTo hns hq] at hs
          exact h.linkFree s ((List.prefix_append ..).trans hs)
        rw [← Path.below_text h.rooted hns] at hq
        obtain rfl := h.leadsTo hns hq
        have hrest := @Ready.foldl_copyEntry_edits _ _ _ [] _
          ⟨(t.makeDirs (Path.text ⟨P.root, P.segments ++ ns⟩)).tree, none, []⟩ hready
          (copies_copyDirFrom _ _ depth) (by simp) (isName_of_list h.wellFormed hlist) source
        exact hmade.trans (hrest.imp (fun _ hr => hr) fun _ _ hr => Or.inl hr)

theorem Ready.get?_copyEntry {m : Name} (hm : IsName m) (hne : n ≠ m) (depth : Nat) (source : List Char) :
    (copyEntry (copyDirFrom depth) source (Path.below P.text ns) ⟨t, none, []⟩ m).tree.get?
      (O ++ (ns ++ [n])) = t.get? (O ++ (ns ++ [n])) := by
  have hto : Path.joined (Path.below P.text ns) m = Path.below P.text (ns ++ [m]) := by
    simp [Path.below]
  have hall : ∀ k ∈ ns ++ [m], IsName k := by simpa [or_imp, forall_and] using ⟨hns, hm⟩
  have hedits : Edits (Below (O ++ (ns ++ [m])))
      (fun r => Below (O ++ (ns ++ [m])) r ∨ r <+: O ++ (ns ++ [m])) t
      (copyEntry (copyDirFrom depth) source (Path.below P.text ns) ⟨t, none, []⟩ m).tree := by
    simp only [copyEntry, hto]
    split
    · exact h.copyDirFrom_below hall depth _
    · exact (h.copyInto_below hall hm _).imp (fun _ hr => hr) fun _ _ hr => hr.elim
  have hapart : ∀ {k l : Name}, O ++ (ns ++ [k]) <+: O ++ (ns ++ [l]) → k = l := by
    intro k l hkl
    have heq := hkl.eq_of_length (by simp)
    simpa using heq
  rcases hedits.get?_eq (O ++ (ns ++ [n])) with hsame | hF | ⟨hF | hD, -, -⟩
  · exact hsame
  · exact absurd (hapart hF).symm hne
  · exact absurd (hapart hF).symm hne
  · exact absurd (hapart hD) hne

/-- A file that is copied to a place where nothing stands is a file there. -/
theorem Ready.copyEntry_file (hn : IsName n) {depth : Nat}
    (hsource : t.isDir (Path.joined source n) = false) (hfree : t.get? (O ++ (ns ++ [n])) = none)
    (hc : copyEntry (copyDirFrom depth) source (Path.below P.text ns) ⟨t, none, []⟩ n = ⟨u, none, []⟩) :
    ∃ c, u.stat (Path.below P.text (ns ++ [n])) = .ok (O ++ (ns ++ [n]), .file c) := by
  have hto : Path.joined (Path.below P.text ns) n = Path.below P.text (ns ++ [n]) := by
    simp [Path.below]
  have hall : ∀ k ∈ ns ++ [n], IsName k := by simpa [or_imp, forall_and] using ⟨hns, hn⟩
  have hnone : t.isDir (Path.below P.text (ns ++ [n])) = false := by
    rw [← Bool.not_eq_true]
    intro hd
    unfold isDir at hd
    split at hd
    · next place hs =>
      rw [h.place_of_stat hall hs] at hs
      simp [get?_of_stat h.wellFormed hs] at hfree
    · simp at hd
  rw [Replay.copyEntry_eq_ok_iff, hsource, if_neg (by simp), hto, copyInto, hnone, if_neg (by simp)] at hc
  split at hc
  · next v hv =>
    cases hc
    obtain ⟨c, -, -, hstat⟩ := h.copyLock_below hall hv
    exact ⟨c, hstat⟩
  · simp at hc
  · simp at hc

/-- Copying the entries of a directory to where none of them stands copies its files. -/
theorem Ready.foldl_copyEntry_file {S : Path} (hS : S.Rooted) {names : List Name} {place : Place}
    {d : ByteArray} {depth : Nat} (hnames : ∀ m ∈ names, IsName m) (hn : n ∈ names)
    (hdir : t.stat S.text = .ok (place, .dir)) (hfile : t.get? (place ++ [n]) = some (.file d))
    (hfree : t.get? (O ++ (ns ++ [n])) = none)
    (hc : names.foldl (copyEntry (copyDirFrom depth) S.text (Path.below P.text ns)) ⟨t, none, []⟩ =
      ⟨u, none, []⟩) :
    ∃ c, u.stat (Path.below P.text (ns ++ [n])) = .ok (O ++ (ns ++ [n]), .file c) := by
  induction names generalizing t d with
  | nil => simp at hn
  | cons m names ih =>
    have hm : IsName m := hnames m List.mem_cons_self
    have hrest : ∀ k ∈ names, IsName k := fun k hk => hnames k (List.mem_cons_of_mem _ hk)
    rw [List.foldl_cons] at hc
    obtain ⟨v, hstep⟩ : ∃ v, copyEntry (copyDirFrom depth) S.text (Path.below P.text ns) ⟨t, none, []⟩ m =
        ⟨v, none, []⟩ :=
      ⟨_, congrArg (Copied.mk _ none) (Replay.faults_foldl (congrArg Copied.faults hc))⟩
    have hedits : Edits (Below O) (Below O) t v := by
      have hentry := @Ready.copyEntry_edits _ _ _ _ ⟨t, none, []⟩ _ h (copies_copyDirFrom P O depth) hns hm
        S.text
      rwa [hstep] at hentry
    rw [hstep] at hc
    have hv := h.of_edits hedits
    -- the file is copied in its own turn and left alone in all others
    by_cases hnm : n = m
    · subst hnm
      have hsource : t.isDir (Path.joined S.text n) = false := by
        unfold isDir
        split
        · next hs => simpa using (eq_of_stat_joined hS hm hdir hfile (by simp) hs).2
        · rfl
      obtain ⟨c, hstat⟩ := h.copyEntry_file hns hm hsource hfree hstep
      have hlater : Edits (Below O) (Below O) v u := by
        have hentries := @Ready.foldl_copyEntry_edits _ _ _ _ _ ⟨v, none, []⟩ hv
          (copies_copyDirFrom P O depth) hns hrest S.text
        rwa [hc] at hentries
      obtain ⟨f, hf, hshape⟩ := stat_of_grows hv.wellFormed hlater.grows hstat
      obtain ⟨c', rfl⟩ := Entry.exists_file_of_shape hshape
      exact ⟨c', hf⟩
    · have hframe := h.get?_copyEntry hns hm hnm depth S.text
      rw [hstep, hfree] at hframe
      obtain ⟨f, hf, hshape⟩ := stat_of_grows h.wellFormed hedits.grows hdir
      obtain rfl := Entry.eq_of_shape_eq hshape (by simp)
      obtain ⟨d', hd'⟩ := hedits.grows.file hfile
      exact ih hv hrest ((List.mem_cons.mp hn).resolve_left hnm) hf hd' hframe hc

/-- A file of a directory that is copied to where nothing stands is a file of the copy. -/
theorem Ready.copyDir_file {S : Path} (hS : S.Rooted) {place : Place} {d : ByteArray}
    (hfree : t.get? (O ++ ns) = none) (hdir : t.stat S.text = .ok (place, .dir))
    (hfile : t.get? (place ++ [n]) = some (.file d))
    (hc : t.copyDir S.text (Path.below P.text ns) = ⟨u, none, []⟩) :
    ∃ c, u.stat (Path.below P.text (ns ++ [n])) = .ok (O ++ (ns ++ [n]), .file c) := by
  have hmem : n ∈ t.sortedNames place := ((h.wellFormed.lists place).mem_iff n).mpr (by simp [hfile])
  have hmade := h.makeDirs_below hns
  rw [copyDir, maxDepth, copyDirFrom] at hc
  split at hc
  · simp at hc
  next names hlist =>
  obtain ⟨q, hq, -, rfl⟩ := list_eq_ok_iff.mp hlist
  obtain ⟨rfl, -⟩ := Prod.mk.inj (Except.ok.inj (hdir.symm.trans hq))
  dsimp only at hc
  split at hc
  · simp at hc
  · obtain ⟨f, hf, hshape⟩ := stat_of_grows h.wellFormed hmade.grows hdir
    obtain rfl := Entry.eq_of_shape_eq hshape (by simp)
    obtain ⟨d', hd'⟩ := hmade.grows.file hfile
    have hfree' : (t.makeDirs (Path.below P.text ns)).tree.get? (O ++ (ns ++ [n])) = none := by
      have hnone := h.wellFormed.none_of_none hfree [n]
      rw [List.append_assoc] at hnone
      rcases hmade.get?_eq (O ++ (ns ++ [n])) with hsame | hF | ⟨⟨ks, hks, heq⟩, -, -⟩
      · rw [hsame, hnone]
      · exact hF.elim
      · have hlen := hks.length_le
        rw [← List.append_cancel_left heq] at hlen
        simp at hlen
    exact (h.of_edits hmade).foldl_copyEntry_file hns hS (isName_of_list h.wellFormed hlist) hmem hf hd'
      hfree' hc

end Copy

end Marginalia.FileTree
