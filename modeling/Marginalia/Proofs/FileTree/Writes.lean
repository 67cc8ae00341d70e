import Mathlib.Data.List.Basic
import Mathlib.Data.List.Infix
import Marginalia.FileTree.Change
import Marginalia.Proofs.FileTree.Edits

/-! # What changes of a file tree edit

Writing a file edits the place its path leads to; making directories edits the places that the
beginnings of their path lead to. Below a directory that exists and holds no links, every such place
lies below it.
-/
namespace Marginalia.FileTree

open Text

variable {t u : FileTree} {path : List Char} {p q : Place} {P : Path}

/-- No place. -/
def Nowhere (_ : Place) : Prop := False

section Single

theorem exists_concat_of_get? {e : Entry} (h : t.get? p = some e) (he : e ≠ .dir) :
    ∃ r n, p = r ++ [n] := by
  rcases List.eq_nil_or_concat p with rfl | ⟨r, n, rfl⟩
  · exact absurd (Option.some.inj h).symm he
  · exact ⟨r, n, List.concat_eq_append⟩

variable (ht : t.WellFormed)
include ht

theorem holds_of_locate {follow : Bool} {g : Target} (h : t.locate path follow = .ok g) : g.Holds t := by
  obtain ⟨-, -, -, hl⟩ := locate_eq_ok_iff.mp h
  refine hl.holds ht ?_
  unfold startOf
  split <;> simp [get?_nil, ht.cwd]

theorem puts_of_free {follow slash : Bool} {n : Name} {e : Entry}
    (h : t.locate path follow = .ok (.free p n slash)) (he : (∃ c, e = .file c) ∨ e = .dir) :
    Puts t p n e := by
  obtain ⟨hdir, hnone, -⟩ := holds_of_locate ht h
  obtain ⟨h0, -, -, hl⟩ := locate_eq_ok_iff.mp h
  have hname : IsFileName n := hl.isFileName ht fun m hm =>
    ⟨not_mem_of_mem_splitOn hm, fun hc => h0 (mem_of_mem_slashParts hm hc)⟩
  refine ⟨hdir, hname, ?_⟩
  rcases he with he | he
  · exact Or.inl ⟨he, by simp [hnone]⟩
  · exact Or.inr ⟨he, hnone⟩

omit ht in
theorem leadsTo_of_locate {follow : Bool} {g : Target} (h : t.locate path follow = .ok g)
    (hg : follow = true ∨ ∃ q n slash, g = .free q n slash) : t.LeadsTo path g.place :=
  (locate_eq_ok_iff.mp h).2.2.2.leads hg

/-- Writing a file edits the place that its path leads to. -/
theorem write_edits {content : ByteArray} (h : t.write path content = .ok u) :
    Edits (t.LeadsTo path) Nowhere t u := by
  rw [write] at h
  cases hl : t.locate path true with
  | error fault => simp [hl, bind, Except.bind] at h
  | ok g =>
    have hleads := leadsTo_of_locate hl (Or.inl rfl)
    simp only [hl, bind, Except.bind] at h
    cases g with
    | found place e =>
      have hget : t.get? place = some e := holds_of_locate ht hl
      cases e with
      | file c =>
        dsimp only at h
        split at h
        · simp at h
        cases h
        obtain ⟨r, n, rfl⟩ := exists_concat_of_get? hget (by simp)
        have hsome : (t.get? (r ++ [n])).isSome := by simp [hget]
        refine .file .refl ⟨ht.parent hsome, ht.isFileName hsome, Or.inl ⟨⟨_, rfl⟩, ?_⟩⟩ hleads
        intro f hf
        exact ⟨c, (Option.some.inj (hget.symm.trans hf)).symm⟩
      | dir => simp at h
      -- what takes no content is left as it is
      | link s =>
        cases h
        exact .refl
      | pipe =>
        cases h
        exact .refl
    | free place n slash =>
      cases slash with
      | true => simp at h
      | false =>
        cases h
        exact .file .refl (puts_of_free ht hl (Or.inl ⟨_, rfl⟩)) hleads

/-- Making a directory edits the place that its path leads to. -/
theorem makeDir_edits (h : t.makeDir path = .ok u) : Edits Nowhere (t.LeadsTo path) t u := by
  rw [makeDir] at h
  cases hl : t.locate path false with
  | error fault => simp [hl, bind, Except.bind] at h
  | ok g =>
    simp only [hl, bind, Except.bind] at h
    cases g with
    | found place e => simp at h
    | free place n slash =>
      cases h
      have hleads := leadsTo_of_locate hl (Or.inr ⟨_, _, _, rfl⟩)
      exact .dir .refl (puts_of_free ht hl (Or.inr rfl)) hleads

theorem makeLast_edits : Edits Nowhere (t.LeadsTo path) t (t.makeLast path).tree := by
  rw [makeLast]
  cases h : t.makeDir path with
  | ok u => exact makeDir_edits ht h
  | error fault => exact .refl

theorem copyFile_edits {source target : List Char} (h : t.copyFile source target = .ok u) :
    Edits (t.LeadsTo target) Nowhere t u := by
  rw [copyFile] at h
  split at h
  · simp at h
  · split at h
    · simp at h
    · split at h
      · simp at h
      · cases hr : t.read source with
        | error fault => simp [hr, bind, Except.bind] at h
        | ok content =>
          simp only [hr, bind, Except.bind] at h
          exact write_edits ht h

/-- Locking a file edits the place that its path leads to. -/
theorem lock_edits : Edits (t.LeadsTo path) Nowhere t (t.lock path) := by
  rw [lock]
  split
  · next place c hstat =>
    have hl : t.locate path true = .ok (.found place (.file c)) := stat_eq_ok_iff.mp hstat
    exact .lock .refl (holds_of_locate ht hl) (leadsTo_of_locate hl (Or.inl rfl))
  · exact .refl

theorem copyLock_edits (source : List Char) : Edits (t.LeadsTo path) Nowhere t (t.copyLock source path) := by
  rw [copyLock]
  split
  · exact lock_edits ht
  · exact .refl

end Single

section Directories

/-- The places that the beginnings of a path lead to. -/
def OnWay (t : FileTree) (ns : List Name) (q : Place) : Prop :=
  ∃ ms, ms <+: ns ∧ t.Leads [] ms q

theorem OnWay.of_grows {ns : List Name} (h : OnWay u ns q) (hg : Grows t u) : OnWay t ns q := by
  obtain ⟨ms, hms, hl⟩ := h
  exact ⟨ms, hms, hl.of_sameLinks hg.sameLinks.symm⟩

theorem OnWay.mono {ms ns : List Name} (h : OnWay t ms q) (hms : ms <+: ns) : OnWay t ns q := by
  obtain ⟨ks, hks, hl⟩ := h
  exact ⟨ks, hks.trans hms, hl⟩

theorem makeLast_onWay (ht : t.WellFormed) (hP : P.Rooted) :
    Edits Nowhere (OnWay t P.segments) t (t.makeLast P.text).tree :=
  (makeLast_edits ht).imp (fun _ h => h) fun _ _ hq =>
    ⟨P.segments, List.prefix_rfl, (leadsTo_text_iff hP).mp hq⟩

/-- Directories are made by making the last one, after those around it where these do not exist. -/
theorem makeDirsFrom_cases (t : FileTree) (r : Root) (n : Name) (ns : List Name) :
    t.makeDirsFrom r (n :: ns) = t.makeLast (Path.text ⟨r, (n :: ns).reverse⟩) ∨
      t.makeDirsFrom r (n :: ns) =
        (t.makeDirsFrom r ns).tree.makeLast (Path.text ⟨r, (n :: ns).reverse⟩) ∨
      t.makeDirsFrom r (n :: ns) = t.makeDirsFrom r ns ∧ (t.makeDirsFrom r ns).fault ≠ none ∧
        ∀ file, (t.makeDirsFrom r ns).fault ≠ some (.refused .exists file) := by
  rw [makeDirsFrom]
  split
  · exact Or.inl rfl
  · right
    dsimp only
    split
    · exact Or.inl rfl
    · exact Or.inl rfl
    · next hne h => exact Or.inr ⟨rfl, by simp [h], fun file => by simpa [h] using hne file⟩

/-- Making directories edits places on the way only. -/
theorem makeDirsFrom_edits (ht : t.WellFormed) {r : Root} {ns : List Name}
    (hP : Path.Rooted ⟨r, ns.reverse⟩) :
    Edits Nowhere (OnWay t ns.reverse) t (t.makeDirsFrom r ns).tree := by
  induction ns with
  | nil => exact .refl
  | cons n ns ih =>
    have hshort : Path.Rooted ⟨r, ns.reverse⟩ :=
      ⟨hP.root, fun m hm => hP.names m (by simp [List.mem_reverse.mp hm])⟩
    have houter : Edits Nowhere (OnWay t (n :: ns).reverse) t (t.makeDirsFrom r ns).tree :=
      (ih hshort).imp (fun _ h => h) fun _ _ hq => hq.mono (by simp)
    rcases makeDirsFrom_cases t r n ns with h | h | h
    · rw [h]
      exact makeLast_onWay ht hP
    · rw [h]
      refine houter.trans ((makeLast_onWay (houter.wellFormed ht) hP).imp (fun _ h => h) ?_)
      exact fun q _ hq => hq.of_grows houter.grows
    · rw [h.1]
      exact houter

theorem makeDirs_edits (ht : t.WellFormed) (hP : P.Rooted) :
    Edits Nowhere (OnWay t P.segments) t (t.makeDirs P.text).tree := by
  rw [makeDirs, Path.parse_text hP.spelled]
  have hP' : Path.Rooted ⟨P.root, P.segments.reverse.reverse⟩ := by simpa using hP
  simpa using makeDirsFrom_edits ht hP'

end Directories

section Ready

/-- A directory that exists, free of links, in a well-formed tree. -/
structure Ready (t : FileTree) (P : Path) (q : Place) : Prop where
  wellFormed : t.WellFormed
  rooted : P.Rooted
  leads : t.Leads [] P.segments q
  made : ∀ r, OnWay t P.segments r → (t.get? r).isSome
  linkFree : t.LinkFree q

theorem Ready.of_edits {F D : Place → Prop} (h : Ready t P q) (he : Edits F D t u) : Ready u P q :=
  ⟨he.wellFormed h.wellFormed, h.rooted, h.leads.of_sameLinks he.grows.sameLinks,
    fun r hr => he.grows.isSome (h.made r (hr.of_grows he.grows)),
    he.grows.sameLinks.linkFree h.linkFree⟩

/-- The places at or below a place. -/
def Below (p q : Place) : Prop := p <+: q

theorem Ready.leadsTo {ns : List Name} (h : Ready t P q) (hns : ∀ n ∈ ns, IsName n) {r : Place}
    (hr : t.LeadsTo (Path.below P.text ns) r) : r = q ++ ns := by
  rw [Path.below_text h.rooted hns, leadsTo_text_iff (h.rooted.append hns)] at hr
  exact hr.unique (h.leads.append (leads_of_linkFree h.linkFree hns))

theorem Ready.of_onWay {ns : List Name} (h : Ready t P q) (hns : ∀ n ∈ ns, IsName n) {r : Place}
    (hr : OnWay t (P.segments ++ ns) r) (hnone : t.get? r = none) : Below q r := by
  obtain ⟨ms, hms, hl⟩ := hr
  rcases List.prefix_or_prefix_of_prefix hms (List.prefix_append ..) with hshort | ⟨ks, rfl⟩
  · have := h.made r ⟨ms, hshort, hl⟩
    simp [hnone] at this
  · rw [List.prefix_append_right_inj] at hms
    have hks : ∀ n ∈ ks, IsName n := fun n hn => hns n (hms.subset hn)
    obtain rfl := hl.unique (h.leads.append (leads_of_linkFree h.linkFree hks))
    exact List.prefix_append ..

section Operations

variable (h : Ready t P q) {ns : List Name} (hns : ∀ n ∈ ns, IsName n)
include h hns

theorem Ready.edits_of_leadsTo (he : Edits (t.LeadsTo (Path.below P.text ns)) Nowhere t u) :
    Edits (Below q) (Below q) t u :=
  he.imp (fun r hr => by
    rw [h.leadsTo hns hr]
    exact List.prefix_append ..) fun _ _ hr => hr.elim

theorem Ready.makeDirs_edits :
    Edits (Below q) (Below q) t (t.makeDirs (Path.below P.text ns)).tree := by
  have hrooted := h.rooted.append hns
  rw [Path.below_text h.rooted hns]
  exact (FileTree.makeDirs_edits h.wellFormed hrooted).imp (fun _ hr => hr.elim)
    fun r hnone hr => h.of_onWay hns hr hnone

theorem Ready.copyInto_edits {n : Name} (hn : IsName n) (source : List Char) :
    Edits (Below q) (Below q) t (t.copyInto n source (Path.below P.text ns)).tree := by
  have htarget : ∃ ms, (∀ m ∈ ms, IsName m) ∧
      (if t.isDir (Path.below P.text ns) then Path.joined (Path.below P.text ns) n
        else Path.below P.text ns) = Path.below P.text ms := by
    split
    · refine ⟨ns ++ [n], ?_, by simp [Path.below]⟩
      simpa [or_imp, forall_and] using ⟨hns, hn⟩
    · exact ⟨ns, hns, rfl⟩
  obtain ⟨ms, hms, htarget⟩ := htarget
  rw [copyInto, htarget]
  cases hc : t.copyFile source (Path.below P.text ms) with
  | ok u =>
    have hcopied := h.edits_of_leadsTo hms (copyFile_edits h.wellFormed hc)
    have hu := h.of_edits hcopied
    exact hcopied.trans (hu.edits_of_leadsTo hms (copyLock_edits hu.wellFormed source))
  | error fault => cases fault <;> exact .refl

end Operations

/-- Copies of directories edit nothing outside a directory that is ready. -/
def Copies (P : Path) (q : Place) (copy : FileTree → List Char → List Char → Copied) : Prop :=
  ∀ t source ns, Ready t P q → (∀ n ∈ ns, IsName n) →
    Edits (Below q) (Below q) t (copy t source (Path.below P.text ns)).tree

theorem Ready.copyEntry_edits {copy : FileTree → List Char → List Char → Copied} {ns : List Name}
    {done : Copied} {n : Name} (h : Ready done.tree P q) (hcopy : Copies P q copy)
    (hns : ∀ n ∈ ns, IsName n) (hn : IsName n) (source : List Char) :
    Edits (Below q) (Below q) done.tree
      (copyEntry copy source (Path.below P.text ns) done n).tree := by
  have hto : Path.joined (Path.below P.text ns) n = Path.below P.text (ns ++ [n]) := by
    simp [Path.below]
  have hto' : ∀ m ∈ ns ++ [n], IsName m := by
    simpa [or_imp, forall_and] using ⟨hns, hn⟩
  simp only [copyEntry, hto]
  split
  · exact hcopy _ _ _ h hto'
  · exact h.copyInto_edits hto' hn _

theorem Ready.foldl_copyEntry_edits {copy : FileTree → List Char → List Char → Copied}
    {ns names : List Name} {done : Copied} (h : Ready done.tree P q) (hcopy : Copies P q copy)
    (hns : ∀ n ∈ ns, IsName n) (hnames : ∀ n ∈ names, IsName n) (source : List Char) :
    Edits (Below q) (Below q) done.tree
      (names.foldl (copyEntry copy source (Path.below P.text ns)) done).tree := by
  induction names generalizing done with
  | nil => exact .refl
  | cons n names ih =>
    have hstep := h.copyEntry_edits hcopy hns (hnames n List.mem_cons_self) source
    exact hstep.trans (ih (h.of_edits hstep) fun m hm => hnames m (List.mem_cons_of_mem _ hm))

theorem isName_of_list (ht : t.WellFormed) {source : List Char} {names : List Name}
    (h : t.list source = .ok names) : ∀ n ∈ names, IsName n := by
  obtain ⟨place, rfl⟩ := eq_sortedNames_of_list h
  exact fun n hn => (ht.isFileName (((ht.lists place).mem_iff n).mp hn)).toIsName

theorem copies_copyDirFrom (P : Path) (q : Place) (depth : Nat) : Copies P q (copyDirFrom depth) := by
  induction depth with
  | zero => exact fun t source ns _ _ => .refl
  | succ depth ih =>
    intro t source ns h hns
    rw [copyDirFrom]
    cases hlist : t.list source with
    | error fault => exact .refl
    | ok names =>
      have hmade := h.makeDirs_edits hns
      dsimp only
      split
      · exact hmade
      · have hdone : Ready (Copied.mk (t.makeDirs (Path.below P.text ns)).tree none []).tree P q :=
          h.of_edits hmade
        exact hmade.trans (hdone.foldl_copyEntry_edits ih hns (isName_of_list h.wellFormed hlist) source)

/-- The beginnings of a path that can be looked up lead to directories, the path itself to its place. -/
theorem Located.onWay {follow : Bool} {links : Nat} {ns : List Name} {g : Target}
    (hl : Located t follow links [] ns g) (hg : follow = true ∨ ∃ q n slash, g = .free q n slash)
    (hns : ∀ n ∈ ns, IsName n) {r : Place} (hr : OnWay t ns r) :
    r = g.place ∨ t.get? r = some .dir := by
  obtain ⟨ms, ⟨ks, rfl⟩, hlead⟩ := hr
  cases ks with
  | nil =>
    rw [List.append_nil] at hl
    exact Or.inl (hlead.unique (hl.leads hg))
  | cons k ks =>
    obtain ⟨_, r', hr', hdir, _⟩ := hl.split (hns k (by simp)).ne_nil
    have hr' : t.Leads [] ms r' := hr'.leads (Or.inl rfl)
    rw [hlead.unique hr']
    exact Or.inr hdir

/-- A directory that was made, or was there, exists with all directories around it. -/
theorem makeLast_made (ht : t.WellFormed) (hP : P.Rooted) (h : (t.makeLast P.text).fault = none) :
    ∃ q, t.Leads [] P.segments q ∧
      ∀ r, OnWay t P.segments r → ((t.makeLast P.text).tree.get? r).isSome := by
  have hgrows : Grows t (t.makeLast P.text).tree := (makeLast_edits ht).grows
  -- wherever the path ends, what lies on the way to it was there already
  have hfree : ∀ {g follow}, t.locate P.text follow = .ok g →
      (follow = true ∨ ∃ q n slash, g = .free q n slash) →
      ((t.makeLast P.text).tree.get? g.place).isSome →
      ∃ q, t.Leads [] P.segments q ∧
        ∀ r, OnWay t P.segments r → ((t.makeLast P.text).tree.get? r).isSome := by
    intro g follow hl hg hplace
    obtain ⟨-, -, hl⟩ := (locate_text_iff hP).mp hl
    refine ⟨g.place, hl.leads hg, fun r hr => ?_⟩
    rcases hl.onWay hg hP.names hr with rfl | hdir
    · exact hplace
    · exact hgrows.isSome (by simp [hdir])
  rw [makeLast] at h
  cases hm : t.makeDir P.text with
  | ok u =>
    have hu : (t.makeLast P.text).tree = u := by rw [makeLast, hm]
    rw [makeDir] at hm
    cases hl : t.locate P.text false with
    | error fault => simp [hl, bind, Except.bind] at hm
    | ok g =>
      cases g with
      | found => simp [hl, bind, Except.bind] at hm
      | free p n slash =>
        simp only [hl, bind, Except.bind, Except.ok.injEq] at hm
        refine hfree hl (Or.inr ⟨_, _, _, rfl⟩) ?_
        rw [hu, ← hm]
        simp [Target.place, get?_put_concat]
  | error fault =>
    have hu : (t.makeLast P.text).tree = t := by rw [makeLast, hm]
    rw [hm] at h
    have hdir : t.isDir P.text = true := by simpa using h
    unfold isDir at hdir
    split at hdir
    · next place hs =>
      have hl := stat_eq_ok_iff.mp hs
      refine hfree hl (Or.inl rfl) ?_
      have hget : t.get? place = some .dir := holds_of_locate ht hl
      rw [hu]
      simp [Target.place, hget]
    · simp at hdir

theorem makeDirsFrom_made (ht : t.WellFormed) {r : Root} {ns : List Name}
    (hP : Path.Rooted ⟨r, ns.reverse⟩) (h : (t.makeDirsFrom r ns).fault = none) :
    ∃ q, t.Leads [] ns.reverse q ∧
      ∀ r', OnWay t ns.reverse r' → ((t.makeDirsFrom r ns).tree.get? r').isSome := by
  cases ns with
  | nil =>
    refine ⟨[], .here [], fun r' hr => ?_⟩
    obtain ⟨ms, hms, hl⟩ := hr
    obtain rfl : ms = [] := by simpa using hms
    cases hl
    simp [get?_nil]
  | cons n ns =>
    rcases makeDirsFrom_cases t r n ns with hcase | hcase | hcase
    · rw [hcase] at h ⊢
      exact makeLast_made ht hP h
    · have hshort : Path.Rooted ⟨r, ns.reverse⟩ :=
        ⟨hP.root, fun m hm => hP.names m (by simp [List.mem_reverse.mp hm])⟩
      have houter := makeDirsFrom_edits ht hshort
      rw [hcase] at h ⊢
      obtain ⟨q, hq, hmade⟩ := makeLast_made (houter.wellFormed ht) hP h
      refine ⟨q, hq.of_sameLinks houter.grows.sameLinks.symm, fun r' hr => hmade r' ?_⟩
      obtain ⟨ms, hms, hl⟩ := hr
      exact ⟨ms, hms, hl.of_sameLinks houter.grows.sameLinks⟩
    · exact absurd (hcase.1 ▸ h) hcase.2.1

/-- Where making directories succeeds, the directory is ready. -/
theorem ready_of_makeDirs (ht : t.WellFormed) (hP : P.Rooted) (h : (t.makeDirs P.text).fault = none)
    (hfree : ∀ q, t.LeadsTo P.text q → t.LinkFree q) :
    ∃ q, t.LeadsTo P.text q ∧ Ready (t.makeDirs P.text).tree P q := by
  have hedits := FileTree.makeDirs_edits ht hP
  obtain ⟨q, hq, hmade⟩ : ∃ q, t.Leads [] P.segments q ∧
      ∀ r, OnWay t P.segments r → ((t.makeDirs P.text).tree.get? r).isSome := by
    rw [makeDirs, Path.parse_text hP.spelled] at h ⊢
    have hP' : Path.Rooted ⟨P.root, P.segments.reverse.reverse⟩ := by simpa using hP
    simpa using makeDirsFrom_made ht hP' h
  have hto := (leadsTo_text_iff hP).mpr hq
  exact ⟨q, hto, hedits.wellFormed ht, hP, hq.of_sameLinks hedits.grows.sameLinks,
    fun r hr => hmade r (hr.of_grows hedits.grows),
    hedits.grows.sameLinks.linkFree (hfree q hto)⟩

end Ready

end Marginalia.FileTree
