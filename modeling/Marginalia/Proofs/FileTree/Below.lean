import Marginalia.Proofs.FileTree.Growth

/-! # Writing below a directory

Below a directory that exists and holds no link, a path leads to the place that its names spell. So a
file that is written there is found there, and it stays until its own path is written again.
-/
namespace Marginalia.FileTree

open Text

variable {t u : FileTree} {path : List Char} {q O : Place} {e : Entry} {P : Path}

section Left

variable {F D : Place → Prop}

theorem Edits.get?_of_some (h : Edits F D t u) (hq : ¬ F q) (he : t.get? q = some e) :
    u.get? q = some e := by
  rcases h.get?_eq q with hsame | hF | ⟨-, hnone, -⟩
  · rw [hsame, he]
  · exact absurd hF hq
  · simp [hnone] at he

theorem Grows.pipe_of_pipe (h : Grows t u) (hq : u.get? q = some .pipe) : t.get? q = some .pipe := by
  cases he : t.get? q with
  | none => rcases h.new he with hu | ⟨c, hu⟩ | hu <;> simp [hq] at hu
  | some e =>
    obtain ⟨f, hf, hshape⟩ := h.kept he
    obtain rfl : Entry.pipe = f := Option.some.inj (hq.symm.trans hf)
    rw [Entry.eq_of_shape_eq hshape.symm (by simp)]

theorem linkFree_of_entries (h : ∀ x ∈ t.entries, ∀ s, x.2 ≠ .link s) (O : Place) : t.LinkFree O := by
  intro q _ s hq
  rw [get?] at hq
  split at hq
  · simp at hq
  · obtain ⟨before, after, hentries, -⟩ := List.lookup_eq_some_iff.mp hq
    exact h (q, .link s) (by simp [hentries]) s rfl

theorem leadsTo_of_stat (h : t.stat path = .ok (q, e)) : t.LeadsTo path q :=
  leadsTo_of_locate (stat_eq_ok_iff.mp h) (Or.inl rfl)

/-- A path leads to what it led to while that is left. -/
theorem stat_of_left (ht : t.WellFormed) (hu : u.WellFormed) (hg : Grows t u) (h : t.stat path = .ok (q, e))
    (hq : u.get? q = some e) : u.stat path = .ok (q, e) := by
  obtain ⟨f, hf, -⟩ := stat_of_grows ht hg h
  have hfe : some f = some e := (get?_of_stat hu hf).symm.trans hq
  rw [hf, Option.some.inj hfe]

@[simp] theorem get?_copyLock (t : FileTree) (source target : List Char) (q : Place) :
    (t.copyLock source target).get? q = t.get? q := by
  unfold copyLock lock
  split
  · split <;> rfl
  · rfl

/-- A path leads to the same entry after a file was locked. -/
theorem stat_copyLock (ht : t.WellFormed) {source target : List Char} (h : t.stat path = .ok (q, e)) :
    (t.copyLock source target).stat path = .ok (q, e) := by
  have hedits : Edits (t.LeadsTo target) Nowhere t _ := copyLock_edits ht source
  refine stat_of_left ht (hedits.wellFormed ht) hedits.grows h ?_
  rw [get?_copyLock, get?_of_stat ht h]

end Left

section Free

variable {n : Name} {x : List Name}

/-- A path into a directory free of links leads on by its name. -/
theorem LeadsTo.joined (h : t.LeadsTo path q) (hq : t.LinkFree q) (hn : IsName n) :
    t.LeadsTo (Path.joined path n) (q ++ [n]) := by
  have hlast : Leads t q [n] (q ++ [n]) := leads_of_linkFree hq (by simpa using hn)
  have hparts : slashParts n = [n] := slashParts_of_no_slash hn.no_slash
  have hhead := hn.head_ne_slash
  have hempty : ∀ {m}, Leads t m [[]] q → Leads t m [n] (q ++ [n]) := by
    intro m hm
    obtain rfl := hm.unique (.stay (.inl rfl) (.here m))
    exact hlast
  unfold LeadsTo at h ⊢
  rcases eq_or_ne path [] with rfl | hne
  · have hstart : startOf n t.cwd = startOf [] t.cwd := by simp [startOf, hhead]
    rw [show Path.joined [] n = n by simp [Path.joined, hhead], hparts, hstart]
    exact hempty h
  · rw [startOf, Path.head?_joined hne hhead, ← startOf]
    by_cases hslash : path.getLast? = some '/'
    · obtain ⟨a, rfl⟩ := List.getLast?_eq_some_iff.mp hslash
      have hjoined : Path.joined (a ++ ['/']) n = a ++ '/' :: n := by simp [Path.joined, hhead]
      rw [slashParts_append_cons] at h
      obtain ⟨m, hm, hrest⟩ := h.split
      rw [hjoined, slashParts_append_cons, hparts]
      exact hm.append (hempty hrest)
    · have hjoined : Path.joined path n = path ++ '/' :: n := by simp [Path.joined, hhead, hne, hslash]
      rw [hjoined, slashParts_append_cons, hparts]
      exact h.append hlast

theorem LeadsTo.below (h : t.LeadsTo path q) (hq : t.LinkFree q) (hx : ∀ n ∈ x, IsName n) :
    t.LeadsTo (Path.below path x) (q ++ x) := by
  induction x generalizing path q with
  | nil => simpa [Path.below] using h
  | cons n x ih =>
    have hfree : t.LinkFree (q ++ [n]) := fun p hp => hq p ((List.prefix_append ..).trans hp)
    have hrest := ih (h.joined hq (hx n List.mem_cons_self)) hfree fun m hm => hx m (List.mem_cons_of_mem _ hm)
    rwa [List.append_assoc] at hrest

end Free

section Ready

variable (h : Ready t P O) {ns : List Name} (hns : ∀ n ∈ ns, IsName n)
include h hns

theorem Ready.place_of_stat (hs : t.stat (Path.below P.text ns) = .ok (q, e)) : q = O ++ ns :=
  h.leadsTo hns (leadsTo_of_stat hs)

/-- A path that can be written holds what was written, unless it leads to a pipe. -/
theorem Ready.write_below {c : ByteArray} (hw : t.write (Path.below P.text ns) c = .ok u) :
    Edits (· = O ++ ns) Nowhere t u ∧
      (u.stat (Path.below P.text ns) = .ok (O ++ ns, .file c) ∨
        u.stat (Path.below P.text ns) = .ok (O ++ ns, .pipe) ∧ t.get? (O ++ ns) = some .pipe) := by
  have hedits := write_edits h.wellFormed hw
  refine ⟨hedits.imp (fun r hr => h.leadsTo hns hr) fun _ _ hr => hr, ?_⟩
  rcases write_cases h.wellFormed hw with ⟨p, n, -, -, hstat, -⟩ | ⟨rfl, q, e, hstat, hfile, hdir⟩
  · left
    rwa [(h.of_edits hedits).place_of_stat hns hstat] at hstat
  · right
    obtain rfl := h.place_of_stat hns hstat
    have hget := get?_of_stat h.wellFormed hstat
    cases e with
    | file d => exact absurd rfl (hfile d)
    | dir => exact absurd rfl hdir
    | link s => exact absurd hget (h.linkFree _ (List.prefix_append ..) s)
    | pipe => exact ⟨hstat, hget⟩

/-- Directories are made at the places that the beginnings of a path spell. -/
theorem Ready.makeDirs_below :
    Edits Nowhere (fun r => ∃ ks, ks <+: ns ∧ r = O ++ ks) t (t.makeDirs (Path.below P.text ns)).tree := by
  rw [Path.below_text h.rooted hns]
  refine (FileTree.makeDirs_edits h.wellFormed (h.rooted.append hns)).imp (fun _ hr => hr)
    fun r hnone hr => ?_
  obtain ⟨ms, hms, hl⟩ := hr
  rcases List.prefix_or_prefix_of_prefix hms (List.prefix_append ..) with hshort | ⟨ls, rfl⟩
  · have := h.made _ ⟨ms, hshort, hl⟩
    simp [hnone] at this
  · rw [List.prefix_append_right_inj] at hms
    have hls : ∀ n ∈ ls, IsName n := fun n hn => hns n (hms.subset hn)
    have hplace := hl.unique (h.leads.append (leads_of_linkFree h.linkFree hls))
    exact ⟨ls, hms, hplace⟩

end Ready

end Marginalia.FileTree
