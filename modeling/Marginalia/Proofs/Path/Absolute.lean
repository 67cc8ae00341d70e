import Mathlib.Data.List.TakeWhile
import Marginalia.Proofs.Path.Lexical

/-! # Absolute paths

A path text seen from a directory is an absolute path: a root and names, without steps up. Names put
behind the text are put behind the path, and the way from a path to one below it is made of the names
between them.
-/
namespace Marginalia.Path

open Text

/-- The absolute path of a text seen from a directory. -/
def seen (cwd s : List Char) : Path :=
  (parse (joined cwd s)).collapse

theorem absolute_eq (cwd s : List Char) : absolute cwd s = (seen cwd s).text := rfl

theorem spelled_seen (cwd s : List Char) : (seen cwd s).Spelled :=
  spelled_collapse (spelled_parse _)

theorem parse_absolute (cwd s : List Char) : parse (absolute cwd s) = seen cwd s :=
  parse_text (spelled_seen cwd s)

/-- An absolute path made of names. -/
structure Rooted (p : Path) : Prop where
  root : p.root ≠ .none
  names : ∀ n ∈ p.segments, IsName n

theorem Rooted.spelled {p : Path} (h : p.Rooted) : p.Spelled :=
  fun n hn => (h.names n hn).toIsSegment

theorem rooted_collapse {p : Path} (hroot : p.root ≠ .none) (h : p.Spelled) : p.collapse.Rooted := by
  refine ⟨hroot, fun n hn => ⟨spelled_collapse h n hn, ?_⟩⟩
  have hr : (decide (p.root ≠ .none)) = true := by simpa using hroot
  simp only [collapse, hr] at hn
  exact ne_up_of_mem_collapseOnto (by simp) hn

theorem Rooted.collapse {p : Path} (h : p.Rooted) : p.collapse = p := by
  obtain ⟨r, ns⟩ := p
  simp only [Path.collapse, collapseOnto_of_ne_up _ _ fun n hn => (h.names n hn).ne_up]
  rfl

theorem Rooted.append {p : Path} (h : p.Rooted) {ns : List Name} (hns : ∀ n ∈ ns, IsName n) :
    Rooted ⟨p.root, p.segments ++ ns⟩ := by
  refine ⟨h.root, fun n hn => ?_⟩
  rcases List.mem_append.mp hn with hn | hn
  · exact h.names n hn
  · exact hns n hn

/-- A directory text that paths are seen from. -/
structure IsBase (cwd : List Char) : Prop where
  head : cwd.head? = some '/'
  names : ∀ n ∈ (parse cwd).segments, n ≠ up

theorem IsBase.ne_nil {cwd : List Char} (h : IsBase cwd) : cwd ≠ [] := by
  intro hc
  simpa [hc] using h.head

theorem Rooted.isBase {p : Path} (h : p.Rooted) : IsBase p.text := by
  refine ⟨(head?_text h.spelled).mpr h.root, ?_⟩
  rw [parse_text h.spelled]
  exact fun n hn => (h.names n hn).ne_up

variable {cwd : List Char}

theorem head?_joined_base (h : IsBase cwd) (s : List Char) : (joined cwd s).head? = some '/' := by
  by_cases hs : s.head? = some '/'
  · rwa [joined_of_head hs]
  · rw [head?_joined h.ne_nil hs]
    exact h.head

theorem rooted_seen (h : IsBase cwd) (s : List Char) : (seen cwd s).Rooted :=
  rooted_collapse (rootOf_ne_none_iff.mpr (head?_joined_base h s)) (spelled_parse _)

theorem collapseOnto_append_names (rooted : Bool) (kept : List Name) {cs : List Name}
    (h : ∀ n ∈ cs, n ≠ up) (ns : List Name) :
    collapseOnto rooted kept (cs ++ ns) = collapseOnto rooted (cs.reverse ++ kept) ns := by
  induction cs generalizing kept with
  | nil => rfl
  | cons c cs ih =>
    rw [List.cons_append, collapseOnto_name _ _ _ (h c List.mem_cons_self),
      ih _ fun n hn => h n (List.mem_cons_of_mem _ hn)]
    simp

theorem normal_head? (s : List Char) : (normal s).head? = some '/' ↔ s.head? = some '/' := by
  have hsp := spelled_collapse (spelled_parse s)
  rw [normal, head?_text hsp]
  exact rootOf_ne_none_iff

theorem normal_ne_nil (s : List Char) : normal s ≠ [] :=
  text_ne_nil (spelled_collapse (spelled_parse s))

/-- The shortest spelling leads to the same absolute path. -/
theorem seen_normal (h : IsBase cwd) (s : List Char) : seen cwd (normal s) = seen cwd s := by
  by_cases hs : s.head? = some '/'
  · have hn : (normal s).head? = some '/' := (normal_head? s).mpr hs
    have hroot : (parse s).root ≠ .none := rootOf_ne_none_iff.mpr hs
    rw [seen, seen, joined_of_head hn, joined_of_head hs, parse_normal]
    exact (rooted_collapse hroot (spelled_parse s)).collapse
  · have hn : (normal s).head? ≠ some '/' := fun hc => hs ((normal_head? s).mp hc)
    have hroot : (parse s).root = .none := rootOf_of_head_ne hs
    rw [seen, seen, parse_joined h.ne_nil hn, parse_joined h.ne_nil hs, parse_normal]
    simp only [collapse, hroot]
    rw [collapseOnto_append_names _ _ h.names, collapseOnto_append_names _ _ h.names]
    simpa using collapseOnto_collapseOnto _ _ _ []

/-- A name put behind a path text is put behind its absolute path. -/
theorem seen_joined (h : IsBase cwd) {p : List Char} (hp : p ≠ []) {n : Name} (hn : IsName n) :
    seen cwd (joined p n) = ⟨(seen cwd p).root, (seen cwd p).segments ++ [n]⟩ := by
  have hnh : n.head? ≠ some '/' := hn.head_ne_slash
  have hjh : (joined p n).head? = p.head? := head?_joined hp hnh
  have hlast : ∀ (r : Bool) (ns : List Name),
      collapseOnto r [] (ns ++ [n]) = collapseOnto r [] ns ++ [n] :=
    fun r ns => collapseOnto_append_singleton r [] ns hn.ne_up
  by_cases hs : p.head? = some '/'
  · rw [seen, seen, joined_of_head hs, joined_of_head (hjh.trans hs), parse_joined hp hnh,
      parse_of_isName hn]
    simp only [collapse, hlast]
    rfl
  · have hjs : (joined p n).head? ≠ some '/' := by rwa [hjh]
    rw [seen, seen, parse_joined h.ne_nil hs, parse_joined h.ne_nil hjs, parse_joined hp hnh,
      parse_of_isName hn]
    simp only [collapse, ← List.append_assoc, hlast]

/-- Names put behind a path text one after the other. -/
def below (p : List Char) (ns : List Name) : List Char :=
  ns.foldl joined p

theorem below_cons (p : List Char) (n : Name) (ns : List Name) :
    below p (n :: ns) = below (joined p n) ns := rfl

theorem seen_below (h : IsBase cwd) {p : List Char} (hp : p ≠ []) {ns : List Name}
    (hns : ∀ n ∈ ns, IsName n) :
    seen cwd (below p ns) = ⟨(seen cwd p).root, (seen cwd p).segments ++ ns⟩ := by
  induction ns generalizing p with
  | nil => simp [below]
  | cons n ns ih =>
    have hjoin : joined p n ≠ [] := joined_ne_nil hp
    rw [below_cons, ih hjoin fun m hm => hns m (List.mem_cons_of_mem _ hm),
      seen_joined h hp (hns n List.mem_cons_self)]
    simp

theorem getLast?_join {ns : List Name} (hne : ns ≠ []) (h : ∀ n ∈ ns, IsSegment n) :
    (join ['/'] ns).getLast? ≠ some '/' := by
  obtain ⟨ms, m, rfl⟩ := List.eq_nil_or_concat ns |>.resolve_left hne
  have hm := h m (by simp)
  have hlast : m.getLast? ≠ some '/' := fun hc => hm.no_slash (List.mem_of_getLast? hc)
  by_cases hms : ms = []
  · subst hms
    simpa [join] using hlast
  · rw [List.concat_eq_append, join_append_singleton hms, List.getLast?_append,
      List.getLast?_cons_of_ne_nil hm.ne_nil]
    cases hg : m.getLast? with
    | none => exact absurd (List.getLast?_eq_none_iff.mp hg) hm.ne_nil
    | some c => simpa [hg] using hlast

/-- Joined names put behind the text of an absolute path. -/
theorem joined_join_text {p : Path} (hp : p.Rooted) {ms : List Name} (hne : ms ≠ [])
    (hms : ∀ m ∈ ms, IsName m) :
    joined p.text (join ['/'] ms) = text ⟨p.root, p.segments ++ ms⟩ := by
  obtain ⟨r, ns⟩ := p
  have hhead : (join ['/'] ms).head? ≠ some '/' := head?_join hne fun m hm => (hms m hm).toIsSegment
  by_cases hns : ns = []
  · subst hns
    cases r with
    | none => exact absurd rfl hp.root
    | single => simp [text, joined, Root.text, join, hhead]
    | double => simp [text, joined, Root.text, join, hhead]
  · have htext : text ⟨r, ns⟩ = r.text ++ join ['/'] ns := by simp [text, hns]
    have hne' := join_ne_nil hns hp.spelled
    have hlast : (text ⟨r, ns⟩).getLast? ≠ some '/' := by
      obtain ⟨c, hc⟩ := Option.ne_none_iff_exists'.mp
        (mt List.getLast?_eq_none_iff.mp hne')
      rw [htext, List.getLast?_append, hc]
      simpa [hc] using getLast?_join hns hp.spelled
    have hnil : text ⟨r, ns⟩ ≠ [] := text_ne_nil hp.spelled
    have hj : joined (text ⟨r, ns⟩) (join ['/'] ms) = text ⟨r, ns⟩ ++ '/' :: join ['/'] ms := by
      simp [joined, hhead, hlast, hnil]
    rw [hj, htext]
    simp [text, hns, join_append hns hne]

theorem joined_text {p : Path} (hp : p.Rooted) {n : Name} (hn : IsName n) :
    joined p.text n = text ⟨p.root, p.segments ++ [n]⟩ :=
  joined_join_text hp (List.cons_ne_nil n []) (by simpa using hn)

/-- The parts of the text of an absolute path are its names, after empty ones for the root. -/
theorem slashParts_text {p : Path} (hp : p.Rooted) :
    ∃ k, slashParts p.text = List.replicate k [] ++ p.segments := by
  obtain ⟨r, ns⟩ := p
  have hr : r ≠ .none := hp.root
  have htext : text ⟨r, ns⟩ = r.text ++ join ['/'] ns := by simp [text, hr]
  have hroot : ∃ k, ∀ s, slashParts (r.text ++ s) = List.replicate k [] ++ slashParts s := by
    have hcons : ∀ s, slashParts ('/' :: s) = [] :: slashParts s := slashParts_append_cons []
    cases r with
    | none => exact absurd rfl hr
    | single => exact ⟨1, hcons⟩
    | double => exact ⟨2, fun s => by simp [Root.text, hcons]⟩
  obtain ⟨k, hk⟩ := hroot
  rw [htext, hk]
  by_cases hns : ns = []
  · subst hns
    exact ⟨k + 1, by simp [slashParts, join, List.replicate_succ']⟩
  · exact ⟨k, by rw [slashParts_join hns hp.spelled]⟩

theorem below_text {p : Path} (hp : p.Rooted) {ns : List Name} (hns : ∀ n ∈ ns, IsName n) :
    below p.text ns = text ⟨p.root, p.segments ++ ns⟩ := by
  induction ns generalizing p with
  | nil => simp [below]
  | cons n ns ih =>
    have hn := hns n List.mem_cons_self
    rw [below_cons, joined_text hp hn, ih (hp.append (by simpa using hn))
      fun m hm => hns m (List.mem_cons_of_mem _ hm)]
    simp

theorem steps_append (s t : List Name) : steps s (s ++ t) = t := by
  have h : dropCommon s (s ++ t) = ([], t) := by
    induction s with
    | nil => cases t <;> rfl
    | cons n s ih => simpa [dropCommon] using ih
  simp [steps, h]

theorem relative_eq (target start : List Char) :
    relative cwd target start =
      text ⟨.none, steps (seen cwd start).segments (seen cwd target).segments⟩ := by
  simp only [relative, parse_absolute]

/-- From a path to one below it the way is spelled by the names between them. -/
theorem relative_below (h : IsBase cwd) {p : List Char} (hp : p ≠ []) {ns : List Name}
    (hne : ns ≠ []) (hns : ∀ n ∈ ns, IsName n) : relative cwd (below p ns) p = join ['/'] ns := by
  rw [relative_eq, seen_below h hp hns, steps_append]
  simp [text, hne, Root.text]

theorem text_parse_join {ns : List Name} (hne : ns ≠ []) (hns : ∀ n ∈ ns, IsName n) :
    (parse (join ['/'] ns)).text = join ['/'] ns := by
  have hsp : Spelled ⟨.none, ns⟩ := fun n hn => (hns n hn).toIsSegment
  have htext : text ⟨.none, ns⟩ = join ['/'] ns := by simp [text, hne, Root.text]
  rw [← htext, parse_text hsp]

section Characters

theorem mem_join {c : Char} {ns : List Name} (h : c ∈ join ['/'] ns) : c = '/' ∨ ∃ n ∈ ns, c ∈ n := by
  induction ns with
  | nil => simp [join] at h
  | cons n ns ih =>
    cases ns with
    | nil => exact Or.inr ⟨n, by simp, by simpa [join] using h⟩
    | cons m ns =>
      simp only [join_cons_cons, List.mem_append, List.mem_singleton] at h
      rcases h with (h | h) | h
      · exact Or.inr ⟨n, by simp, h⟩
      · exact Or.inl h
      · rcases ih h with h | ⟨k, hk, hc⟩
        · exact Or.inl h
        · exact Or.inr ⟨k, by simp [List.mem_cons.mp hk], hc⟩

theorem mem_text {c : Char} {p : Path} (h : c ∈ p.text) :
    c = '/' ∨ c = '.' ∨ ∃ n ∈ p.segments, c ∈ n := by
  unfold text at h
  split at h
  · exact Or.inr (Or.inl (by simpa [here] using h))
  · rcases List.mem_append.mp h with h | h
    · left
      cases hr : p.root <;> simp_all [Root.text]
    · rcases mem_join h with h | h
      · exact Or.inl h
      · exact Or.inr (Or.inr h)

theorem length_le_join {ns : List Name} (h : ∀ n ∈ ns, n ≠ []) : ns.length ≤ (join ['/'] ns).length := by
  induction ns with
  | nil => simp
  | cons n ns ih =>
    have hn := List.length_pos_of_ne_nil (h n List.mem_cons_self)
    have ih := ih fun m hm => h m (List.mem_cons_of_mem _ hm)
    cases ns with
    | nil =>
      simp only [join, List.length_cons, List.length_nil]
      omega
    | cons m ns =>
      simp only [join_cons_cons, List.length_append, List.length_cons, List.length_nil] at ih ⊢
      omega

theorem length_le_text {p : Path} (h : p.Spelled) : p.segments.length ≤ p.text.length := by
  unfold text
  split
  · simp_all [here]
  · have := length_le_join fun n hn => (h n hn).ne_nil
    rw [List.length_append]
    omega

end Characters

section Climb

/-- Steps up followed by names. -/
def Climbs (ns : List Name) : Prop :=
  ∃ k ms, ns = List.replicate k up ++ ms ∧ ∀ m ∈ ms, m ≠ up

theorem Climbs.concat {ns : List Name} (h : Climbs ns) {n : Name} (hn : n ≠ up) : Climbs (ns ++ [n]) := by
  obtain ⟨k, ms, rfl, hms⟩ := h
  refine ⟨k, ms ++ [n], by simp, fun m hm => ?_⟩
  rcases List.mem_append.mp hm with hm | hm
  · exact hms m hm
  · rwa [List.mem_singleton.mp hm]

theorem Climbs.all_up {ns : List Name} (h : Climbs (ns ++ [up])) : ∀ n ∈ ns, n = up := by
  obtain ⟨k, ms, hk, hms⟩ := h
  obtain rfl : ms = [] := by
    rcases List.eq_nil_or_concat ms with rfl | ⟨ms', m, rfl⟩
    · rfl
    · rw [List.concat_eq_append, ← List.append_assoc] at hk
      have hm : up = m := by simpa using (List.append_inj' hk rfl).2
      exact absurd hm.symm (hms m (by simp))
  intro n hn
  have hmem : n ∈ List.replicate k up := by
    rw [List.append_nil] at hk
    exact hk ▸ List.mem_append_left _ hn
  exact (List.mem_replicate.mp hmem).2

theorem climbs_collapseOnto {kept ns : List Name} (h : Climbs kept.reverse) :
    Climbs (collapseOnto false kept ns) := by
  induction ns generalizing kept with
  | nil => exact h
  | cons n ns ih =>
    by_cases hn : n = up
    · subst hn
      cases kept with
      | nil =>
        rw [collapseOnto_up_nil]
        exact ih ⟨1, [], rfl, by simp⟩
      | cons k ks =>
        rw [collapseOnto_up_cons]
        refine ih ?_
        rw [List.reverse_cons] at h
        split
        · next hk =>
          subst hk
          have hall := h.all_up
          refine ⟨ks.length + 2, [], ?_, by simp⟩
          rw [List.append_nil, List.eq_replicate_iff]
          refine ⟨by simp, fun m hm => ?_⟩
          simp only [List.reverse_cons, List.mem_append, List.mem_singleton] at hm
          rcases hm with (hm | hm) | hm
          · exact hall m hm
          · exact hm
          · exact hm
        · next hk =>
          -- the name taken back stands behind all steps up
          obtain ⟨i, ms, hi, hms⟩ := h
          rcases List.eq_nil_or_concat ms with rfl | ⟨ms', m, rfl⟩
          · rw [List.append_nil] at hi
            have : k ∈ List.replicate i up := hi ▸ by simp
            exact absurd (List.mem_replicate.mp this).2 hk
          · rw [List.concat_eq_append, ← List.append_assoc] at hi
            exact ⟨i, ms', (List.append_inj' hi rfl).1, fun j hj => hms j (by simp [hj])⟩
    · rw [collapseOnto_name _ _ _ hn]
      refine ih ?_
      rw [List.reverse_cons]
      exact h.concat hn

theorem collapseOnto_all_up {kept ns : List Name} (hkept : ∀ k ∈ kept, k ≠ up)
    (hns : ∀ n ∈ ns, n = up) : collapseOnto true kept ns <+: kept.reverse := by
  induction ns generalizing kept with
  | nil => exact List.prefix_rfl
  | cons n ns ih =>
    have hn := hns n List.mem_cons_self
    have htail : ∀ m ∈ ns, m = up := fun m hm => hns m (List.mem_cons_of_mem _ hm)
    subst hn
    cases kept with
    | nil =>
      rw [collapseOnto_up_nil]
      exact ih (by simp) htail
    | cons k ks =>
      rw [collapseOnto_up_cons, if_neg (hkept k List.mem_cons_self), List.reverse_cons]
      exact (ih (fun j hj => hkept j (List.mem_cons_of_mem _ hj)) htail).trans (List.prefix_append ..)

end Climb

theorem reverse_ne_slash {b : List Char} (h : '/' ∉ b) : ∀ c ∈ b.reverse, decide (c ≠ '/') = true := by
  intro c hc
  have : c ≠ '/' := fun he => h (he ▸ List.mem_reverse.mp hc)
  simpa using this

theorem baseName_of_no_slash {b : List Char} (h : '/' ∉ b) : baseName b = b := by
  rw [baseName, List.takeWhile_eq_self_iff.mpr (reverse_ne_slash h), List.reverse_reverse]

theorem baseName_append_cons (a : List Char) {b : List Char} (h : '/' ∉ b) :
    baseName (a ++ '/' :: b) = b := by
  rw [baseName, List.reverse_append, List.reverse_cons, List.append_assoc,
    List.takeWhile_append_of_pos (reverse_ne_slash h)]
  simp

theorem baseName_text {r : Root} {ns : List Name} {n : Name} (h : ∀ m ∈ ns ++ [n], IsSegment m) :
    baseName (text ⟨r, ns ++ [n]⟩) = n := by
  have hn := (h n (by simp)).no_slash
  have htext : text ⟨r, ns ++ [n]⟩ = r.text ++ join ['/'] (ns ++ [n]) := by simp [text]
  rw [htext]
  by_cases hns : ns = []
  · subst hns
    cases r with
    | none => exact baseName_of_no_slash hn
    | single => exact baseName_append_cons [] hn
    | double => exact baseName_append_cons ['/'] hn
  · rw [join_append_singleton hns, ← List.append_assoc]
    exact baseName_append_cons _ hn

theorem segments_seen_of_relative (h : IsBase cwd) {s : List Char} (hs : s.head? ≠ some '/') :
    (seen cwd s).segments =
      collapseOnto true [] ((parse cwd).segments ++ (parse s).collapse.segments) := by
  have hroot : Root.of cwd ≠ .none := rootOf_ne_none_iff.mpr h.head
  rw [← seen_normal h, seen, parse_joined h.ne_nil (mt (normal_head? s).mp hs), parse_normal]
  simp only [collapse, ne_eq, hroot, not_false_eq_true, decide_true]

/-- A text in its shortest spelling has the base name of its absolute path, unless that lies at the
root or around the directory it is seen from. -/
theorem baseName_normal_or (h : IsBase cwd) (s : List Char) :
    (baseName (normal s) = baseName (absolute cwd s) ∧ (seen cwd s).segments ≠ []) ∨
      (seen cwd s).segments = [] ∨ (seen cwd s).segments <+: (parse cwd).segments := by
  have hsp : (parse s).collapse.Spelled := spelled_collapse (spelled_parse s)
  rcases List.eq_nil_or_concat (parse s).collapse.segments with hnil | ⟨ns, n, hns⟩
  · right
    by_cases hs : s.head? = some '/'
    · left
      rw [seen, joined_of_head hs, hnil]
    · right
      rw [segments_seen_of_relative h hs, hnil, List.append_nil, collapseOnto_of_ne_up _ _ h.names]
      exact List.prefix_rfl
  · rw [List.concat_eq_append] at hns
    by_cases hs : s.head? = some '/'
    · left
      have hseen : seen cwd s = (parse s).collapse := by rw [seen, joined_of_head hs]
      exact ⟨by rw [absolute_eq, hseen, normal], by simp [hseen, hns]⟩
    · by_cases hn : n = up
      · -- a relative path that ends in a step up has nothing else
        right; right
        subst hn
        have hroot : (parse s).root = .none := rootOf_of_head_ne hs
        have hclimb : Climbs (ns ++ [up]) := by
          rw [← hns]
          simp only [collapse, hroot]
          exact climbs_collapseOnto ⟨0, [], rfl, by simp⟩
        have hall : ∀ m ∈ ns ++ [up], m = up := by
          simpa [or_imp, forall_and] using hclimb.all_up
        rw [segments_seen_of_relative h hs, hns, collapseOnto_append_names _ _ h.names,
          List.append_nil]
        have hback : ∀ k ∈ (parse cwd).segments.reverse, k ≠ up := by simpa using h.names
        simpa using collapseOnto_all_up hback hall
      · left
        have hsegs : (seen cwd s).segments =
            collapseOnto true [] ((parse cwd).segments ++ ns) ++ [n] := by
          rw [segments_seen_of_relative h hs, hns, ← List.append_assoc,
            collapseOnto_append_singleton _ _ _ hn]
        have hseen : seen cwd s = ⟨(seen cwd s).root, _ ++ [n]⟩ := congrArg (Path.mk _) hsegs
        have hnormal : normal s = text ⟨(parse s).collapse.root, ns ++ [n]⟩ := by rw [normal, ← hns]
        refine ⟨?_, by simp [hsegs]⟩
        rw [hnormal, baseName_text (hns ▸ hsp), absolute_eq, hseen, baseName_text]
        exact hsegs ▸ spelled_seen cwd s

end Marginalia.Path
