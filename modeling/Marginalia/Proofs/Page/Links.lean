import Marginalia.Page
import Marginalia.Proofs.Source.Pages
import Marginalia.Proofs.Template.Links

/-! # Links between pages

A link goes up from the directory of its page as far as it must, then down to its target. Taken step by
step from that directory, without a look at any file system, it leads back to the target.
-/
namespace Marginalia

open Text

namespace Path

/-- The way from one place to another: up to what they have in common, then down. -/
theorem steps_eq (start target : List Name) :
    ∃ common as bs, start = common ++ as ∧ target = common ++ bs ∧
      steps start target = List.replicate as.length up ++ bs := by
  induction start generalizing target with
  | nil => exact ⟨[], [], target, rfl, rfl, rfl⟩
  | cons n start ih =>
    cases target with
    | nil => exact ⟨[], n :: start, [], rfl, rfl, rfl⟩
    | cons m target =>
      by_cases hnm : n = m
      · subst hnm
        obtain ⟨common, as, bs, rfl, rfl, hsteps⟩ := ih target
        exact ⟨n :: common, as, bs, rfl, rfl, by simpa [steps, dropCommon] using hsteps⟩
      · exact ⟨[], n :: start, m :: target, rfl, rfl, by simp [steps, dropCommon, hnm]⟩

/-- As many steps up as there are names take all of them back. -/
theorem collapseOnto_climb {kept : List Name} (hkept : ∀ k ∈ kept, k ≠ up) (rest ns : List Name) :
    collapseOnto true (kept ++ rest) (List.replicate kept.length up ++ ns) = collapseOnto true rest ns := by
  induction kept with
  | nil => rfl
  | cons k kept ih =>
    rw [List.length_cons, List.replicate_succ, List.cons_append, List.cons_append, collapseOnto_up_cons,
      if_neg (hkept k List.mem_cons_self)]
    exact ih fun j hj => hkept j (List.mem_cons_of_mem _ hj)

/-- The way from one place to another, taken from the first, ends at the second. -/
theorem collapseOnto_steps {start target : List Name} (hstart : ∀ n ∈ start, n ≠ up)
    (htarget : ∀ n ∈ target, n ≠ up) :
    collapseOnto true [] (start ++ steps start target) = target := by
  obtain ⟨common, as, bs, rfl, rfl, hsteps⟩ := steps_eq start target
  have hback : ∀ k ∈ as.reverse, k ≠ up := by
    intro k hk
    exact hstart k (List.mem_append_right _ (List.mem_reverse.mp hk))
  rw [hsteps, collapseOnto_append_names _ _ hstart, List.append_nil, List.reverse_append,
    ← List.length_reverse, collapseOnto_climb hback, collapseOnto_of_ne_up, List.reverse_reverse]
  exact fun n hn => htarget n (List.mem_append_right _ hn)

theorem spelled_steps (start : List Name) {target : List Name} (h : ∀ n ∈ target, IsSegment n) :
    Spelled ⟨.none, steps start target⟩ := by
  obtain ⟨common, as, bs, -, rfl, hsteps⟩ := steps_eq start target
  intro n hn
  rcases List.mem_append.mp (hsteps ▸ hn) with hn | hn
  · rw [(List.mem_replicate.mp hn).2]
    exact isSegment_up
  · exact h n (List.mem_append_right _ hn)

theorem seen_of_head {cwd s : List Char} (h : s.head? = some '/') : seen cwd s = (parse s).collapse := by
  rw [seen, joined_of_head h]

/-- An absolute path is the same from everywhere. -/
theorem seen_of_parse {cwd s : List Char} {X : Path} (hX : X.Rooted) (h : parse s = X) :
    seen cwd s = X := by
  have hs : s.head? = some '/' := rootOf_ne_none_iff.mp (by rw [← root_parse, h]; exact hX.root)
  rw [seen_of_head hs, h, hX.collapse]

/-- An absolute path text in its shortest spelling, with one slash for a root. -/
structure Plain (s : List Char) : Prop where
  root : Root.of s = .single
  normal : Path.normal s = s

section Plain

variable {s : List Char}

theorem Plain.ne_nil (h : Plain s) : s ≠ [] := by
  rintro rfl
  exact absurd h.root (by decide)

theorem Plain.rooted (h : Plain s) : (parse s).collapse.Rooted :=
  rooted_collapse (by rw [root_parse, h.root]; decide) (spelled_parse s)

theorem Plain.rooted_directory (h : Plain s) :
    (parse (directory s)).Rooted ∧ (parse (directory s)).root = .single := by
  have hP : Rooted ⟨.single, (parse s).collapse.segments⟩ := h.root ▸ h.rooted
  have htext : s = text ⟨.single, (parse s).collapse.segments⟩ := by
    conv_lhs => rw [← h.normal]
    rw [← h.root]
    rfl
  rcases List.eq_nil_or_concat (parse s).collapse.segments with hnil | ⟨ns, n, hns⟩
  · -- at the root the directory is the root
    have hdir : parse (directory s) = ⟨.single, []⟩ := by
      rw [htext, hnil]
      decide
    rw [hdir]
    exact ⟨⟨by decide, by simp⟩, rfl⟩
  · rw [List.concat_eq_append] at hns
    rw [hns] at hP htext
    have hdir : parse (directory s) = ⟨.single, ns⟩ := by
      rw [htext]
      exact Source.parse_directory hP
    rw [hdir]
    exact ⟨⟨hP.root, fun m hm => hP.names m (List.mem_append_left _ hm)⟩, rfl⟩

/-- A relative path text behind a plain one has the same root. -/
theorem Plain.root_joined (h : Plain s) {target : List Char} (htarget : target.head? ≠ some '/') :
    (parse (joined s target)).root = .single := by
  rw [parse_joined h.ne_nil htarget]
  exact h.root

end Plain

end Path

namespace Page

/-- A link, followed from the directory of its page, leads to its target. -/
theorem normal_joined_link {t : FileTree} {output page target : List Char} {D X : Path} (hD : D.Rooted)
    (hX : X.Rooted) (hroot : D.root = X.root) (hdir : Path.parse (Path.directory page) = D)
    (htarget : (Path.parse (Path.joined output target)).collapse = X) :
    Path.normal (Path.joined (Path.directory page) (link t output page target)) = X.text := by
  have hspelled := Path.spelled_steps D.segments hX.spelled
  have hslash : (Path.joined output target).head? = some '/' := by
    rw [← Path.rootOf_ne_none_iff]
    rw [← htarget] at hX
    exact hX.root
  have hlink : link t output page target = Path.text ⟨.none, Path.steps D.segments X.segments⟩ := by
    rw [link, FileTree.relative, Path.relative_eq, Path.seen_of_parse hD hdir, Path.seen_of_head hslash,
      htarget, Path.parse_text hspelled]
  have hhead : (link t output page target).head? ≠ some '/' := by
    rw [hlink, Ne, Path.head?_text hspelled]
    simp
  have hne : Path.directory page ≠ [] := by
    intro hnil
    rw [hnil] at hdir
    exact hD.root (by rw [← hdir]; rfl)
  have hparse : Path.parse (Path.joined (Path.directory page) (link t output page target)) =
      ⟨X.root, D.segments ++ Path.steps D.segments X.segments⟩ := by
    rw [Path.parse_joined hne hhead, ← Path.root_parse, hdir, hroot, hlink, Path.parse_text hspelled]
  rw [Path.normal, hparse, Path.collapse]
  simp only [ne_eq, hX.root, not_false_eq_true, decide_true]
  rw [Path.collapseOnto_steps (fun n hn => (hD.names n hn).ne_up) fun n hn => (hX.names n hn).ne_up]

/-- The links of pages below an absolute path are the same from everywhere. -/
theorem link_eq {P : Path} (hP : P.Rooted) {page : List Char} (hpage : Source.Beneath P.text page)
    (t u : FileTree) : link u P.text page = link t P.text page := by
  funext target
  obtain ⟨ns, n, hns, hn, rfl⟩ := hpage
  have hall : ∀ m ∈ ns ++ [n], IsName m := by simpa [or_imp, forall_and] using ⟨hns, hn⟩
  have hdir : Path.parse (Path.directory (Path.below P.text (ns ++ [n]))) = ⟨P.root, P.segments ++ ns⟩ := by
    rw [Path.below_text hP hall, ← List.append_assoc]
    exact Source.parse_directory (by simpa using hP.append hall)
  have htarget : (Path.joined P.text target).head? = some '/' := Path.head?_joined_base hP.isBase target
  simp only [link, FileTree.relative, Path.relative_eq, Path.seen_of_parse (hP.append hns) hdir,
    Path.seen_of_head htarget]

section Scope

variable (t : FileTree) (c : Configuration) (setup : Markdown.Setup) (sources : List Source) (i : Nat)
  (s : Source) (given : List (List Char × Template.Item))

/-- What the template of a page sees. -/
def scope : Template.Scope where
  vars := vars t c setup sources i s ++ given
  sources := sources
  link := link t c.output s.outputPath

theorem link_scope : (scope t c setup sources i s given).link = link t c.output s.outputPath := by
  simp only [scope]

theorem sees_scope : (scope t c setup sources i s given).Sees [] := by
  have hsource : (Template.sourcesName == "source".toList) = false := by decide
  have hsources : (Template.sourcesName == "sources".toList) = true := by decide
  refine ⟨?_, by simp⟩
  simp only [scope, vars, List.cons_append, List.lookup_cons, hsource, hsources]

theorem render_eq_ok_iff {markup : List Char} :
    render t c setup sources i s given = .ok markup ↔
      (given.any fun (n, _) => ((vars t c setup sources i s).lookup n).isSome) = false ∧
        c.template.render t (scope t c setup sources i s given) = .ok markup := by
  unfold render
  dsimp only
  split
  · next h => simp [h]
  · next h =>
    rw [Bool.not_eq_true] at h
    simp only [h, true_and, scope]

variable {t c setup sources i s given}

/-- A page whose template asks for links to an asset and to sources only is the same with every way to
link that agrees on these. -/
theorem render_relinked {asset markup : List Char} {other : List Char → List Char}
    (hasks : Template.asksOnlyAll asset [] c.template.nodes = true)
    (hlink : Template.AgreeOn asset sources other (link t c.output s.outputPath))
    (h : render t c setup sources i s given = .ok markup) :
    c.template.render t ((scope t c setup sources i s given).relinked other) = .ok markup := by
  obtain ⟨-, hrender⟩ := (render_eq_ok_iff ..).mp h
  rw [← link_scope t c setup sources i s given] at hlink
  rw [← hrender]
  exact Template.Loaded.render_relinked hasks (sees_scope t c setup sources i s given) hlink t t

/-- Such a page depends on its links only. -/
theorem render_of_link {u : FileTree} {asset markup : List Char}
    (hasks : Template.asksOnlyAll asset [] c.template.nodes = true)
    (hlink : link u c.output s.outputPath = link t c.output s.outputPath)
    (h : render t c setup sources i s given = .ok markup) :
    render u c setup sources i s given = .ok markup := by
  have hvars : vars u c setup sources i s = vars t c setup sources i s := by
    simp only [vars, stylesheetLink, hlink]
  have hscope : scope u c setup sources i s given = scope t c setup sources i s given := by
    simp only [scope, hvars, hlink]
  have hsame := Template.Loaded.render_relinked hasks (sees_scope t c setup sources i s given)
    (fun x _ => Eq.refl ((scope t c setup sources i s given).link x)) t u
  rw [Template.Scope.relinked_link] at hsame
  rw [render_eq_ok_iff] at h ⊢
  rw [hvars, hscope, hsame]
  exact h

end Scope

/-- What the link function of a template gives for a source or for a relative path, followed from the
directory of the page, leads to the page of that source or to that path below the output directory. -/
theorem destination_leads_to_target (t : FileTree) (c : Configuration) (setup : Markdown.Setup)
    (sources : List Source) (i : Nat) (s : Source) (given : List (List Char × Template.Item))
    (houtput : Path.Plain c.output) (hpage : Path.Plain s.outputPath) :
    (∀ j other, sources[j]? = some other → Path.Plain other.outputPath → ∃ href,
      Template.applyCall (scope t c setup sources i s given) .destination [.source j] =
        .ok (.loose (.text href)) ∧
      Path.normal (Path.joined (Path.directory s.outputPath) href) = other.outputPath) ∧
    ∀ target, target.head? ≠ some '/' → ∃ href,
      Template.applyCall (scope t c setup sources i s given) .destination [.loose (.text target)] =
        .ok (.loose (.text href)) ∧
      Path.normal (Path.joined (Path.directory s.outputPath) href) =
        Path.normal (Path.joined c.output target) := by
  obtain ⟨hD, hroot⟩ := hpage.rooted_directory
  constructor
  · intro j other hother hplain
    refine ⟨link t c.output s.outputPath other.outputPath, ?_, ?_⟩
    · simp only [Template.applyCall, scope, hother, Option.map_some, Option.getD_some]
    · have hslash : other.outputPath.head? = some '/' := by
        rw [← Path.rootOf_ne_none_iff, hplain.root]
        decide
      -- the page of a source is absolute, so the output directory does not count
      have htarget : (Path.parse (Path.joined c.output other.outputPath)).collapse =
          (Path.parse other.outputPath).collapse := by rw [Path.joined_of_head hslash]
      rw [normal_joined_link hD hplain.rooted (hroot.trans hplain.root.symm) rfl htarget]
      exact hplain.normal
  · intro target htarget
    refine ⟨link t c.output s.outputPath target, ?_, ?_⟩
    · simp only [Template.applyCall, scope]
    · have hsingle := houtput.root_joined htarget
      have hX : (Path.parse (Path.joined c.output target)).collapse.Rooted :=
        Path.rooted_collapse (by rw [hsingle]; decide) (Path.spelled_parse _)
      exact normal_joined_link hD hX (hroot.trans hsingle.symm) rfl rfl

/-- A configuration that writes pages below `/o`. -/
def plainConfiguration : Configuration where
  output := "/o".toList
  layout := "/l".toList
  templateName := "page.html".toList
  template := ⟨[], "/l".toList⟩
  assets := true
  index := none
  silent := true
  recursive := true
  css := none
  markdown := .standard

/-- A source in the directory `d/e`. -/
def deepSource : Source :=
  { fullPath := "/w/d/e/a.md".toList, name := "d/e/a.md".toList, relativeName := "d/e/a".toList
    outputPath := "/o/d/e/a.html".toList }

/-- A source beside that directory. -/
def topSource : Source :=
  { fullPath := "/w/b.md".toList, name := "b.md".toList, relativeName := "b".toList
    outputPath := "/o/b.html".toList }

/-- What the page of the first source sees. -/
def deepScope : Template.Scope :=
  scope .empty plainConfiguration {} [deepSource, topSource] 0 deepSource []

/-- From a page two directories down, to a page at the top and to a path outside the output directory. -/
theorem destination_leads_out :
    ∃ href href',
      Template.applyCall deepScope .destination [.source 1] = .ok (.loose (.text href)) ∧
      Path.normal (Path.joined "/o/d/e".toList href) = "/o/b.html".toList ∧
      Template.applyCall deepScope .destination [.loose (.text "../x//y.css".toList)] =
        .ok (.loose (.text href')) ∧
      Path.normal (Path.joined "/o/d/e".toList href') = "/x/y.css".toList := by
  have houtput : Path.Plain plainConfiguration.output := ⟨by decide, by decide⟩
  have hpage : Path.Plain deepSource.outputPath := ⟨by decide, by decide⟩
  have hother : Path.Plain topSource.outputPath := ⟨by decide, by decide⟩
  obtain ⟨hsource, hpath⟩ := destination_leads_to_target .empty plainConfiguration {}
    [deepSource, topSource] 0 deepSource [] houtput hpage
  obtain ⟨href, hcall, hleads⟩ := hsource 1 topSource rfl hother
  obtain ⟨href', hcall', hleads'⟩ := hpath "../x//y.css".toList (by decide)
  have hdir : Path.directory deepSource.outputPath = "/o/d/e".toList := by decide
  have htarget : Path.normal (Path.joined plainConfiguration.output "../x//y.css".toList) =
      "/x/y.css".toList := by decide
  rw [hdir] at hleads hleads'
  exact ⟨href, href', hcall, hleads, hcall', hleads'.trans htarget⟩

end Page

end Marginalia
