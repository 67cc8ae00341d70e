import Marginalia.Proofs.FileTree.Growth
import Marginalia.Proofs.Page.Links

/-! # What a page reads

A page is filled from the working directory, its template and the templates that are included. What else
lies beside these makes no difference, unless a template asks for it: an include may ignore that a template
is missing, and then a tree that has the template gives another page. So a page is filled alike in two
trees which agree on the templates that it asks for.
-/
namespace Marginalia

open Text

namespace Template

/-- What comes out of the one comes out of the other. -/
def Carries {α : Type} (x y : Except TemplateFault α) : Prop :=
  ∀ a, x = .ok a → y = .ok a

section Carries

variable {α β : Type} {x y : Except TemplateFault α}

theorem Carries.refl (x : Except TemplateFault α) : Carries x x :=
  fun _ h => h

theorem Carries.bind {f g : α → Except TemplateFault β} (h : Carries x y) (hf : ∀ a, Carries (f a) (g a)) :
    Carries (x >>= f) (y >>= g) := by
  cases x with
  | error fault =>
    intro b hb
    cases hb
  | ok a =>
    rw [h a rfl]
    exact hf a

theorem Carries.mapM {f g : α → Except TemplateFault β} (h : ∀ a, Carries (f a) (g a)) (l : List α) :
    Carries (l.mapM f) (l.mapM g) := by
  induction l with
  | nil => exact .refl _
  | cons a l ih =>
    rw [List.mapM_cons, List.mapM_cons]
    exact (h a).bind fun b => ih.bind fun bs => .refl _

end Carries

section Fill

variable {load load' : Scope → Item → Bool → Except TemplateFault (List Char)}

mutual

/-- A part that is filled with some templates is filled alike with more. -/
theorem renderNode_carries (hload : ∀ sc x ignore, Carries (load sc x ignore) (load' sc x ignore))
    (sc : Scope) (n : Node) : Carries (renderNode load sc n) (renderNode load' sc n) := by
  cases n with
  | text s | print e | assign m e =>
    simp only [renderNode]
    exact .refl _
  | includes e ignore =>
    simp only [renderNode]
    exact (Carries.refl _).bind fun x => (hload sc x ignore).bind fun s => .refl _
  | branch c body otherwise =>
    have hchosen : ∀ holds : Bool,
        Carries (if holds then renderNodes load sc body else renderNodes load sc otherwise)
          (if holds then renderNodes load' sc body else renderNodes load' sc otherwise) := by
      intro holds
      cases holds with
      | true => exact renderNodes_carries hload sc body
      | false => exact renderNodes_carries hload sc otherwise
    simp only [renderNode]
    cases c with
    | none => exact (Carries.refl _).bind hchosen
    | some c => exact (Carries.refl _).bind fun x => (Carries.refl _).bind hchosen
  | loop targets items body otherwise =>
    simp only [renderNode_loop]
    refine Carries.bind (.refl _) fun x => ?_
    split
    · exact .refl _
    · exact (renderNodes_carries hload sc otherwise).bind fun filled => .refl _
    · refine (Carries.mapM (fun round => ?_) _).bind fun rounds => .refl _
      obtain ⟨y, i⟩ := round
      exact (Carries.refl _).bind fun bound => (renderNodes_carries hload _ body).bind fun filled => .refl _

theorem renderNodes_carries (hload : ∀ sc x ignore, Carries (load sc x ignore) (load' sc x ignore))
    (sc : Scope) (ns : List Node) : Carries (renderNodes load sc ns) (renderNodes load' sc ns) := by
  cases ns with
  | nil =>
    simp only [renderNodes]
    exact .refl _
  | cons n ns =>
    simp only [renderNodes]
    refine (renderNode_carries hload sc n).bind fun first => ?_
    exact (renderNodes_carries hload first.2 ns).bind fun rest => .refl _

end

end Fill

section Include

variable {t u : FileTree} {dir : List Char} {asked : List (List Char)}

/-- Templates of certain names. Any other name ends in a fault that no include ignores. -/
def only (asked : List (List Char)) (source : List Char → Except TemplateFault (List Char))
    (name : List Char) : Except TemplateFault (List Char) :=
  if name ∈ asked then source name else .error .notText

theorem sourceOf_congr {name : List Char} (h : t.Agrees u (pathIn dir name)) :
    sourceOf t dir name = sourceOf u dir name := by
  unfold sourceOf
  dsimp only
  split
  · rfl
  · unfold FileTree.Agrees at h
    generalize pathIn dir name = path at h ⊢
    cases ht : t.stat path with
    | ok x =>
      have hu := (h x).mp ht
      simp only [FileTree.isFile, FileTree.read, ht, hu]
    | error fault =>
      cases hu : u.stat path with
      | ok x =>
        rw [(h x).mpr hu] at ht
        simp at ht
      | error fault' => simp only [FileTree.isFile, ht, hu, Bool.false_eq_true, ↓reduceIte]

theorem only_congr (h : ∀ name ∈ asked, t.Agrees u (pathIn dir name)) :
    only asked (sourceOf t dir) = only asked (sourceOf u dir) := by
  funext name
  unfold only
  split
  · next hname => exact sourceOf_congr (h name hname)
  · rfl

/-- What is included with certain templates at hand is included alike with all of them. -/
theorem renderIncluded_carries (source : List Char → Except TemplateFault (List Char)) (depth : Nat)
    (sc : Scope) (x : Item) (ignore : Bool) :
    Carries (renderIncluded (only asked source) depth sc x ignore)
      (renderIncluded source depth sc x ignore) := by
  induction depth generalizing sc x ignore with
  | zero => exact .refl _
  | succ depth ih =>
    unfold renderIncluded
    split
    · next name =>
      by_cases hname : name ∈ asked
      · simp only [only, if_pos hname]
        split
        · exact .refl _
        · exact (Carries.refl _).bind fun nodes => (renderNodes_carries ih sc nodes).bind fun filled => .refl _
      · intro out h
        simp [only, hname, TemplateFault.isMissing] at h
    · exact .refl _
    · exact .refl _

/-- A template asks for templates of certain names only: it is filled with no other at hand. -/
def Loaded.AsksFor (tpl : Loaded) (asked : List (List Char)) (t : FileTree) (sc : Scope) : Prop :=
  ∃ filled, renderNodes (renderIncluded (only asked (sourceOf t tpl.dir)) maxIncludes) sc tpl.nodes =
    .ok filled

/-- A template is filled from the templates that it asks for. -/
theorem Loaded.render_congr {tpl : Loaded} {sc : Scope} (hasks : tpl.AsksFor asked t sc)
    (h : ∀ name ∈ asked, t.Agrees u (pathIn tpl.dir name)) : tpl.render u sc = tpl.render t sc := by
  obtain ⟨filled, hfilled⟩ := hasks
  have hall : ∀ v : FileTree, renderNodes (renderIncluded (only asked (sourceOf v tpl.dir)) maxIncludes) sc
      tpl.nodes = .ok filled → renderNodes (renderIncluded (sourceOf v tpl.dir) maxIncludes) sc tpl.nodes =
        .ok filled :=
    fun v => renderNodes_carries (renderIncluded_carries _ maxIncludes) sc tpl.nodes filled
  rw [render, render, hall t hfilled, hall u (only_congr h ▸ hfilled)]

end Include

end Template

/-- A page depends on the templates that it asks for only. -/
theorem Page.render_congr {t u : FileTree} {c : Configuration} {setup : Markdown.Setup}
    {sources : List Source} {i : Nat} {s : Source} {given : List (List Char × Template.Item)}
    {asked : List (List Char)} (hcwd : u.cwd = t.cwd)
    (hasks : c.template.AsksFor asked t (scope t c setup sources i s given))
    (h : ∀ name ∈ asked, t.Agrees u (Template.pathIn c.template.dir name)) :
    Page.render u c setup sources i s given = Page.render t c setup sources i s given := by
  have hlink : Page.link u = Page.link t := by
    funext output page target
    simp only [Page.link, FileTree.relative, hcwd]
  have hvars : Page.vars u c setup sources i s = Page.vars t c setup sources i s := by
    simp only [Page.vars, Page.stylesheetLink, hlink]
  have hsame := Template.Loaded.render_congr hasks h
  simp only [scope] at hsame
  simp only [Page.render, hvars, hlink, hsame]

end Marginalia
