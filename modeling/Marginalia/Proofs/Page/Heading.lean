import Marginalia.Proofs.Markdown.Blank
import Marginalia.Proofs.Markdown.Title
import Marginalia.Proofs.Page.Filled

/-! # Headings of pages

Every page has a heading of the first level. If the title of a source comes from its prose, that prose is
printed with the heading first, and the heading shows the title unless spans are found in it. If the title
comes from elsewhere, both layouts show the name of the source as a heading.
-/
namespace Marginalia

open Text Template

namespace Source

variable {setup : Markdown.Setup} {s : Source}

/-- A title of the prose is that of the first section with prose, which is not blank. -/
theorem exists_of_title_shown (h : (s.title setup).2 = true) :
    ∃ p, s.sections.find? (fun p => !p.docs.isEmpty) = some p ∧ allBlank p.docs = false ∧
      Markdown.title? setup p.docs = some (s.title setup).1 := by
  unfold title at h ⊢
  split
  · next t ht =>
    obtain ⟨p, hp, htitle⟩ := Option.bind_eq_some_iff.mp ht
    refine ⟨p, hp, Bool.eq_false_iff.mpr fun hblank => ?_, htitle⟩
    rw [Markdown.title?_of_blank setup hblank] at htitle
    cases htitle
  · next hnone =>
    rw [hnone] at h
    cases h

theorem title_of_not_shown (h : (s.title setup).2 = false) : (s.title setup).1 = s.name := by
  unfold title at h ⊢
  split
  · next ht =>
    rw [ht] at h
    cases h
  · rfl

end Source

namespace Layouts

theorem header_infix (f : Frame) {p : Page.Contents} (h : p.hasTitle = false) (body : List Part) :
    [.fixed (f.headerStart ++ "<h1>").toList, .text p.title, .fixed ("</h1>" ++ f.headerEnd).toList] <:+:
      f.parts p body := by
  unfold Frame.parts
  rw [if_pos h]
  refine List.infix_cons (List.infix_cons (List.infix_cons (List.infix_cons (List.infix_cons ?_))))
  refine .trans (List.infix_cons ?_) (List.suffix_append _ _).isInfix
  refine .trans (List.infix_cons ?_) (List.suffix_append _ _).isInfix
  exact (List.prefix_append _ _).isInfix

/-- Both layouts write the title as a heading where the prose has none. -/
theorem Known.header_infix (k : Known) {p : Page.Contents} (h : p.hasTitle = false) :
    "<h1>".toList ++ escapeQuoted p.title ++ "</h1>".toList <:+: written (k.parts p) := by
  obtain ⟨f, body, hparts⟩ : ∃ f body, k.parts p = Frame.parts f p body := by
    cases k <;> exact ⟨_, _, rfl⟩
  obtain ⟨before, after, heq⟩ := Layouts.header_infix f h body
  refine ⟨written before ++ f.headerStart.toList, f.headerEnd.toList ++ written after, ?_⟩
  rw [hparts, ← heq]
  simp only [written_append, written_cons, written_nil, Part.written, String.toList_append,
    List.append_assoc, List.append_nil]

end Layouts

namespace Page

/-- A title that comes from the prose of a source is a heading at the start of the prose as it is printed.
Any other page has the name of its source as a heading, in both layouts that are always there. -/
theorem page_has_heading (setup : Markdown.Setup) (s : Source) :
    ((s.title setup).2 = true → ∃ p, s.sections.find? (fun p => !p.docs.isEmpty) = some p ∧
      "<h1>".toList <+: Markdown.render setup p.docs) ∧
    ((s.title setup).2 = false → ∀ (k : Layouts.Known) t c sources i given,
      Template.parse (foldNewlines (Layouts.linesText k.page)) = .ok c.template.nodes →
      (given.any fun (n, _) => ((vars t c setup sources i s).lookup n).isSome) = false →
        ∃ page, render t c setup sources i s given = .ok page ∧
          "<h1>".toList ++ escapeQuoted s.name ++ "</h1>".toList <:+: page) := by
  refine ⟨fun h => ?_, fun h k t c sources i given hlayout hgiven => ?_⟩
  · obtain ⟨p, hp, hblank, htitle⟩ := Source.exists_of_title_shown h
    exact ⟨p, hp, Markdown.heading_starts_render hblank htitle⟩
  · refine ⟨_, render_known k t hlayout setup sources i s hgiven, ?_⟩
    rw [← Source.title_of_not_shown h]
    exact k.header_infix (p := contents t c setup sources i s) h

/-- A source whose prose starts with a heading. -/
def headedSource : Source :=
  { topSource with sections := [{ docs := "\n# T #\nx".toList, code := [] }] }

/-- One page with a heading in its prose, and one with the name of its source as a heading. -/
theorem page_has_heading_both :
    "<h1>".toList <+: Markdown.render {} "\n# T #\nx".toList ∧
      ∃ page, render .empty linearConfiguration {} [topSource] 0 topSource [] = .ok page ∧
        "<h1>".toList ++ escapeQuoted "b.md".toList ++ "</h1>".toList <:+: page := by
  constructor
  · obtain ⟨p, hp, hprefix⟩ := (page_has_heading {} headedSource).1 (by decide +kernel)
    cases hp
    exact hprefix
  · exact (page_has_heading {} topSource).2 rfl .linear .empty linearConfiguration [topSource] 0 []
      (Layouts.Known.parse_page .linear) rfl

/-- A title that comes from the prose of a source is what the first heading of that prose shows, if the
heading shows itself. -/
theorem heading_shows_title (setup : Markdown.Setup) {s : Source} (h : (s.title setup).2 = true) :
    ∃ p, s.sections.find? (fun p => !p.docs.isEmpty) = some p ∧
      (Markdown.ShowsItself setup (Markdown.definedLinks setup p.docs) (s.title setup).1 →
        Markdown.headingText? (Markdown.render setup p.docs) = some (s.title setup).1) := by
  obtain ⟨p, hp, hblank, htitle⟩ := Source.exists_of_title_shown h
  exact ⟨p, hp, Markdown.headingText?_render hblank htitle⟩

/-- A source whose heading has emphasis in it. -/
def stressedSource : Source :=
  { topSource with sections := [{ docs := "# *Em*".toList, code := [] }] }

/-- A plain heading shows the title, one with emphasis does not. -/
theorem heading_shows_title_plain :
    Markdown.headingText? (Markdown.render {} "\n# T #\nx".toList) = some "T".toList ∧
      stressedSource.title {} = ("*Em*".toList, true) ∧
      Markdown.headingText? (Markdown.render {} "# *Em*".toList) = some "Em".toList := by
  refine ⟨?_, by decide +kernel, by decide +kernel⟩
  have htitle : headedSource.title {} = ("T".toList, true) := by decide +kernel
  obtain ⟨p, hp, hshows⟩ := heading_shows_title {} (s := headedSource) (by rw [htitle])
  cases hp
  rw [htitle] at hshows
  exact hshows (Markdown.showsItself_of_no_sign _ _ (by simp [Markdown.isSign]) (by decide))

end Page

end Marginalia
