import Marginalia.Configuration
import Marginalia.Highlight.Markup
import Marginalia.Markdown.Document

/-! # Pages

A page is the template filled with a source, its sections as markup, its title and links to the other
pages. Links are spelled from the directory of the page.
-/
namespace Marginalia

open Text

def Section.marked (setup : Markdown.Setup) (s : Section) : Section :=
  { s with docsMarkup := Markdown.render setup s.docs, codeMarkup := Highlight.codeMarkup s.code }

namespace Source

def marked (setup : Markdown.Setup) (s : Source) : Source :=
  { s with sections := s.sections.map (·.marked setup) }

/-- The title of a page, and whether the page shows it itself: the heading its prose starts with, else
the name of the source. -/
def title (setup : Markdown.Setup) (s : Source) : List Char × Bool :=
  match (s.sections.find? fun p => !p.docs.isEmpty).bind (Markdown.title? setup ·.docs) with
  | some heading => (heading, true)
  | none => (s.name, false)

end Source

namespace Page

/-- The link from a page to a path below the output directory. -/
def link (t : FileTree) (output page target : List Char) : List Char :=
  (Path.parse (t.relative (Path.joined output target) (Path.directory page))).text

/-- The link to the stylesheet, if there is one. -/
def stylesheetLink (t : FileTree) (c : Configuration) (page : List Char) : Template.Item :=
  match c.css with
  | some css => .loose (.text (link t c.output page (Path.baseName css)))
  | none => .loose .null

/-- What the template sees of a page by itself. -/
def vars (t : FileTree) (c : Configuration) (setup : Markdown.Setup) (sources : List Source) (i : Nat)
    (s : Source) : List (List Char × Template.Item) :=
  let (title, hasTitle) := s.title setup
  [("source".toList, .source i),
   ("sources".toList, .list ((List.range sources.length).map .source)),
   ("title".toList, .loose (.text title)),
   ("has_title".toList, .loose (.bool hasTitle)),
   ("sections".toList, .list (s.sections.map .part)),
   ("destination".toList, .destination),
   ("css".toList, stylesheetLink t c s.outputPath)]

/-- The page of a source whose sections are markup already. What is given besides must not repeat what
the template sees anyway. -/
def render (t : FileTree) (c : Configuration) (setup : Markdown.Setup) (sources : List Source) (i : Nat)
    (s : Source) (given : List (List Char × Template.Item)) : Except TemplateFault (List Char) :=
  let own := vars t c setup sources i s
  if given.any fun (n, _) => (own.lookup n).isSome then .error .type
  else c.template.render t { vars := own ++ given, sources, link := link t c.output s.outputPath }

end Page
end Marginalia
