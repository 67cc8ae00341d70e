import Marginalia.Proofs.Layout.Builtin
import Marginalia.Proofs.Page.Links
import Marginalia.Proofs.Template.Parts

/-! # The pages of the layouts that are always there

Both layouts put their pages into one frame: a head with the title and the stylesheets, links to all pages
where there are several, a header where the prose has no title of its own, and the sections. A page is told
in parts, from the template that is read from the layout.
-/
namespace Marginalia

open Text Template

namespace Page

/-- A link to a page, and whether it is the page it stands on. -/
structure Jump where
  current : Bool
  href : List Char
  name : List Char

/-- What a page shows. -/
structure Contents where
  title : List Char
  /-- Whether the title is a heading of the prose. -/
  hasTitle : Bool
  /-- The link to the stylesheet of the layout. -/
  style : List Char
  /-- The link to the stylesheet of the user. -/
  css : Option (List Char)
  jumps : List Jump
  sections : List Section

/-- What the page of a source shows. -/
def contents (t : FileTree) (c : Configuration) (setup : Markdown.Setup) (sources : List Source) (i : Nat)
    (s : Source) : Contents where
  title := (s.title setup).1
  hasTitle := (s.title setup).2
  style := link t c.output s.outputPath Layouts.styleTarget
  css := c.css.map fun css => link t c.output s.outputPath (Path.baseName css)
  jumps := sources.zipIdx.map fun (o, j) => ⟨j = i, link t c.output s.outputPath o.outputPath, o.name⟩
  sections := s.sections

end Page

namespace Layouts

section Frame

def var (n : String) : Expr :=
  .name n.toList

/-- A value that is printed escaped. -/
def escaped (e : Expr) : Expr :=
  .filter e "e".toList []

def field (n f : String) : Expr :=
  .attr (var n) f.toList

/-- The link to what an expression stands for. -/
def linkTo (e : Expr) : Expr :=
  .call (var "destination") [e] []

/-- What a layout writes around the parts that both have. -/
structure Frame where
  bodyStart : String
  jumpsStart : String
  jumpStart : String
  /-- What marks the link to the page itself. -/
  mark : String
  jumpLink : String
  jumpEnd : String
  jumpsEnd : String
  contentStart : String
  headerStart : String
  headerEnd : String

/-- What comes before the title. -/
def headStart : String :=
  "<!DOCTYPE html>\n<html>\n<head>\n  <meta charset=\"utf-8\">\n" ++
    "  <meta name=\"viewport\" content=\"width=device-width, initial-scale=1\">\n  <title>"

/-- The link to the stylesheet of the user, if there is one. -/
def cssNode : Node :=
  .branch (some (var "css"))
    [.text "  <link rel=\"stylesheet\" href=\"".toList, .print (var "css"), .text "\">\n".toList] []

def Frame.jumpNodes (f : Frame) : List Node :=
  [.text f.jumpStart.toList,
   .branch (some (.test (var "other") "sameas".toList [var "source"])) [.text f.mark.toList] [],
   .text f.jumpLink.toList, .print (linkTo (var "other")), .text "\">".toList,
   .print (escaped (field "other" "name")), .text ("</a>" ++ f.jumpEnd).toList]

/-- The template of a frame around the nodes that show the sections. -/
def Frame.nodes (f : Frame) (body : List Node) : List Node :=
  .text headStart.toList :: .print (escaped (var "title")) ::
  .text "</title>\n  <link rel=\"stylesheet\" href=\"".toList ::
  .print (linkTo (.literal (.text styleTarget))) :: .text "\">\n".toList ::
  cssNode ::
  .text f.bodyStart.toList ::
  .branch (some (.compare .gt (.filter (var "sources") "length".toList []) (.literal (.int 1))))
    [.text f.jumpsStart.toList,
     .loop ["other".toList] (var "sources") f.jumpNodes [], .text f.jumpsEnd.toList] [] ::
  .text f.contentStart.toList ::
  .branch (some (.not (var "has_title")))
    [.text (f.headerStart ++ "<h1>").toList, .print (escaped (var "title")),
     .text ("</h1>" ++ f.headerEnd).toList] [] ::
  body

/-- The frame of pages with code below its prose. -/
def linearFrame : Frame where
  bodyStart := "</head>\n<body>\n  <div class=\"container\">\n"
  jumpsStart := "    <nav class=\"toc\">\n      <ol>\n"
  jumpStart := "        <li"
  mark := " class=\"current\""
  jumpLink := "><a href=\""
  jumpEnd := "</li>\n"
  jumpsEnd := "      </ol>\n    </nav>\n"
  contentStart := "    <div class=\"page\">\n"
  headerStart := "      <div class=\"header\">\n        "
  headerEnd := "\n      </div>\n"

/-- A section with code below its prose. -/
def linearSectionNodes : List Node :=
  [.text "      <div class=\"section\" id=\"section-".toList, .print (field "loop" "index"),
   .text "\">\n".toList,
   .branch (some (field "section" "docs_text"))
     [.text "        <div class=\"docs\">".toList, .print (field "section" "docs_html"),
      .text "</div>\n".toList] [],
   .branch (some (field "section" "code_text"))
     [.text "        <div class=\"code\">".toList, .print (field "section" "code_html"),
      .text "</div>\n".toList] [],
   .text "      </div>\n".toList]

def linearBody : List Node :=
  [.loop ["section".toList] (var "sections") linearSectionNodes [],
   .text "    </div>\n  </div>\n</body>\n</html>".toList]

/-- The frame of pages with prose and code side by side. -/
def parallelFrame : Frame where
  bodyStart := "</head>\n<body>\n  <div id=\"container\">\n    <div id=\"background\"></div>\n"
  jumpsStart := "    <div id=\"jump_to\">\n      Jump To &hellip;\n      <div id=\"jump_wrapper\">\n" ++
    "        <div id=\"jump_page\">\n"
  jumpStart := "          <a class=\"source"
  mark := " current"
  jumpLink := "\" href=\""
  jumpEnd := "\n"
  jumpsEnd := "        </div>\n      </div>\n    </div>\n"
  contentStart := "    <table cellpadding=\"0\" cellspacing=\"0\">\n"
  headerStart := "      <thead>\n        <tr>\n          <th class=\"docs\">"
  headerEnd := "</th>\n          <th class=\"code\"></th>\n        </tr>\n      </thead>\n"

/-- A section with prose and code side by side. -/
def parallelSectionNodes : List Node :=
  [.text "        <tr id=\"section-".toList, .print (field "loop" "index"),
   .text ("\">\n          <td class=\"docs\">\n            <div class=\"pilwrap\">\n" ++
     "              <a class=\"pilcrow\" href=\"#section-").toList, .print (field "loop" "index"),
   .text "\">&#182;</a>\n            </div>\n            ".toList,
   .print (field "section" "docs_html"),
   .text "\n          </td>\n          <td class=\"code\">\n            ".toList,
   .print (field "section" "code_html"), .text "\n          </td>\n        </tr>\n".toList]

def parallelBody : List Node :=
  [.text "      <tbody>\n".toList, .loop ["section".toList] (var "sections") parallelSectionNodes [],
   .text "      </tbody>\n    </table>\n  </div>\n</body>\n</html>".toList]

end Frame

section Parts

def Frame.jumpParts (f : Frame) (j : Page.Jump) : List Part :=
  .fixed f.jumpStart.toList :: ((if j.current = true then [.fixed f.mark.toList] else []) ++
    [.fixed f.jumpLink.toList, .link j.href, .fixed "\">".toList, .text j.name,
     .fixed ("</a>" ++ f.jumpEnd).toList])

def cssParts (p : Page.Contents) : List Part :=
  if p.css.isSome = true then
    [.fixed "  <link rel=\"stylesheet\" href=\"".toList, .link (p.css.getD []), .fixed "\">\n".toList]
  else []

/-- The parts of a page in a frame, with those of its sections. -/
def Frame.parts (f : Frame) (p : Page.Contents) (body : List Part) : List Part :=
  .fixed headStart.toList :: .text p.title ::
  .fixed "</title>\n  <link rel=\"stylesheet\" href=\"".toList :: .link p.style ::
  .fixed "\">\n".toList ::
  (cssParts p ++ .fixed f.bodyStart.toList ::
   ((if 1 < p.jumps.length then
       .fixed f.jumpsStart.toList :: ((p.jumps.map f.jumpParts).flatten ++ [.fixed f.jumpsEnd.toList])
     else []) ++
    .fixed f.contentStart.toList ::
    ((if p.hasTitle = false then
        [.fixed (f.headerStart ++ "<h1>").toList, .text p.title, .fixed ("</h1>" ++ f.headerEnd).toList]
      else []) ++ body)))

/-- The number of a section as it is printed; counted from one. -/
def sectionNumber (k : Nat) : List Char :=
  (Value.int (k + 1 : Nat)).toText

def linearSection : Section × Nat → List Part := fun (s, k) =>
  .fixed "      <div class=\"section\" id=\"section-".toList :: .fixed (sectionNumber k) ::
  .fixed "\">\n".toList ::
  ((if s.docs ≠ [] then
      [.fixed "        <div class=\"docs\">".toList, .markup s.docsMarkup, .fixed "</div>\n".toList]
    else []) ++
   ((if s.code ≠ [] then
       [.fixed "        <div class=\"code\">".toList, .markup s.codeMarkup, .fixed "</div>\n".toList]
     else []) ++
    [.fixed "      </div>\n".toList]))

def parallelSection : Section × Nat → List Part := fun (s, k) =>
  [.fixed "        <tr id=\"section-".toList, .fixed (sectionNumber k),
   .fixed ("\">\n          <td class=\"docs\">\n            <div class=\"pilwrap\">\n" ++
     "              <a class=\"pilcrow\" href=\"#section-").toList, .fixed (sectionNumber k),
   .fixed "\">&#182;</a>\n            </div>\n            ".toList, .markup s.docsMarkup,
   .fixed "\n          </td>\n          <td class=\"code\">\n            ".toList, .markup s.codeMarkup,
   .fixed "\n          </td>\n        </tr>\n".toList]

end Parts

/-- The layouts that are always there. -/
inductive Known where
  /-- Code below its prose. -/
  | linear
  /-- Prose and code side by side. -/
  | parallel

namespace Known

def page : Known → List String
  | linear => linearPage
  | parallel => parallelPage

def nodes : Known → List Node
  | linear => linearFrame.nodes linearBody
  | parallel => parallelFrame.nodes parallelBody

def parts (p : Page.Contents) : Known → List Part
  | linear => linearFrame.parts p ((p.sections.zipIdx.map linearSection).flatten ++
      [.fixed "    </div>\n  </div>\n</body>\n</html>".toList])
  | parallel => parallelFrame.parts p (.fixed "      <tbody>\n".toList ::
      ((p.sections.zipIdx.map parallelSection).flatten ++
        [.fixed "      </tbody>\n    </table>\n  </div>\n</body>\n</html>".toList]))

set_option maxRecDepth 100000 in
theorem parse_linear : parse (foldNewlines (linesText linearPage)) = .ok (nodes linear) := by
  unfold linearPage
  repeat rw [linesText_cons]
  rw [linesText_nil]
  rfl

set_option maxRecDepth 100000 in
theorem parse_parallel : parse (foldNewlines (linesText parallelPage)) = .ok (nodes parallel) := by
  unfold parallelPage
  repeat rw [linesText_cons]
  rw [linesText_nil]
  rfl

theorem parse_page (k : Known) : parse (foldNewlines (linesText k.page)) = .ok k.nodes :=
  match k with
  | linear => parse_linear
  | parallel => parse_parallel

end Known

end Layouts
end Marginalia
