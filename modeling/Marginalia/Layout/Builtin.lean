import Marginalia.Layout

/-! # The layouts that are always there

Two layouts: one with prose and code side by side, one with code below its prose. -/
namespace Marginalia.Layouts

open Text

def fileOf (ls : List String) : Entry :=
  .file (ls.foldl (fun text l => text ++ l ++ "\n") "").toUTF8

def parallelPage : List String := [
  "<!DOCTYPE html>",
  "<html>",
  "<head>",
  "  <meta charset=\"utf-8\">",
  "  <meta name=\"viewport\" content=\"width=device-width, initial-scale=1\">",
  "  <title>\x7b\x7b title|e \x7d\x7d</title>",
  "  <link rel=\"stylesheet\" href=\"\x7b\x7b destination('public/style.css') \x7d\x7d\">",
  "\x7b% if css %\x7d",
  "  <link rel=\"stylesheet\" href=\"\x7b\x7b css \x7d\x7d\">",
  "\x7b% endif %\x7d",
  "</head>",
  "<body>",
  "  <div id=\"container\">",
  "    <div id=\"background\"></div>",
  "\x7b% if sources|length > 1 %\x7d",
  "    <div id=\"jump_to\">",
  "      Jump To &hellip;",
  "      <div id=\"jump_wrapper\">",
  "        <div id=\"jump_page\">",
  "\x7b% for other in sources %\x7d",
  "          <a class=\"source\x7b% if other is sameas source %\x7d current\x7b% endif %\x7d\" href=\"\x7b\x7b destination(other) \x7d\x7d\">\x7b\x7b other.name|e \x7d\x7d</a>",
  "\x7b% endfor %\x7d",
  "        </div>",
  "      </div>",
  "    </div>",
  "\x7b% endif %\x7d",
  "    <table cellpadding=\"0\" cellspacing=\"0\">",
  "\x7b% if not has_title %\x7d",
  "      <thead>",
  "        <tr>",
  "          <th class=\"docs\"><h1>\x7b\x7b title|e \x7d\x7d</h1></th>",
  "          <th class=\"code\"></th>",
  "        </tr>",
  "      </thead>",
  "\x7b% endif %\x7d",
  "      <tbody>",
  "\x7b% for section in sections %\x7d",
  "        <tr id=\"section-\x7b\x7b loop.index \x7d\x7d\">",
  "          <td class=\"docs\">",
  "            <div class=\"pilwrap\">",
  "              <a class=\"pilcrow\" href=\"#section-\x7b\x7b loop.index \x7d\x7d\">&#182;</a>",
  "            </div>",
  "            \x7b\x7b section.docs_html \x7d\x7d",
  "          </td>",
  "          <td class=\"code\">",
  "            \x7b\x7b section.code_html \x7d\x7d",
  "          </td>",
  "        </tr>",
  "\x7b% endfor %\x7d",
  "      </tbody>",
  "    </table>",
  "  </div>",
  "</body>",
  "</html>"]

/-- The stylesheet of pages with prose and code side by side. -/
def parallelStyle : List String := [
  "body \x7b",
  "  font-family: \"Palatino Linotype\", \"Book Antiqua\", Palatino, serif;",
  "  font-size: 15px;",
  "  line-height: 22px;",
  "  color: #252519;",
  "  margin: 0;",
  "  padding: 0;",
  "\x7d",
  "a \x7b color: #261a3b; \x7d",
  "a:visited \x7b color: #261a3b; \x7d",
  "p \x7b margin: 0 0 15px 0; \x7d",
  "h1, h2, h3, h4, h5, h6 \x7b margin: 0 0 15px 0; \x7d",
  "h1 \x7b margin-top: 40px; \x7d",
  "#container \x7b position: relative; \x7d",
  "#background \x7b",
  "  position: fixed;",
  "  top: 0; left: 525px; right: 0; bottom: 0;",
  "  background: #f5f5ff;",
  "  border-left: 1px solid #e5e5ee;",
  "  z-index: -1;",
  "\x7d",
  "#jump_to, #jump_page \x7b",
  "  background: white;",
  "  box-shadow: 0 0 25px #777;",
  "  font: 10px Arial;",
  "  text-transform: uppercase;",
  "  cursor: pointer;",
  "  text-align: right;",
  "\x7d",
  "#jump_to, #jump_wrapper \x7b",
  "  position: fixed;",
  "  right: 0; top: 0;",
  "  padding: 5px 10px;",
  "\x7d",
  "#jump_wrapper \x7b padding: 0; display: none; \x7d",
  "#jump_to:hover #jump_wrapper \x7b display: block; \x7d",
  "#jump_page \x7b padding: 5px 0 3px; margin: 0 0 25px 25px; \x7d",
  "#jump_page .source \x7b",
  "  display: block;",
  "  padding: 5px 10px;",
  "  text-decoration: none;",
  "  border-top: 1px solid #eee;",
  "\x7d",
  "#jump_page .source:hover \x7b background: #f5f5ff; \x7d",
  "#jump_page .source.current \x7b font-weight: bold; \x7d",
  "table td \x7b border: 0; outline: 0; \x7d",
  "td.docs, th.docs \x7b",
  "  max-width: 450px;",
  "  min-width: 450px;",
  "  min-height: 5px;",
  "  padding: 10px 25px 1px 50px;",
  "  overflow-x: hidden;",
  "  vertical-align: top;",
  "  text-align: left;",
  "\x7d",
  ".docs pre \x7b margin: 15px 0 15px; padding-left: 15px; \x7d",
  ".docs p tt, .docs p code \x7b",
  "  background: #f8f8ff;",
  "  border: 1px solid #dedede;",
  "  font-size: 12px;",
  "  padding: 0 0.2em;",
  "\x7d",
  ".pilwrap \x7b position: relative; \x7d",
  ".pilcrow \x7b",
  "  font: 12px Arial;",
  "  text-decoration: none;",
  "  color: #454545;",
  "  position: absolute;",
  "  top: 3px; left: -20px;",
  "  padding: 1px 2px;",
  "  opacity: 0;",
  "\x7d",
  "td.docs:hover .pilcrow \x7b opacity: 1; \x7d",
  "td.code, th.code \x7b",
  "  padding: 14px 15px 16px 25px;",
  "  width: 100%;",
  "  vertical-align: top;",
  "  background: #f5f5ff;",
  "  border-left: 1px solid #e5e5ee;",
  "\x7d",
  "pre, tt, code \x7b",
  "  font-size: 12px;",
  "  line-height: 18px;",
  "  font-family: Menlo, Monaco, Consolas, \"Lucida Console\", monospace;",
  "  margin: 0;",
  "  padding: 0;",
  "\x7d",
  ".highlight .c, .highlight .c1, .highlight .cm \x7b color: #408080; font-style: italic; \x7d",
  ".highlight .k, .highlight .kd, .highlight .kr \x7b color: #954121; \x7d",
  ".highlight .s, .highlight .s1, .highlight .s2, .highlight .sr \x7b color: #219161; \x7d",
  ".highlight .m, .highlight .mi, .highlight .mf \x7b color: #666666; \x7d",
  ".highlight .nf, .highlight .nx \x7b color: #19469D; \x7d",
  ".highlight .o, .highlight .p \x7b color: #4c4c4c; \x7d"]

def linearPage : List String := [
  "<!DOCTYPE html>",
  "<html>",
  "<head>",
  "  <meta charset=\"utf-8\">",
  "  <meta name=\"viewport\" content=\"width=device-width, initial-scale=1\">",
  "  <title>\x7b\x7b title|e \x7d\x7d</title>",
  "  <link rel=\"stylesheet\" href=\"\x7b\x7b destination('public/style.css') \x7d\x7d\">",
  "\x7b% if css %\x7d",
  "  <link rel=\"stylesheet\" href=\"\x7b\x7b css \x7d\x7d\">",
  "\x7b% endif %\x7d",
  "</head>",
  "<body>",
  "  <div class=\"container\">",
  "\x7b% if sources|length > 1 %\x7d",
  "    <nav class=\"toc\">",
  "      <ol>",
  "\x7b% for other in sources %\x7d",
  "        <li\x7b% if other is sameas source %\x7d class=\"current\"\x7b% endif %\x7d><a href=\"\x7b\x7b destination(other) \x7d\x7d\">\x7b\x7b other.name|e \x7d\x7d</a></li>",
  "\x7b% endfor %\x7d",
  "      </ol>",
  "    </nav>",
  "\x7b% endif %\x7d",
  "    <div class=\"page\">",
  "\x7b% if not has_title %\x7d",
  "      <div class=\"header\">",
  "        <h1>\x7b\x7b title|e \x7d\x7d</h1>",
  "      </div>",
  "\x7b% endif %\x7d",
  "\x7b% for section in sections %\x7d",
  "      <div class=\"section\" id=\"section-\x7b\x7b loop.index \x7d\x7d\">",
  "\x7b% if section.docs_text %\x7d",
  "        <div class=\"docs\">\x7b\x7b section.docs_html \x7d\x7d</div>",
  "\x7b% endif %\x7d",
  "\x7b% if section.code_text %\x7d",
  "        <div class=\"code\">\x7b\x7b section.code_html \x7d\x7d</div>",
  "\x7b% endif %\x7d",
  "      </div>",
  "\x7b% endfor %\x7d",
  "    </div>",
  "  </div>",
  "</body>",
  "</html>"]

def linearStyle : List String := [
  "body \x7b",
  "  font-family: Georgia, \"Times New Roman\", serif;",
  "  font-size: 16px;",
  "  line-height: 24px;",
  "  color: #30404f;",
  "  background: #fdfdfb;",
  "  margin: 0;",
  "\x7d",
  "a \x7b color: #0c5a8a; \x7d",
  ".container \x7b max-width: 760px; margin: 0 auto; padding: 30px 20px 60px; \x7d",
  ".toc \x7b font: 13px \"Helvetica Neue\", Arial, sans-serif; margin-bottom: 30px; \x7d",
  ".toc ol \x7b list-style: none; padding: 0; margin: 0; \x7d",
  ".toc li \x7b display: inline-block; margin-right: 14px; \x7d",
  ".toc li.current a \x7b font-weight: bold; text-decoration: none; color: #30404f; \x7d",
  ".header h1, .docs h1 \x7b font-size: 36px; line-height: 44px; margin: 20px 0; \x7d",
  ".section \x7b margin-bottom: 28px; \x7d",
  ".docs p \x7b margin: 0 0 16px; \x7d",
  ".code \x7b",
  "  background: #f4f4f1;",
  "  border: 1px solid #e6e6e1;",
  "  border-radius: 3px;",
  "  padding: 12px 16px;",
  "  overflow-x: auto;",
  "\x7d",
  "pre, code \x7b",
  "  font-family: Menlo, Monaco, Consolas, \"Courier New\", monospace;",
  "  font-size: 13px;",
  "  line-height: 19px;",
  "  margin: 0;",
  "\x7d",
  ".docs code \x7b background: #f4f4f1; padding: 0 3px; \x7d",
  ".highlight .c, .highlight .c1, .highlight .cm \x7b color: #8a8a80; font-style: italic; \x7d",
  ".highlight .k, .highlight .kd, .highlight .kr \x7b color: #a0426a; \x7d",
  ".highlight .s, .highlight .s1, .highlight .s2, .highlight .sr \x7b color: #3a8a3a; \x7d",
  ".highlight .m, .highlight .mi, .highlight .mf \x7b color: #b3661a; \x7d",
  ".highlight .nf, .highlight .nx \x7b color: #2a5a9a; \x7d"]

/-- The files of the layouts, by their way from the directory of layouts. -/
def builtin : List (Place × Entry) :=
  [(["linear".toList], .dir),
   (["linear".toList, "page.html".toList], fileOf linearPage),
   (["linear".toList, "public".toList], .dir),
   (["linear".toList, "public".toList, "style.css".toList], fileOf linearStyle),
   (["parallel".toList], .dir),
   (["parallel".toList, "page.html".toList], fileOf parallelPage),
   (["parallel".toList, "public".toList], .dir),
   (["parallel".toList, "public".toList, "style.css".toList], fileOf parallelStyle)]

def mount (t : FileTree) (root : Place) : FileTree :=
  builtin.foldl (fun t (p, e) => t.put (root ++ p) e) t

end Marginalia.Layouts
