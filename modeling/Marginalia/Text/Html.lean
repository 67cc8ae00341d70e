import Marginalia.Text.Chars

/-! # Text in markup

Two ways of writing text into a page: inside elements only the three signs of markup are written as
entities, and inside templates both quotes too.
-/
namespace Marginalia.Text

def escapeChar (c : Char) : List Char :=
  if c = '&' then "&amp;".toList
  else if c = '<' then "&lt;".toList
  else if c = '>' then "&gt;".toList
  else [c]

/-- Text inside an element. -/
def escapeText (s : List Char) : List Char :=
  s.flatMap escapeChar

def escapeQuotedChar (c : Char) : List Char :=
  if c = '"' then "&#34;".toList
  else if c = '\'' then "&#39;".toList
  else escapeChar c

/-- Text inside an element or an attribute. -/
def escapeQuoted (s : List Char) : List Char :=
  s.flatMap escapeQuotedChar

end Marginalia.Text
