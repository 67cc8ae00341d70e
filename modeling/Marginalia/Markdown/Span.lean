import Marginalia.Markdown.Block
import Marginalia.Markdown.Emphasis
import Marginalia.Markdown.Entity
import Marginalia.Markdown.Link
import Marginalia.Markdown.Mark

/-! # Spans

Inside a block, spans are found by rules that run one after the other: code, escapes, links, images,
addresses, line breaks, markup, entities, emphasis. What a rule finds is kept aside under a mark, so
that later rules pass over it.
-/
namespace Marginalia.Markdown

open Text

/-- What was kept aside under a mark. -/
inductive Span where
  | text (s : List Char)
  | element (e : Element)

/-- Everything that was kept aside: spans, and finished markup. -/
structure Aside where
  spans : List Span := []
  kept : Kept

abbrev SpanM := StateM Aside

def keepSpan (s : Span) : SpanM (List Char) := fun a =>
  (spanMark a.spans.length, { a with spans := a.spans ++ [s] })

def keepRaw (markup : List Char) : SpanM (List Char) := fun a =>
  let (mark, kept) := keep markup a.kept
  (mark, { a with kept })

def plainSpans (s : List Char) : SpanM (List Char) := fun a =>
  (replaceMarks spanWord (fun n => match a.spans[n]? with
    | some (.text t) => t
    | some (.element e) => e.plain
    | none => []) s.length s, a)

/-- The text with every span in it as markup; a text is shown after a backslash. -/
def markupSpans (s : List Char) : SpanM (List Char) := fun a =>
  (replaceMarks spanWord (fun n => match a.spans[n]? with
    | some (.text t) => '\\' :: t
    | some (.element e) => e.markup
    | none => []) s.length s, a)

/-- What a rule makes of a match. -/
inductive Outcome where
  /-- It is no match: the search goes on after it. -/
  | reject
  /-- It stays as it is: the search starts again after it. -/
  | pass (done rest : List Char)
  /-- A span stands for it; `rest` follows. -/
  | found (s : Span) (rest : List Char)

/-- A pattern and what is made of its match; `done` is what stands before it. -/
structure SpanRule where
  pattern : Pattern
  handle : (done : List Char) → Pattern.Match → SpanM Outcome

def escapable (s : Setup) : List Char :=
  "\\`*_\x7b\x7d[]()>#+-.!".toList ++ if s.tables.isSome then ['|'] else []

def codeRuleSpan : SpanRule where
  pattern := .alt
    (.before (· ≠ some '\\') ++ .group 1 (.plus (.lit "\\\\")) ++ .ahead (.lit "`"))
    (.before (· ≠ some '\\') ++ .group 2 (.many (· = '`') 1 none) ++ .group 3 (anything 1) ++
      .before (· ≠ some '`') ++ .again 2 ++ .next (· ≠ some '`'))
  handle _ m := pure <| match m.group? 3 with
    | some code =>
      .found (.element { tag := "code", text := escapeText (strip code), fixed := true }) m.rest
    | none =>
      .found (.text (replaceAll ['\\', '\\'] (charMark '\\') (m.group 1))) m.rest

def escapeRule (s : Setup) : SpanRule where
  pattern := .lit "\\" ++ .group 1 .anyChar
  handle _ m := pure <| match m.group 1 with
    | [c] => if (escapable s).contains c then .found (.text (charMark c)) m.rest
      else .pass m.done m.rest
    | _ => .reject

/-- The opening bracket of a link; an image is none. -/
def linkOpen : Pattern :=
  .before (· ≠ some '!') ++ .lit "["

def imageOpen : Pattern :=
  .lit "!["

def linkElement (target : List Char) (title : Option (List Char)) (text : List Char) : Element :=
  { tag := "a", attrs := ("href", target) :: (title.map (("title", ·))).toList, text }

def imageElement (target : List Char) (title : Option (List Char)) (text : List Char) :
    SpanM Element := do
  return { tag := "img"
           attrs := ("src", target) :: (title.map (("title", ·))).toList ++ [("alt", ← plainSpans text)] }

def openElement (image : Bool) (target : List Char) (title : Option (List Char))
    (text : List Char) : SpanM Element :=
  if image then imageElement target title text else pure (linkElement target title text)

/-- A link or an image with its target in round brackets. -/
def inlineLinkRule (image : Bool) : SpanRule where
  pattern := if image then imageOpen else linkOpen
  handle _ m := do
    match (bracketed? 1 m.rest).bind fun (text, rest) => (linkEnd? rest).map (text, ·) with
    | none => return .reject
    | some (text, e) =>
      let title ← e.title.mapM fun t => do
        return cleanTitle (dequote (← plainSpans (strip t)))
      let target := strip (← plainSpans e.target)
      return .found (.element (← openElement image target title text)) e.rest

/-- A link or an image with its target defined elsewhere, under a name of its own or the text. -/
def namedLinkRule (refs : References) (image short : Bool) : SpanRule where
  pattern := if image then imageOpen else linkOpen
  handle done m := do
    match bracketed? 1 m.rest with
    | none => return .reject
    | some (text, rest) =>
      let name := if short then some (lower text, rest)
        else (namePattern.match? rest).map fun n =>
          (lower (if (n.group 1).isEmpty then text else n.group 1), n.rest)
      match name with
      | none => return .reject
      | some (name, rest) =>
        match refs.lookup (squeeze name) with
        | none =>
          let read := (m.text ++ m.rest).take (m.text.length + m.rest.length - rest.length)
          return .pass (read.reverse ++ done) rest
        | some r =>
          let title := r.title.filter (!·.isEmpty)
          return .found (.element (← openElement image r.target title text)) rest

def anyCase (c : Char) : Pattern :=
  .one fun d => d = c || d = c.toUpper

def addressRule : SpanRule where
  pattern := .lit "<" ++
    .group 1 (.alt (anyCase 'f') (anyCase 'h' ++ anyCase 't') ++ anyCase 't' ++ anyCase 'p' ++
      .opt (anyCase 's') ++ .lit "://" ++ .manyNoneOf "<>" 0) ++ .lit ">"
  handle _ m := do
    let target ← plainSpans (m.group 1)
    return .found (.element { tag := "a", attrs := [("href", target)], text := m.group 1, fixed := true })
      m.rest

/-- A character written as its number after an ampersand that stays. -/
def numberEntity (c : Char) : List Char :=
  ampMark ++ '#' :: natText c.toNat ++ [';']

def namedEntity (c : Char) : List Char :=
  match entityName? c with
  | some n => ampMark ++ n.toList ++ [';']
  | none => numberEntity c

/-- A mail address in angle brackets, hidden from those who collect them. -/
def mailRule : SpanRule where
  pattern := .lit "<" ++ .group 1 (.manyNoneOf "<> !" 1 ++ .lit "@" ++ .manyNoneOf "@<> " 1) ++ .lit ">"
  handle _ m := do
    let given ← plainSpans (m.group 1)
    let mail := (after? "mailto:".toList given).getD given
    return .found (.element { tag := "a"
                              attrs := [("href", ("mailto:".toList ++ mail).flatMap numberEntity)]
                              text := mail.flatMap namedEntity, fixed := true }) m.rest

def tagRule (pattern : Pattern) (tag : String) : SpanRule where
  pattern
  handle _ m := pure (.found (.element { tag }) m.rest)

def rawRule (pattern : Pattern) : SpanRule where
  pattern
  handle _ m := do
    let mark ← keepRaw (restoreChars (← markupSpans m.text))
    return .found (.text mark) m.rest

def markupPattern : Pattern :=
  .lit "<" ++ .alt
    (.opt (.lit "/") ++ .one Char.isAlpha ++ .manyNoneOf "<>@ " 0 ++
      .opt (.lit " " ++ .manyNoneOf "<>" 0))
    (.lit "!--" ++ .star (.notAhead (.alt (.lit "<!--") (.lit "-->")) ++ .anyChar) ++ .lit "--") ++
    .lit ">"

def entityPattern : Pattern :=
  .lit "&" ++ .firstOf [.lit "#" ++ .many Char.isDigit 1 none,
    .lit "#x" ++ .many (fun c => (hexDigit? c).isSome) 1 none, .many Char.isAlphanum 1 none] ++ .lit ";"

def loneSignRule : SpanRule where
  pattern := .alt .textStart (.before fun c => c.any isBlank) ++
    .alt (.many (· = '*') 1 (some 3)) (.many (· = '_') 1 (some 3)) ++
    .alt (.ahead (.one isBlank)) .lastLineEnd
  handle _ m := pure (.found (.text m.text) m.rest)

def emphasisRule (sign : Char) : SpanRule where
  pattern := .one (· = sign)
  handle done m := pure <| match emphasisAt? sign done (m.text ++ m.rest) with
    | some (e, rest) => .found (.element e) rest
    | none => .reject

/-- The rules in the order in which they run. -/
def spanRules (s : Setup) (refs : References) : List SpanRule :=
  [codeRuleSpan, escapeRule s, namedLinkRule refs false false, inlineLinkRule false,
   inlineLinkRule true, namedLinkRule refs true false, namedLinkRule refs false true,
   namedLinkRule refs true true, addressRule, mailRule, tagRule (.lit "  \n") "br",
   rawRule markupPattern, rawRule entityPattern, loneSignRule, emphasisRule '*', emphasisRule '_'] ++
  if s.breaks then [tagRule (.lit "\n") "br"] else []

/-- The first match of a rule that is no reject, with what stands before it. -/
def firstFound (r : SpanRule) : Nat → List Char → List Char → SpanM (Option (List Char × Outcome))
  | 0, _, _ => pure none
  | fuel + 1, done, rest =>
    match r.pattern.search? done rest with
    | none => pure none
    | some (before, m) => do
      match ← r.handle before m with
      | .reject => firstFound r fuel m.done m.rest
      | outcome => return some (before, outcome)

/-- Runs rules from the one at an index on; the search for it starts at a place in the text. -/
def runRules (rs : List SpanRule) : Nat → Nat → List Char → List Char → SpanM (List Char)
  | 0, _, done, rest => pure (done.reverse ++ rest)
  | fuel + 1, index, done, rest =>
    match rs[index]? with
    | none => pure (done.reverse ++ rest)
    | some r => do
      match ← firstFound r (rest.length + 1) done rest with
      | none | some (_, .reject) => runRules rs fuel (index + 1) [] (done.reverse ++ rest)
      | some (_, .pass done rest) => runRules rs fuel index done rest
      | some (before, .found s rest) =>
        let s ← match s with
          | .text t => pure (Span.text t)
          | .element e =>
            if e.fixed then pure (.element e)
            else do
              let text ← runRules rs fuel (index + 1) [] e.text
              let children ← e.children.mapM fun c => do
                let text ← if c.fixed then pure c.text else runRules rs fuel (index + 1) [] c.text
                let tail ← runRules rs fuel index [] c.tail
                return { c with text, tail }
              pure (.element { e with text, children })
        let mark ← keepSpan s
        runRules rs fuel index [] (before.reverse ++ mark ++ rest)

def findSpans (rs : List SpanRule) (s : List Char) : SpanM (List Char) :=
  runRules rs (20 * s.length + 100) 0 [] s

def cutMarks : Nat → List Char → List (Char ⊕ Nat)
  | 0, s => s.map .inl
  | _, [] => []
  | fuel + 1, c :: s =>
    match numbered? spanWord (c :: s) with
    | some (n, rest) => .inr n :: cutMarks fuel rest
    | none => .inl c :: cutMarks fuel s

abbrev Mixed := List Char × List Element

def consText (s : List Char) (m : Mixed) : Mixed :=
  (s ++ m.1, m.2)

/-- Puts an element in front of a mixed content, the text of which becomes its tail. -/
def consElement (e : Element) (m : Mixed) : Mixed :=
  ([], { e with tail := e.tail ++ m.1 } :: m.2)

/-- Puts the spans back for their marks, in the spans themselves too. -/
def resolve (spans : List Span) : Nat → List Char → Mixed
  | 0, s => (s, [])
  | fuel + 1, s =>
    let inside (s : List Char) : Mixed := if allBlank s then (s, []) else resolve spans fuel s
    let element (e : Element) : Element :=
      let (text, front) := inside e.text
      let children := e.children.flatMap fun c =>
        let (text, front) := inside c.text
        let (tail, after) := inside c.tail
        { c with text, tail, children := front ++ c.children
                 fixed := c.fixed && text == c.text } :: after
      { e with text, children := front ++ children, fixed := e.fixed && text == e.text }
    (cutMarks s.length s).foldr (fun piece m => match piece with
      | .inl c => consText [c] m
      | .inr n => match spans[n]? with
        | some (.text t) => consText t m
        | some (.element e) => consElement (element e) m
        | none => consText (spanMark n) m) ([], [])

def mixed (rs : List SpanRule) (s : List Char) : SpanM Mixed := do
  let s ← findSpans rs s
  return resolve (← get).spans ((← get).spans.length + 1) s

/-- Finds the spans in elements and in all that lies in them. Elements that come up behind an element are
gone through as well. -/
def spanElements (rs : List SpanRule) : Nat → List Element → SpanM (List Element)
  | 0, es => pure es
  | _, [] => pure []
  | fuel + 1, e :: es => do
    let (text, front) ← if e.fixed || e.text.isEmpty then pure (e.text, []) else mixed rs e.text
    let (tail, after) ← if e.tail.isEmpty then pure ([], []) else mixed rs e.tail
    let children ←
      if e.children.isEmpty then
        front.mapM fun f => do return { f with children := ← spanElements rs fuel f.children }
      else spanElements rs fuel (front ++ e.children)
    let rest ← spanElements rs fuel (after ++ es)
    return { e with text, tail, children } :: rest

end Marginalia.Markdown
