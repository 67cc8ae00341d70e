import Marginalia.Proofs.Page.Filled
import Marginalia.Proofs.Text.Markup

/-! # Names on pages

A page shows names of files as texts and as links. A text is written escaped and stands before a tag, so it
is read back as it is, whatever it holds. A link is written as it is and stands before a quote: it is read
back exactly if it neither holds a quote nor has something that reads as a reference.
-/
namespace Marginalia

open Text Template

namespace Template

section Placed

/-- The character that ends a part for who reads it. -/
def Part.close? : Part → Option Char
  | text _ => some '<'
  | link _ => some '"'
  | fixed _ | markup _ => none

/-- Each text stands before a tag, each link before a quote. -/
def Placed : List Part → Prop
  | [] => True
  | p :: ps => (∀ d, p.close? = some d → (written ps).head? = some d) ∧ Placed ps

variable {ps qs before after : List Part} {s v : List Char}

theorem Placed.nil : Placed [] := trivial

theorem Placed.fixed (h : Placed ps) : Placed (.fixed s :: ps) :=
  ⟨by simp [Part.close?], h⟩

theorem Placed.markup (h : Placed ps) : Placed (.markup s :: ps) :=
  ⟨by simp [Part.close?], h⟩

theorem head?_written_fixed {d : Char} (hs : s.head? = some d) (ps : List Part) :
    (written (.fixed s :: ps)).head? = some d := by
  rw [written_cons, Part.written, List.head?_append, hs, Option.some_or]

theorem Placed.text (hs : s.head? = some '<') (h : Placed ps) : Placed (.text v :: .fixed s :: ps) :=
  ⟨fun _ hd => Option.some.inj hd ▸ head?_written_fixed hs ps, h.fixed⟩

theorem Placed.link (hs : s.head? = some '"') (h : Placed ps) : Placed (.link v :: .fixed s :: ps) :=
  ⟨fun _ hd => Option.some.inj hd ▸ head?_written_fixed hs ps, h.fixed⟩

theorem Placed.choice {P : Prop} [Decidable P] (h : Placed ps) : Placed (if P then ps else []) := by
  split
  · exact h
  · exact .nil

theorem Placed.append (hps : Placed ps) (hqs : Placed qs) : Placed (ps ++ qs) := by
  induction ps with
  | nil => exact hqs
  | cons p ps ih =>
    rw [List.cons_append]
    refine ⟨fun d hd => ?_, ih hps.2⟩
    rw [written_append, List.head?_append, hps.1 d hd, Option.some_or]

theorem Placed.flatten {rs : List (List Part)} (h : ∀ r ∈ rs, Placed r) : Placed rs.flatten := by
  induction rs with
  | nil => trivial
  | cons r rs ih =>
    rw [List.flatten_cons]
    exact (h r List.mem_cons_self).append (ih fun q hq => h q (List.mem_cons_of_mem _ hq))

theorem Placed.of_append (h : Placed (ps ++ qs)) : Placed qs := by
  induction ps with
  | nil => exact h
  | cons p ps ih => exact ih h.2

theorem drop_written (before after : List Part) :
    (written (before ++ after)).drop (written before).length = written after := by
  rw [written_append, List.drop_left]

theorem Placed.elementText_drop (h : Placed (before ++ .text v :: after)) :
    elementText ((written (before ++ .text v :: after)).drop (written before).length) = v := by
  obtain ⟨r, hr⟩ := List.head?_eq_some_iff.mp (h.of_append.1 '<' rfl)
  rw [drop_written, written_cons, Part.written, hr]
  exact elementText_escapeQuoted v r

/-- A link is read back where it stands if and only if it is verbatim. -/
theorem Placed.attributeValue_drop (h : Placed (before ++ .link v :: after)) :
    attributeValue ((written (before ++ .link v :: after)).drop (written before).length) = v ↔
      Verbatim v := by
  obtain ⟨r, hr⟩ := List.head?_eq_some_iff.mp (h.of_append.1 '"' rfl)
  rw [drop_written, written_cons, Part.written, hr]
  exact attributeValue_eq_iff r

end Placed

section Named

/-- The texts and links among parts. -/
def named (ps : List Part) : List Part :=
  ps.filter (·.close?.isSome)

variable (ps qs : List Part) (s v : List Char)

@[simp]
theorem named_nil : named [] = [] := rfl

@[simp]
theorem named_fixed : named (.fixed s :: ps) = named ps := rfl

@[simp]
theorem named_markup : named (.markup s :: ps) = named ps := rfl

@[simp]
theorem named_text : named (.text v :: ps) = .text v :: named ps := rfl

@[simp]
theorem named_link : named (.link v :: ps) = .link v :: named ps := rfl

@[simp]
theorem named_append : named (ps ++ qs) = named ps ++ named qs :=
  List.filter_append ..

theorem named_flatten (rs : List (List Part)) : named rs.flatten = rs.flatMap named := by
  rw [named, List.filter_flatten, List.flatMap]
  rfl

theorem named_choice (P : Prop) [Decidable P] : named (if P then ps else []) = if P then named ps else [] := by
  split <;> rfl

theorem mem_of_mem_named {p : Part} {ps : List Part} (h : p ∈ named ps) : p ∈ ps :=
  (List.mem_filter.mp h).1

end Named

end Template

namespace Page

/-- The names that a page shows, in order. -/
def Contents.names (p : Contents) : List Part :=
  .text p.title :: .link p.style :: (p.css.toList.map .link ++
    ((if 1 < p.jumps.length then p.jumps.flatMap fun j => [.link j.href, .text j.name] else []) ++
      if p.hasTitle = false then [.text p.title] else []))

end Page

namespace Layouts

section Placed

variable (f : Frame) (p : Page.Contents)

theorem placed_jumpParts (j : Page.Jump) : Placed (f.jumpParts j) :=
  .fixed (.append (.choice (.fixed .nil)) (.fixed (.link rfl (.text (by simp) .nil))))

theorem placed_frame {body : List Part} (h : Placed body) : Placed (f.parts p body) := by
  have hcss : Placed (cssParts p) := .choice (.fixed (.link rfl .nil))
  have hjumps : Placed (p.jumps.map f.jumpParts).flatten := by
    refine .flatten fun r hr => ?_
    obtain ⟨j, -, rfl⟩ := List.mem_map.mp hr
    exact placed_jumpParts f j
  unfold Frame.parts
  exact .fixed (.text rfl (.link rfl (hcss.append (.fixed
    (.append (.choice (.fixed (hjumps.append (.fixed .nil))))
      (.fixed (.append (.choice (.fixed (.text (by simp) .nil))) h)))))))

theorem placed_sections {part : Section × Nat → List Part} (h : ∀ x, Placed (part x)) :
    Placed (p.sections.zipIdx.map part).flatten := by
  refine .flatten fun r hr => ?_
  obtain ⟨x, -, rfl⟩ := List.mem_map.mp hr
  exact h x

theorem Known.placed_parts (k : Known) : Placed (k.parts p) := by
  cases k with
  | linear =>
    refine placed_frame _ _ ((placed_sections p fun (s, k) => ?_).append (.fixed .nil))
    exact .fixed (.fixed (.fixed (.append (.choice (.fixed (.markup (.fixed .nil))))
      (.append (.choice (.fixed (.markup (.fixed .nil)))) (.fixed .nil)))))
  | parallel =>
    refine placed_frame _ _ (.fixed ((placed_sections p fun (s, k) => ?_).append (.fixed .nil)))
    exact .fixed (.fixed (.fixed (.fixed (.fixed (.markup (.fixed (.markup (.fixed .nil))))))))

end Placed

section Names

variable (f : Frame) (p : Page.Contents)

theorem named_jumpParts (j : Page.Jump) : named (f.jumpParts j) = [.link j.href, .text j.name] := by
  simp only [Frame.jumpParts, named_fixed, named_append, named_choice, named_link, named_text, named_nil,
    ite_self, List.nil_append]

theorem named_cssParts : named (cssParts p) = p.css.toList.map .link := by
  rw [cssParts, named_choice]
  cases p.css <;> simp

theorem named_frame (body : List Part) : named (f.parts p body) = p.names ++ named body := by
  simp only [Frame.parts, Page.Contents.names, named_fixed, named_append, named_choice, named_link,
    named_text, named_nil, named_cssParts, named_flatten, List.flatMap_map, named_jumpParts,
    List.append_nil, List.cons_append, List.append_assoc]

theorem named_sections {part : Section × Nat → List Part} (h : ∀ x, named (part x) = []) :
    named (p.sections.zipIdx.map part).flatten = [] := by
  simp [named_flatten, List.flatMap_map, h]

theorem Known.named_parts (k : Known) : named (k.parts p) = p.names := by
  cases k with
  | linear =>
    have hsection : ∀ x, named (linearSection x) = [] := fun _ => by
      simp only [linearSection, named_fixed, named_append, named_choice, named_markup, named_nil, ite_self,
        List.append_nil]
    rw [parts, named_frame, named_append, named_sections p hsection, named_fixed, named_nil,
      List.append_nil, List.append_nil]
  | parallel =>
    rw [parts, named_frame, named_fixed, named_append, named_sections p fun _ => rfl, named_fixed,
      named_nil, List.append_nil, List.append_nil]

end Names

end Layouts

namespace Page

/-- The page of a source in a layout that is always there shows its title, the links to its stylesheets
and, where there are several sources, a link and a name for each of them. Every text on it is read back as
it is. A link is read back as it is exactly if it is verbatim. -/
theorem names_read_back (k : Layouts.Known) (t : FileTree) {c : Configuration}
    (hlayout : Template.parse (foldNewlines (Layouts.linesText k.page)) = .ok c.template.nodes)
    (setup : Markdown.Setup) (sources : List Source) (i : Nat) (s : Source)
    (given : List (List Char × Item))
    (hgiven : (given.any fun (n, _) => ((vars t c setup sources i s).lookup n).isSome) = false) :
    ∃ ps, render t c setup sources i s given = .ok (written ps) ∧
      named ps = (contents t c setup sources i s).names ∧
      (∀ before v after, ps = before ++ .text v :: after →
        elementText ((written ps).drop (written before).length) = v) ∧
      ∀ before v after, ps = before ++ .link v :: after →
        (attributeValue ((written ps).drop (written before).length) = v ↔ Verbatim v) := by
  have hplaced := k.placed_parts (contents t c setup sources i s)
  refine ⟨k.parts (contents t c setup sources i s), render_known k t hlayout setup sources i s hgiven,
    k.named_parts _, fun before v after hps => ?_, fun before v after hps => ?_⟩
  · rw [hps] at hplaced ⊢
    exact hplaced.elementText_drop
  · rw [hps] at hplaced ⊢
    exact hplaced.attributeValue_drop

/-- A source with a quote in its name. -/
def quotedSource : Source :=
  { fullPath := "/w/a\"b.md".toList, name := "a\"b.md".toList, relativeName := "a\"b".toList
    outputPath := "/o/a\"b.html".toList }

/-- A quote in the name of a source ends the link to its page early. -/
theorem quoted_link_not_read_back :
    link .empty linearConfiguration.output quotedSource.outputPath quotedSource.outputPath =
        "a\"b.html".toList ∧
      ∃ before after,
        render .empty linearConfiguration {} [quotedSource, topSource] 0 quotedSource [] =
          .ok (before ++ "a\"b.html".toList ++ after) ∧
        attributeValue ("a\"b.html".toList ++ after) ≠ "a\"b.html".toList := by
  have hlink : link .empty linearConfiguration.output quotedSource.outputPath quotedSource.outputPath =
      "a\"b.html".toList := by decide
  obtain ⟨ps, hrender, hnames, -, hlinks⟩ := names_read_back .linear .empty (c := linearConfiguration)
    (Layouts.Known.parse_page .linear) {} [quotedSource, topSource] 0 quotedSource [] rfl
  have hmem : Part.link "a\"b.html".toList ∈ ps := by
    refine mem_of_mem_named ?_
    rw [hnames, ← hlink]
    simp [Contents.names, contents]
  obtain ⟨before, after, rfl⟩ := List.append_of_mem hmem
  refine ⟨hlink, written before, written after, ?_, fun hread => ?_⟩
  · rw [hrender, written_append, written_cons, Part.written, List.append_assoc]
  · have hdrop := drop_written before (.link "a\"b.html".toList :: after)
    have hiff := hlinks before _ after rfl
    rw [hdrop] at hiff
    exact absurd (hiff.mp hread).unquoted (by decide)

end Page

end Marginalia
