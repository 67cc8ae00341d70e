import Marginalia.Proofs.Layout.Pages

/-! # Filled pages

The template of each layout that is always there, filled with what the page of a source shows, never fails
and gives the parts of that page.
-/
namespace Marginalia

open Text Template

namespace Page

/-- What the templates of both layouts find of a page. -/
structure Offers (sc : Scope) (p : Contents) (i : Nat) : Prop where
  title : sc.vars.lookup "title".toList = some (.loose (.text p.title))
  hasTitle : sc.vars.lookup "has_title".toList = some (.loose (.bool p.hasTitle))
  style : sc.link Layouts.styleTarget = p.style
  css : sc.vars.lookup "css".toList = some (.loose ((p.css.map .text).getD .null))
  css_ne_nil : p.css ≠ some []
  destination : sc.vars.lookup "destination".toList = some .destination
  source : sc.vars.lookup "source".toList = some (.source i)
  sources : sc.vars.lookup "sources".toList = some (.list ((List.range sc.sources.length).map .source))
  jumps : p.jumps = sc.sources.zipIdx.map fun (o, j) => ⟨j = i, sc.link o.outputPath, o.name⟩
  sections : sc.vars.lookup "sections".toList = some (.list (p.sections.map .part))

theorem link_ne_nil (t : FileTree) (output page target : List Char) : link t output page target ≠ [] :=
  Path.text_ne_nil (Path.spelled_parse _)

theorem offers_scope (t : FileTree) (c : Configuration) (setup : Markdown.Setup) (sources : List Source)
    (i : Nat) (s : Source) (given : List (List Char × Item)) :
    Offers (scope t c setup sources i s given) (contents t c setup sources i s) i where
  title := by simp [scope, vars, contents, List.lookup_cons]
  hasTitle := by simp [scope, vars, contents, List.lookup_cons]
  style := by simp only [scope, contents]
  css := by
    cases hcss : c.css <;> simp [scope, vars, contents, List.lookup_cons, stylesheetLink, hcss]
  css_ne_nil := by simp [contents, link_ne_nil]
  destination := by simp [scope, vars, List.lookup_cons]
  source := by simp [scope, vars]
  sources := by simp [scope, vars, List.lookup_cons]
  jumps := by simp only [scope, contents]
  sections := by simp [scope, vars, contents, List.lookup_cons]

end Page

namespace Layouts

section Expressions

variable {sc : Scope} {e : Expr} {x : Item} {n : String} {v : List Char}

theorem eval_var (h : sc.vars.lookup n.toList = some x) : eval sc (var n) = .ok x := by
  simp only [var, eval, h, Option.getD_some]

theorem eval_escaped (h : eval sc e = .ok (.loose (.text v))) :
    eval sc (escaped e) = .ok (.loose (.text (escapeQuoted v))) := by
  simp only [escaped, eval, h, evalAll, bind, Except.bind, applyFilter, String.ofList_toList, Item.text,
    Value.toText]

theorem eval_linkTo (hd : sc.vars.lookup "destination".toList = some .destination)
    (he : eval sc e = .ok x) (h : applyCall sc .destination [x] = .ok (.loose (.text v))) :
    eval sc (linkTo e) = .ok (.loose (.text v)) := by
  simp only [linkTo, eval, eval_var hd, he, evalAll, evalNamed, bind, Except.bind, pure, Except.pure, h]

theorem eval_field {f : String} (h : sc.vars.lookup n.toList = some x) :
    eval sc (field n f) = x.attr sc f.toList := by
  simp only [field, eval, eval_var h, bind, Except.bind]

variable {load : Scope → Item → Bool → Except TemplateFault (List Char)} {ns : List Node} {ps : List Part}

theorem fills_escaped (he : eval sc e = .ok (.loose (.text v))) (h : Fills load sc ns ps) :
    Fills load sc (.print (escaped e) :: ns) (.text v :: ps) :=
  .print (eval_escaped he) (by rw [Item.text, Value.toText, Part.written]) h

theorem fills_link (he : eval sc e = .ok (.loose (.text v))) (h : Fills load sc ns ps) :
    Fills load sc (.print e :: ns) (.link v :: ps) :=
  .print he (by rw [Item.text, Value.toText, Part.written]) h

theorem fills_markup (he : eval sc e = .ok (.loose (.text v))) (h : Fills load sc ns ps) :
    Fills load sc (.print e :: ns) (.markup v :: ps) :=
  .print he (by rw [Item.text, Value.toText, Part.written]) h

end Expressions

section Round

variable (sc : Scope) (n : List Char) (x : Item) (k count : Nat)

theorem lookup_round_self : (sc.round n x k count).vars.lookup n = some x := by
  simp only [Scope.round, List.lookup_cons, BEq.rfl]

theorem lookup_round_loop (h : ("loop".toList == n) = false) :
    (sc.round n x k count).vars.lookup "loop".toList = some (.rounds k count) := by
  simp only [Scope.round, List.lookup_cons, h, BEq.rfl]

theorem lookup_round_of_ne {m : List Char} (h : (m == n) = false) (h' : (m == "loop".toList) = false) :
    (sc.round n x k count).vars.lookup m = sc.vars.lookup m := by
  simp only [Scope.round, List.lookup_cons, h, h']

end Round

section Frame

variable {load : Scope → Item → Bool → Except TemplateFault (List Char)} {sc : Scope} {p : Page.Contents}
  {i : Nat} (h : Page.Offers sc p i)
include h

theorem fills_jump (f : Frame) {k count : Nat} {j : Page.Jump} (hj : p.jumps[k]? = some j) :
    Fills load (sc.round "other".toList (.source k) k count) f.jumpNodes (f.jumpParts j) := by
  rw [h.jumps, List.getElem?_map, Option.map_eq_some_iff] at hj
  obtain ⟨⟨o, k'⟩, ho, rfl⟩ := hj
  rw [List.getElem?_zipIdx, Option.map_eq_some_iff] at ho
  obtain ⟨o, ho, heq⟩ := ho
  simp only [Nat.zero_add, Prod.mk.injEq] at heq
  obtain ⟨rfl, rfl⟩ := heq
  have hother := lookup_round_self sc "other".toList (.source k) k count
  -- the round binds only its own two names, so what the page offers is still found
  have hdest := (lookup_round_of_ne sc "other".toList (.source k) k count (m := "destination".toList)
    (by decide) (by decide)).trans h.destination
  have hsource := (lookup_round_of_ne sc "other".toList (.source k) k count (m := "source".toList)
    (by decide) (by decide)).trans h.source
  have hname : eval (sc.round "other".toList (.source k) k count) (field "other" "name") =
      .ok (.loose (.text o.name)) := by
    rw [eval_field hother]
    simp only [Item.attr, Scope.round, ho, String.ofList_toList]
  have hcall : applyCall (sc.round "other".toList (.source k) k count) .destination [.source k] =
      .ok (.loose (.text (sc.link o.outputPath))) := by
    simp only [applyCall, Scope.round, ho, Option.map_some, Option.getD_some]
  have htest : eval (sc.round "other".toList (.source k) k count)
      (.test (var "other") "sameas".toList [var "source"]) = .ok (.loose (.bool (decide (k = i)))) := by
    simp only [eval, eval_var hother, evalAll, eval_var hsource, applyTest, String.ofList_toList, bind,
      Except.bind, pure, Except.pure, Item.same]
  unfold Frame.jumpNodes Frame.jumpParts
  exact .fixed (.branch htest (by simp [Item.truthy, Value.truthy]) (fun _ => .fixed .nil)
    (.fixed (fills_link (eval_linkTo hdest (eval_var hother) hcall)
      (.fixed (fills_escaped hname (.fixed .nil))))))

theorem fills_css {ns : List Node} {ps : List Part} (hrest : Fills load sc ns ps) :
    Fills load sc (cssNode :: ns) (cssParts p ++ ps) := by
  have hcss := eval_var h.css
  refine .branch hcss ?_ (fun hsome => ?_) hrest
  · cases hp : p.css with
    | none => simp [Item.truthy, Value.truthy]
    | some v => simpa [Item.truthy, Value.truthy, hp] using h.css_ne_nil
  · obtain ⟨v, hv⟩ := Option.isSome_iff_exists.mp hsome
    rw [hv, Option.getD_some]
    refine .fixed (fills_link ?_ (.fixed .nil))
    rw [hcss, hv]
    rfl

theorem fills_frame (f : Frame) {body : List Node} {ps : List Part} (hbody : Fills load sc body ps) :
    Fills load sc (f.nodes body) (f.parts p ps) := by
  have htitle := eval_var h.title
  have hstyle : eval sc (linkTo (.literal (.text styleTarget))) = .ok (.loose (.text p.style)) := by
    refine eval_linkTo h.destination (by rw [eval]) ?_
    simp only [applyCall, h.style]
  have hsources := eval_var h.sources
  have hmany : eval sc (.compare .gt (.filter (var "sources") "length".toList []) (.literal (.int 1))) =
      .ok (.loose (.bool (decide (1 < sc.sources.length)))) := by
    simp only [eval, hsources, evalAll, applyFilter, String.ofList_toList, bind, Except.bind, pure,
      Except.pure, Item.length?, Item.items?, Option.map_some, List.length_map, List.length_range,
      compareItems, before?]
    norm_cast
  -- the template counts the sources, the page its links; there is one for each source
  have hcount : p.jumps.length = sc.sources.length := by simp [h.jumps]
  have hno : eval sc (.not (var "has_title")) = .ok (.loose (.bool !p.hasTitle)) := by
    simp only [eval, eval_var h.hasTitle, bind, Except.bind, pure, Except.pure, Item.truthy, Value.truthy]
  unfold Frame.nodes Frame.parts
  refine .fixed (fills_escaped htitle (.fixed (fills_link hstyle (.fixed (fills_css h (.fixed ?_))))))
  refine .branch hmany (by simp [Item.truthy, Value.truthy, hcount]) (fun _ => .fixed ?_) ?_
  · refine .loop hsources rfl (by simp [hcount]) (fun k y r hy hr => ?_) (.fixed .nil)
    rw [List.getElem?_map, Option.map_eq_some_iff] at hy hr
    obtain ⟨k', hk', rfl⟩ := hy
    obtain ⟨j, hj, rfl⟩ := hr
    obtain ⟨hk, rfl⟩ := List.getElem?_eq_some_iff.mp hk'
    rw [List.getElem_range]
    exact fills_jump h f hj
  · exact .fixed (.branch hno (by simp [Item.truthy, Value.truthy]) (fun _ => .fixed
      (fills_escaped htitle (.fixed .nil))) hbody)

theorem fills_sections {body ns : List Node} {part : Section × Nat → List Part} {ps : List Part}
    (hbody : ∀ s k count, Fills load (sc.round "section".toList (.part s) k count) body (part (s, k)))
    (hrest : Fills load sc ns ps) :
    Fills load sc (.loop ["section".toList] (var "sections") body [] :: ns)
      ((p.sections.zipIdx.map part).flatten ++ ps) := by
  refine .loop (eval_var h.sections) rfl (by simp) (fun k y r hy hr => ?_) hrest
  rw [List.getElem?_map, Option.map_eq_some_iff] at hy hr
  obtain ⟨s, hs, rfl⟩ := hy
  obtain ⟨⟨s', k'⟩, hr, rfl⟩ := hr
  rw [List.getElem?_zipIdx, Option.map_eq_some_iff] at hr
  obtain ⟨s'', hs', heq⟩ := hr
  simp only [Nat.zero_add, Prod.mk.injEq] at heq
  obtain ⟨rfl, rfl⟩ := heq
  cases hs.symm.trans hs'
  exact hbody s k _

end Frame

section Sections

variable {load : Scope → Item → Bool → Except TemplateFault (List Char)} (sc : Scope) (s : Section)
  (k count : Nat)

theorem fills_index {ns : List Node} {ps : List Part}
    (h : Fills load (sc.round "section".toList (.part s) k count) ns ps) :
    Fills load (sc.round "section".toList (.part s) k count) (.print (field "loop" "index") :: ns)
      (.fixed (sectionNumber k) :: ps) := by
  refine .print (x := .loose (.int (k + 1 : Nat))) ?_ (by rw [Item.text, Part.written, sectionNumber]) h
  rw [eval_field (lookup_round_loop _ _ _ _ _ (by decide))]
  simp only [Item.attr, String.ofList_toList]

theorem eval_section {f : String} {v : List Char}
    (h : (Item.part s).attr (sc.round "section".toList (.part s) k count) f.toList = .ok (.loose (.text v))) :
    eval (sc.round "section".toList (.part s) k count) (field "section" f) = .ok (.loose (.text v)) := by
  rw [eval_field (lookup_round_self ..), h]

theorem fills_linearSection : Fills load (sc.round "section".toList (.part s) k count) linearSectionNodes
    (linearSection (s, k)) := by
  have hdocs := eval_section sc s k count (f := "docs_text") (v := s.docs)
    (by simp only [Item.attr, String.ofList_toList])
  have hdocsMarkup := eval_section sc s k count (f := "docs_html") (v := s.docsMarkup)
    (by simp only [Item.attr, String.ofList_toList])
  have hcode := eval_section sc s k count (f := "code_text") (v := s.code)
    (by simp only [Item.attr, String.ofList_toList])
  have hcodeMarkup := eval_section sc s k count (f := "code_html") (v := s.codeMarkup)
    (by simp only [Item.attr, String.ofList_toList])
  unfold linearSectionNodes linearSection
  exact .fixed (fills_index sc s k count (.fixed
    (.branch hdocs (by simp [Item.truthy, Value.truthy])
        (fun _ => .fixed (fills_markup hdocsMarkup (.fixed .nil)))
      (.branch hcode (by simp [Item.truthy, Value.truthy])
          (fun _ => .fixed (fills_markup hcodeMarkup (.fixed .nil)))
        (.fixed .nil)))))

theorem fills_parallelSection : Fills load (sc.round "section".toList (.part s) k count)
    parallelSectionNodes (parallelSection (s, k)) := by
  have hdocs := eval_section sc s k count (f := "docs_html") (v := s.docsMarkup)
    (by simp only [Item.attr, String.ofList_toList])
  have hcode := eval_section sc s k count (f := "code_html") (v := s.codeMarkup)
    (by simp only [Item.attr, String.ofList_toList])
  unfold parallelSectionNodes parallelSection
  exact .fixed (fills_index sc s k count (.fixed (fills_index sc s k count
    (.fixed (fills_markup hdocs (.fixed (fills_markup hcode (.fixed .nil))))))))

end Sections

theorem Known.fills (k : Known) {load : Scope → Item → Bool → Except TemplateFault (List Char)} {sc : Scope}
    {p : Page.Contents} {i : Nat} (h : Page.Offers sc p i) : Fills load sc k.nodes (k.parts p) :=
  match k with
  | linear => fills_frame h _ (fills_sections h (fills_linearSection sc) (.fixed .nil))
  | parallel => fills_frame h _ (.fixed (fills_sections h (fills_parallelSection sc) (.fixed .nil)))

end Layouts

namespace Page

/-- The page of a source in a layout that is always there is written in its parts. -/
theorem render_known (k : Layouts.Known) (t : FileTree) {c : Configuration}
    (hlayout : Template.parse (foldNewlines (Layouts.linesText k.page)) = .ok c.template.nodes)
    (setup : Markdown.Setup) (sources : List Source) (i : Nat) (s : Source)
    {given : List (List Char × Item)}
    (hgiven : (given.any fun (n, _) => ((vars t c setup sources i s).lookup n).isSome) = false) :
    render t c setup sources i s given = .ok (written (k.parts (contents t c setup sources i s))) := by
  have hnodes : c.template.nodes = k.nodes := by
    rw [k.parse_page] at hlayout
    exact (Except.ok.inj hlayout).symm
  have hfills : Fills (renderIncluded (sourceOf t c.template.dir) maxIncludes) _ k.nodes _ :=
    k.fills (offers_scope t c setup sources i s given)
  refine (render_eq_ok_iff ..).mpr ⟨hgiven, ?_⟩
  rw [Loaded.render, hnodes, hfills]
  rfl

/-- A configuration with the layout that puts code below its prose. -/
def linearConfiguration : Configuration :=
  { plainConfiguration with template := ⟨Layouts.Known.linear.nodes, "/l/linear".toList⟩ }

end Page

end Marginalia
