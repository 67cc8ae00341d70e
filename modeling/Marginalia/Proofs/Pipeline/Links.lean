import Marginalia.Proofs.Layout.Builtin
import Marginalia.Proofs.Page.Links
import Marginalia.Proofs.Pipeline.Pages

/-! # Links that lead to files

With a layout that is always there, a page links to the stylesheet of the layout, to the pages of the
sources and to the stylesheet of the configuration. A run into a new directory leaves a file at each of
these places, so no link of a page is dead.
-/
namespace Marginalia.Pipeline

open Text FileTree Source Layouts

section Link

/-- What pages link to: the stylesheet of their layout, all pages, and the stylesheet of the
configuration. -/
def linked (c : Configuration) (kept : List Source) : List (List Char) :=
  styleTarget :: kept.map (·.outputPath) ++ (c.css.map Path.baseName).toList

theorem map_outputPath_markedTo (setup : Markdown.Setup) (kept : List Source) (n : Nat) :
    (markedTo setup kept n).map (·.outputPath) = kept.map (·.outputPath) := by
  have hmarked : outputPath ∘ (fun s => s.marked setup) = outputPath := rfl
  rw [markedTo, List.map_append, List.map_map, hmarked, ← List.map_append, List.take_append_drop]

/-- A link to what lies below the output directory leads there from every page. -/
theorem isFile_link {t u : FileTree} {P : Path} {page target : List Char} {ms : List Name} {q : Place}
    {c : ByteArray} (hP : P.Rooted) (hpage : Beneath P.text page) (hms : ∀ m ∈ ms, IsName m)
    (htarget : Path.joined P.text target = Path.below P.text ms)
    (hstat : u.stat (Path.below P.text ms) = .ok (q, .file c)) :
    u.isFile (Path.normal (Path.joined (Path.directory page) (Page.link t P.text page target))) = true := by
  obtain ⟨ns, n, hns, hn, rfl⟩ := hpage
  have hall : ∀ m ∈ ns ++ [n], IsName m := by simpa [or_imp, forall_and] using ⟨hns, hn⟩
  have hD := hP.append hns
  have hpath : Path.below P.text (ns ++ [n]) = Path.text ⟨P.root, P.segments ++ ns ++ [n]⟩ := by
    rw [Path.below_text hP hall, List.append_assoc]
  have hdir : Path.parse (Path.directory (Path.below P.text (ns ++ [n]))) = ⟨P.root, P.segments ++ ns⟩ := by
    rw [hpath]
    exact parse_directory (hD.append (by simpa using hn))
  have hX := hP.append hms
  rw [Path.below_text hP hms] at htarget hstat
  have hpoint : (Path.parse (Path.joined P.text target)).collapse = ⟨P.root, P.segments ++ ms⟩ := by
    rw [htarget, Path.parse_text hX.spelled, hX.collapse]
  rw [Page.normal_joined_link hD hX rfl hdir hpoint, isFile, hstat]

end Link

section Files

variable {c : Configuration} {setup : Markdown.Setup} {P : Path} {O : Place} {t t' made : FileTree}

/-- The assets of a layout that is always there bring its stylesheet to a new directory. -/
theorem AssetsCopied.style {name : Name} {L : Path} {place : Place} (ht : t.WellFormed)
    (hfresh : Fresh t made P O) (hgrows : Grows t made) (hused : Used t c name L place)
    (hout : c.output = P.text) (hc : AssetsCopied c made t') :
    ∃ q d, t'.stat (Path.below P.text [assetsName, styleName]) = .ok (q, .file d) := by
  obtain ⟨hstat, d, hstyle⟩ := hused.exists_style ht
  obtain ⟨f, hdir, hshape⟩ := stat_of_grows ht hgrows hstat
  obtain rfl := Entry.eq_of_shape_eq hshape (by simp)
  obtain ⟨d', hfile⟩ := hgrows.file hstyle
  have hisDir : made.isDir (Path.joined c.layout assetsName) = true := by
    rw [isDir, hused.layout, hdir]
  have hnames : ∀ n ∈ [assetsName], IsName n := by simpa using isName_assetsName
  have htarget : Path.joined P.text assetsName = Path.below P.text [assetsName] := rfl
  rw [AssetsCopied, if_pos hisDir, hused.layout, hout, htarget,
    Path.joined_text hused.rooted isName_assetsName] at hc
  rw [Path.joined_text hused.rooted isName_assetsName] at hdir
  obtain ⟨d'', hcopied⟩ := hfresh.ready.copyDir_file hnames (hused.rooted.append hnames)
    (hfresh.empty assetsName []) hdir hfile hc
  exact ⟨_, d'', hcopied⟩

/-- The stylesheet of the configuration is copied to a file. -/
theorem StylesheetCopied.file {css : List Char} (hr : Ready t P O) (hout : c.output = P.text)
    (hcss : c.css = some css) (hname : IsName (Path.baseName css)) (hc : StylesheetCopied c t t') :
    ∃ q d, t'.stat (Path.below P.text [Path.baseName css]) = .ok (q, .file d) := by
  have hnames : ∀ n ∈ [Path.baseName css], IsName n := by simpa using hname
  have htarget : Path.joined P.text (Path.baseName css) = Path.below P.text [Path.baseName css] := rfl
  simp only [StylesheetCopied, hcss, hout, htarget] at hc
  obtain ⟨d, -, -, hstat⟩ := hr.copyFile_below hnames hc
  exact ⟨_, d, hstat⟩

theorem PagesWritten.file {a b : View} {kept : List Source} (hr : Ready a.tree P O) (ha : a.sources = kept)
    (hs : ∀ s ∈ kept, Beneath P.text s.outputPath) (h : PagesWritten c setup 0 kept a b)
    (hpipe : ∀ ns, a.tree.get? (O ++ ns) ≠ some .pipe) {s : Source} (hmem : s ∈ kept) :
    ∃ q d, b.tree.stat s.outputPath = .ok (q, .file d) := by
  obtain ⟨j, hget⟩ := List.getElem?_of_mem hmem
  obtain ⟨v, w, hbefore, hpage, -, hafter⟩ := h.page hr ha hs hget
  obtain ⟨ns, n, hns, hn, hpath⟩ := hs s hmem
  have hall : ∀ m ∈ ns ++ [n], IsName m := by simpa [or_imp, forall_and] using ⟨hns, hn⟩
  have hv := hr.of_edits hbefore
  obtain ⟨made, markup, hdirs, hwrite, -, -, hfile | ⟨-, hmade⟩⟩ := hpage.below hv hall hpath
  · have hw := hv.of_edits (Edits.below_of_page hdirs hwrite)
    have hlater := hafter.below hw fun s' hs' => hs s' (List.mem_of_mem_drop hs')
    obtain ⟨f, hf, hshape⟩ := stat_of_grows hw.wellFormed hlater.grows hfile
    obtain ⟨d, rfl⟩ := Entry.exists_file_of_shape hshape
    exact ⟨_, d, hf⟩
  · exact absurd ((hbefore.grows.trans hdirs.grows).pipe_of_pipe hmade) (hpipe _)

/-- What a run leaves that keeps sources and makes its output directory. -/
theorem Outcome.fresh {kept : List Source} {v : View} (ht : t.WellFormed) (hP : P.Rooted)
    (hout : c.output = P.text) (hcss : ∀ css, c.css = some css → IsName (Path.baseName css))
    (hmiss : t.has P.text = false) (hne : kept ≠ []) (h : Outcome c setup t kept v) :
    ∃ O made t₁ t₂, Fresh t made P O ∧ Grows t made ∧ Filled c setup kept O made t₁ t₂ v := by
  have hunique : ∀ {q r}, t.LeadsTo P.text q → t.LeadsTo P.text r → q = r := fun hq hr =>
    ((leadsTo_text_iff hP).mp hq).unique ((leadsTo_text_iff hP).mp hr)
  have hmade : ∃ made, t.makeDirs P.text = ⟨made, none⟩ := by
    rw [Outcome, if_neg hne, hout] at h
    obtain ⟨made, hmade, -⟩ := h
    exact ⟨made, hmade⟩
  obtain ⟨made, hmade⟩ := hmade
  obtain ⟨O, hO, hfresh⟩ := fresh_of_makeDirs ht hP hmiss hmade
  obtain ⟨O', made', t₁, t₂, hO', hmade', -, hfilled⟩ := h.ready ht hP hout hcss
    (fun q hq => linkFree_of_none ht (hunique hO hq ▸ hfresh.missing)) hne
  obtain rfl := hunique hO hO'
  rw [hmade] at hmade'
  cases hmade'
  have hgrows := (FileTree.makeDirs_edits ht hP).grows
  rw [hmade] at hgrows
  exact ⟨O, made, t₁, t₂, hfresh, hgrows, hfilled⟩

/-- A run with a layout that is always there, into a new directory, leaves files at all that its pages
link to. -/
theorem Outcome.exists_files {kept : List Source} {v : View} {name : Name} {L : Path} {place : Place}
    (ht : t.WellFormed) (hP : P.Rooted) (hout : c.output = P.text)
    (hcss : ∀ css, c.css = some css → IsName (Path.baseName css)) (hmiss : t.has P.text = false)
    (hused : Used t c name L place) (hassets : c.assets = true) (hne : kept ≠ [])
    (hs : ∀ s ∈ kept, Beneath P.text s.outputPath) (h : Outcome c setup t kept v) :
    ∀ x ∈ linked c kept, ∃ ms q d, (∀ m ∈ ms, IsName m) ∧
      Path.joined P.text x = Path.below P.text ms ∧
      v.tree.stat (Path.below P.text ms) = .ok (q, .file d) := by
  obtain ⟨O, made, t₁, t₂, hfresh, hgrows, hcopied, hedits, hstyle, hedits', hpages⟩ :=
    h.fresh ht hP hout hcss hmiss hne
  rw [if_pos hassets] at hcopied
  have hr₁ := hfresh.ready.of_edits hedits
  have hr₂ := hr₁.of_edits hedits'
  have hlater := hpages.below hr₂ hs
  -- what is a file before the pages are written is one after
  have hkeep : ∀ {u : FileTree} {path : List Char} {q : Place} {d : ByteArray}, u.WellFormed →
      Grows u v.tree → u.stat path = .ok (q, .file d) → ∃ q d, v.tree.stat path = .ok (q, .file d) := by
    intro u path q d hu hg hstat
    obtain ⟨f, hf, hshape⟩ := stat_of_grows hu hg hstat
    obtain ⟨d', rfl⟩ := Entry.exists_file_of_shape hshape
    exact ⟨q, d', hf⟩
  intro x hx
  simp only [linked, List.cons_append, List.mem_cons, List.mem_append, Option.mem_toList] at hx
  rcases hx with rfl | hx | hx
  · obtain ⟨q, d, hstat⟩ := hcopied.style ht hfresh hgrows hused hout
    obtain ⟨q', d', hfile⟩ := hkeep hr₁.wellFormed (hedits'.grows.trans hlater.grows) hstat
    have hnames : ∀ m ∈ [assetsName, styleName], IsName m := by
      simpa using ⟨isName_assetsName, isName_styleName⟩
    refine ⟨_, q', d', hnames, ?_, hfile⟩
    rw [← join_styleTarget, Path.joined_join_text hP (by simp) hnames, Path.below_text hP hnames]
  · obtain ⟨s, hmem, rfl⟩ := List.mem_map.mp hx
    obtain ⟨ns, n, hns, hn, hpath⟩ := hs s hmem
    have hnames : ∀ m ∈ ns ++ [n], IsName m := by simpa [or_imp, forall_and] using ⟨hns, hn⟩
    have hpipe : ∀ ms, t₂.get? (O ++ ms) ≠ some .pipe := by
      intro ms hpipe
      have hold := (hgrows.trans (hedits.grows.trans hedits'.grows)).pipe_of_pipe hpipe
      simp [ht.none_of_none hfresh.missing ms] at hold
    obtain ⟨q, d, hfile⟩ := PagesWritten.file (a := ⟨kept, t₂⟩) hr₂ rfl hs hpages hpipe hmem
    refine ⟨ns ++ [n], q, d, hnames, ?_, hpath ▸ hfile⟩
    rw [hpath, Path.below_text hP hnames]
    exact Path.joined_of_head ((Path.head?_text (hP.append hnames).spelled).mpr hP.root)
  · obtain ⟨css, hsome, rfl⟩ := Option.map_eq_some_iff.mp hx
    obtain ⟨q, d, hstat⟩ := hstyle.file hr₁ hout hsome (hcss css hsome)
    obtain ⟨q', d', hfile⟩ := hkeep hr₂.wellFormed hlater.grows hstat
    exact ⟨[Path.baseName css], q', d', by simpa using hcss css hsome, rfl, hfile⟩

end Files

section Run

variable {p q : Pipeline} {kept : List Source}

/-- Links are sound. A run that succeeds, with a layout that is always there, with assets and into a
directory that did not exist, makes each page with links to certain targets only, and writes it: every
other way to link that agrees on the targets gives the same page. Followed from the directory of the page,
without a look at the file system, each of these links names a file that exists after the run. -/
theorem run_links_lead_to_files (hp : Prepared p) (ht : p.world.tree.WellFormed)
    (hcopy : p.world.copy = none) (hassets : p.options.assets = true)
    (hlayout : ∃ name L place, Used p.world.tree p.options name L place)
    (hnew : p.world.tree.has p.options.output = false) (h : run.run.run p = (.ok kept, q)) :
    ∀ j s, kept[j]? = some s → ∃ t t' markup,
      Page.render t p.options p.setup (markedTo p.setup kept (j + 1)) j (s.marked p.setup) given =
        .ok markup ∧
      t.write s.outputPath (encode markup) = .ok t' ∧ Grows t' q.world.tree ∧
      (∀ link, (∀ x ∈ linked p.options kept, link x = Page.link t p.options.output s.outputPath x) →
        p.options.template.render t ((Page.scope t p.options p.setup (markedTo p.setup kept (j + 1)) j
          (s.marked p.setup) given).relinked link) = .ok markup) ∧
      ∀ x ∈ linked p.options kept, q.world.tree.isFile (Path.normal (Path.joined
        (Path.directory s.outputPath) (Page.link t p.options.output s.outputPath x))) = true := by
  obtain ⟨-, hkept, hout⟩ := (yields_run hcopy).sound h
  obtain ⟨P, hP, hoptions, hcss, hbeneath⟩ := hp.beneath
  obtain ⟨name, L, place, hused⟩ := hlayout
  rw [hoptions] at hnew
  have hs : ∀ s ∈ kept, Beneath P.text s.outputPath := by
    intro k hk
    obtain ⟨s, hmem, sections, rfl⟩ := mem_of_mem_keptIn hkept k hk
    exact hbeneath s hmem
  intro j s hget
  have hmem := List.mem_of_getElem? hget
  have hne := List.ne_nil_of_mem hmem
  have hfiles := hout.exists_files ht hP hoptions hcss hnew hused hassets hne hs
  obtain ⟨O, made, t₁, t₂, hfresh, -, -, hedits, -, hedits', hpages⟩ :=
    hout.fresh ht hP hoptions hcss hnew hne
  have hr := hfresh.ready.of_edits (hedits.trans hedits')
  -- the page is made in the tree that the pages before it left, and outlives those after it
  obtain ⟨v, w, hbefore, hpage, hsources, hafter⟩ :=
    PagesWritten.page (a := ⟨kept, t₂⟩) hr rfl hs hpages hget
  obtain ⟨ns, n, hns, hn, hpath⟩ := hs s hmem
  have hall : ∀ m ∈ ns ++ [n], IsName m := by simpa [or_imp, forall_and] using ⟨hns, hn⟩
  have hv := hr.of_edits hbefore
  obtain ⟨t, markup, hdirs, hwritten, hrender, hwrite, -⟩ := hpage.below hv hall hpath
  have hw := hv.of_edits (Edits.below_of_page hdirs hwritten)
  have hlater := hafter.below hw fun s' hs' => hs s' (List.mem_of_mem_drop hs')
  rw [hsources] at hrender
  refine ⟨t, w.tree, markup, hrender, hwrite, hlater.grows, fun link hlink => ?_, fun x hx => ?_⟩
  · refine Page.render_relinked hused.asksOnlyAll (fun x hx => hlink x ?_) hrender
    rw [map_outputPath_markedTo] at hx
    exact List.mem_append_left _ hx
  · obtain ⟨ms, q, d, hms, htarget, hstat⟩ := hfiles x hx
    rw [hoptions]
    exact isFile_link hP (hs s hmem) hms htarget hstat

end Run

section Sample

/-- A tree with a layout that is always there, two sources and a stylesheet. -/
def linkedTree (page style : ByteArray) (files : List (Place × Entry)) : FileTree where
  cwd := ["w".toList]
  entries := [(["l".toList], .dir), (["l".toList, "linear".toList], .dir),
    (["l".toList, "linear".toList, "page.html".toList], .file page),
    (["l".toList, "linear".toList, "public".toList], .dir),
    (["l".toList, "linear".toList, "public".toList, "style.css".toList], .file style),
    (["w".toList], .dir), (["w".toList, "a.md".toList], .file ⟨#[104]⟩), (["w".toList, "d".toList], .dir),
    (["w".toList, "d".toList, "b.md".toList], .file ⟨#[105]⟩),
    (["w".toList, "s.css".toList], .file .empty)] ++ files

/-- The options: a layout by its name, and a stylesheet. -/
def linkedEntries : List (Value × Value) :=
  [(.ofString "layout", .ofString "linear"), (.ofString "recursive", .bool true),
    (.ofString "css", .ofString "s.css")]

def linkedLayouts : Layouts := ⟨"/l".toList, none⟩

def linkedFound : Found :=
  [("/w/a.md".toList, "a.md".toList), ("/w/d/b.md".toList, "d/b.md".toList),
    ("/w/s.css".toList, "s.css".toList)]

variable (page style : ByteArray)

theorem wellFormed_linked : (linkedTree page style []).WellFormed :=
  wellFormed_of_check (by cbv)

theorem walk_linked : Source.walk (linkedTree page style []) [".".toList] true = .ok linkedFound := by
  have ht := wellFormed_linked page style
  have hw : (linkedTree page style []).Lists ["w".toList] ["a.md".toList, "d".toList, "s.css".toList] :=
    ht.lists_of (by cbv)
  have hd : (linkedTree page style []).Lists ["w".toList, "d".toList] ["b.md".toList] := ht.lists_of (by cbv)
  have hroot : (linkedTree page style []).stat "/w".toList = .ok (["w".toList], .dir) := by cbv
  have hdir : (linkedTree page style []).stat "/w/d".toList = .ok (["w".toList, "d".toList], .dir) := by cbv
  have hfirst : (linkedTree page style []).stat "/w/a.md".toList =
      .ok (["w".toList, "a.md".toList], .file ⟨#[104]⟩) := by cbv
  have hsecond : (linkedTree page style []).stat "/w/d/b.md".toList =
      .ok (["w".toList, "d".toList, "b.md".toList], .file ⟨#[105]⟩) := by cbv
  have hstyle : (linkedTree page style []).stat "/w/s.css".toList =
      .ok (["w".toList, "s.css".toList], .file .empty) := by cbv
  have hlisted : ∀ q, q ∉ (linkedTree page style []).unlisted := fun q => List.not_mem_nil
  have htour : Source.Tour (linkedTree page style []) true ([".".toList].map Source.Stop.ofArgument) _ :=
    .enter hroot (Or.inl rfl) (hlisted _) hw
      (.file hfirst (.enter hdir (Or.inr rfl) (hlisted _) hd (.file hsecond .nil) (.file hstyle .nil))) .nil
  rw [Source.walk_of_tour ht htour]
  cbv

/-- What the options say in the tree. -/
def linkedConfiguration (template : Template.Loaded) : Configuration where
  output := "/w/docs".toList
  layout := "/l/linear".toList
  templateName := "page.html".toList
  template := template
  assets := true
  index := none
  silent := true
  recursive := true
  css := some "/w/s.css".toList
  markdown := .standard

theorem resolve_linked {template : Template.Loaded}
    (h : Template.load (linkedTree page style []) "/l/linear".toList "page.html".toList = .ok template) :
    Configuration.resolve (linkedTree page style []) "/".toList linkedLayouts (.map linkedEntries) =
      .ok (linkedConfiguration template) := by
  have hentries : Configuration.entriesOf (.map linkedEntries) = .ok linkedEntries := by cbv
  have hlooked : linkedLayouts.looked (linkedTree page style []) =
      .ok ⟨"/l".toList, some ["linear".toList]⟩ := by cbv
  have hlayout : Layouts.resolve ⟨"/l".toList, some ["linear".toList]⟩ (linkedTree page style []) "/".toList
      (Configuration.chosen linkedEntries "layout").toText = .ok "/l/linear".toList := by cbv
  have hcss : Configuration.stylesheet (linkedTree page style []) "/".toList
      (Configuration.chosen linkedEntries "css") = .ok (some "/w/s.css".toList) := by cbv
  have houtput : Configuration.absolutePath (linkedTree page style []) "/".toList
      (Configuration.chosen linkedEntries "output") = .ok "/w/docs".toList := by cbv
  exact Configuration.resolve_eq_ok_iff.mpr ⟨linkedEntries, hentries, by cbv, ⟨_, hlooked, hlayout⟩, rfl, h,
    hcss, houtput, rfl, rfl, rfl, rfl, rfl⟩

def linkedWorld : World where
  tree := linkedTree page style []
  home := "/".toList
  layouts := "/l".toList

def linkedSetup : Markdown.Setup := { fences := some {}, tables := some {}, code := some {} }

def linkedPipeline (template : Template.Loaded) : Pipeline where
  world := (linkedWorld page style).report (countRecord linkedFound)
  options := linkedConfiguration template
  splitters := .standard
  stage := .resolved
  sources := Source.mapOutputs linkedFound "/w/docs".toList none
  setup := linkedSetup

theorem started_linked {template : Template.Loaded}
    (h : Template.load (linkedTree page style []) "/l/linear".toList "page.html".toList = .ok template) :
    Started linkedLayouts .standard (.text ".".toList) (.map linkedEntries) (linkedWorld page style)
      linkedFound (linkedPipeline page style template) :=
  ⟨resolve_linked page style h, ⟨[".".toList], rfl, walk_linked page style⟩, by simp [linkedFound], rfl,
    rfl, rfl, rfl, rfl⟩

def linkedSource (name docs : String) : Source where
  fullPath := "/w/".toList ++ name.toList ++ ".md".toList
  name := name.toList ++ ".md".toList
  relativeName := name.toList
  outputPath := "/w/docs/".toList ++ name.toList ++ ".html".toList
  sections := [{ docs := docs.toList, code := [] }]

def linkedSources : List Source :=
  [linkedSource "a" "h", linkedSource "d/b" "i"]

/-- The files of a layout and the parts of its page with which the layout can be used and the run leaves
its pages. -/
structure LinkedSample (page style : ByteArray) (nodes : List Template.Node) : Prop where
  pageFile : fileOf linearPage = .file page
  styleFile : fileOf linearStyle = .file style
  used : Used (linkedTree page style []) (linkedConfiguration ⟨nodes, "/l/linear".toList⟩) "linear".toList
    ⟨.single, ["l".toList, "linear".toList]⟩ ["l".toList, "linear".toList]
  outcome : ∃ v, Outcome (linkedConfiguration ⟨nodes, "/l/linear".toList⟩) linkedSetup
    (linkedTree page style []) linkedSources v

theorem keptIn_linked : keptIn .standard (linkedTree page style [])
    (mapOutputs linkedFound "/w/docs".toList none) = .ok linkedSources := by
  cbv

/-- An entry below the output directory. -/
def docsEntry (ns : List String) (e : Entry) : Place × Entry :=
  ("w".toList :: "docs".toList :: ns.map String.toList, e)

/-- The tree after the output directory, the assets and the stylesheet, and after more. -/
def copiedTree (files : List (Place × Entry)) : FileTree :=
  linkedTree page style ([docsEntry [] .dir, docsEntry ["public"] .dir,
    docsEntry ["public", "style.css"] (.file style), docsEntry ["s.css"] (.file .empty)] ++ files)

theorem copied_linked (template : Template.Loaded) :
    ∃ made t₁, (linkedTree page style []).makeDirs "/w/docs".toList = ⟨made, none⟩ ∧
      AssetsCopied (linkedConfiguration template) made t₁ ∧
      StylesheetCopied (linkedConfiguration template) t₁ (copiedTree page style []) := by
  have hmade : (linkedTree page style []).makeDirs "/w/docs".toList =
      ⟨linkedTree page style [docsEntry [] .dir], none⟩ := by cbv
  have hassets : Path.joined "/l/linear".toList assetsName = "/l/linear/public".toList := by decide
  have htarget : Path.joined "/w/docs".toList assetsName = "/w/docs/public".toList := by decide
  have hdir : (linkedTree page style [docsEntry [] .dir]).isDir "/l/linear/public".toList = true := by cbv
  have hcopy : (linkedTree page style [docsEntry [] .dir]).copyDir "/l/linear/public".toList
      "/w/docs/public".toList = ⟨linkedTree page style [docsEntry [] .dir, docsEntry ["public"] .dir,
        docsEntry ["public", "style.css"] (.file style)], none, []⟩ := by
    rw [copyDir, FileTree.maxDepth, copyDirFrom]
    cbv
  have hstyle : (linkedTree page style [docsEntry [] .dir, docsEntry ["public"] .dir,
      docsEntry ["public", "style.css"] (.file style)]).copyFile "/w/s.css".toList
        "/w/docs/s.css".toList = .ok (copiedTree page style []) := by cbv
  rw [← hassets] at hdir hcopy
  rw [← htarget] at hcopy
  exact ⟨_, _, hmade, (if_pos hdir).mpr hcopy, hstyle⟩

/-- The parts of the page of the layout. -/
def linearNodes : List Template.Node :=
  (Template.parse (foldNewlines (linesText linearPage))).toOption.getD []

/-- The page of a source, made from the parts of a template. -/
def linkedPage (nodes : List Template.Node) (j : Nat) (s : Source) : Except TemplateFault (List Char) :=
  Page.render { cwd := ["w".toList], entries := [] } (linkedConfiguration ⟨nodes, "/l/linear".toList⟩) linkedSetup
    (markedTo linkedSetup linkedSources (j + 1)) j (s.marked linkedSetup) given

theorem render_linkedPage {nodes : List Template.Node} {j : Nat} {s : Source} {markup : List Char}
    (hasks : Template.asksOnlyAll styleTarget [] nodes = true) (h : linkedPage nodes j s = .ok markup)
    {t : FileTree} (hcwd : t.cwd = ["w".toList]) :
    Page.render t (linkedConfiguration ⟨nodes, "/l/linear".toList⟩) linkedSetup
      (markedTo linkedSetup linkedSources (j + 1)) j (s.marked linkedSetup) given = .ok markup :=
  Page.render_of_link hasks (funext fun _ => by simp only [Page.link, relative, hcwd]) h

theorem exists_ok_of_isOk {x : Except TemplateFault (List Char)} (h : x.isOk = true) :
    ∃ markup, x = .ok markup := by
  cases x with
  | error fault => simp [Except.isOk, Except.toBool] at h
  | ok markup => exact ⟨markup, rfl⟩

theorem isOk_linkedPage : ((linkedPage linearNodes 0 (linkedSource "a" "h")).isOk &&
    (linkedPage linearNodes 1 (linkedSource "d/b" "i")).isOk) = true := by
  unfold linearNodes linearPage
  repeat rw [linesText_cons]
  rw [linesText_nil]
  decide +kernel

theorem parse_linear : Template.parse (foldNewlines (linesText linearPage)) = .ok linearNodes := by
  have hknown := asksOnlyKnown_linear
  unfold asksOnlyKnown at hknown
  unfold linearNodes
  generalize Template.parse (foldNewlines (linesText linearPage)) = parsed at hknown
  cases parsed with
  | error fault => simp [Except.toOption] at hknown
  | ok nodes => rfl

theorem used_linked {nodes : List Template.Node} (hpage : fileOf linearPage = .file page)
    (hstyle : fileOf linearStyle = .file style)
    (hnodes : Template.parse (foldNewlines (linesText linearPage)) = .ok nodes) :
    Used (linkedTree page style []) (linkedConfiguration ⟨nodes, "/l/linear".toList⟩) "linear".toList
      ⟨.single, ["l".toList, "linear".toList]⟩ ["l".toList, "linear".toList] := by
  have hrooted : Path.Rooted ⟨.single, ["l".toList, "linear".toList]⟩ := by
    refine ⟨by simp, fun n hn => ?_⟩
    rcases (by simpa using hn : n = "l".toList ∨ n = "linear".toList) with rfl | rfl
    · exact ⟨⟨by decide, by decide, by decide⟩, by decide⟩
    · exact ⟨⟨by decide, by decide, by decide⟩, by decide⟩
  have htext : Path.text ⟨.single, ["l".toList, "linear".toList]⟩ = "/l/linear".toList := by decide
  have hdir : (linkedTree page style []).stat "/l/linear".toList =
      .ok (["l".toList, "linear".toList], .dir) := by cbv
  have hstat : (linkedTree page style []).stat (Path.joined "/l/linear".toList pageName) =
      .ok (["l".toList, "linear".toList, "page.html".toList], .file page) := by cbv
  refine ⟨List.mem_of_getElem? (i := 0) rfl, hrooted, htext.symm, htext ▸ hdir, fun ns e h => ?_, ?_⟩
  · have hne : "linear".toList ≠ "parallel".toList := by decide
    rw [builtin] at h
    simp only [List.mem_cons, List.not_mem_nil, or_false, Prod.mk.injEq, List.cons.injEq, hne, false_and,
      true_and] at h
    -- the four entries of the layout: its directory, page, assets and stylesheet
    rcases h with ⟨rfl, rfl⟩ | ⟨rfl, rfl⟩ | ⟨rfl, rfl⟩ | ⟨rfl, rfl⟩
    · cbv
    · rw [hpage]
      cbv
    · cbv
    · rw [hstyle]
      cbv
  · show Template.load _ "/l/linear".toList pageName = .ok ⟨nodes, "/l/linear".toList⟩
    rw [← htext] at hstat ⊢
    exact (load_eq_ok_iff hrooted isName_pageName).mpr
      ⟨rfl, _, page, _, hstat, decodeStrict?_fileOf hpage, hnodes⟩

theorem outcome_linked {nodes : List Template.Node} {first second : List Char}
    (hasks : Template.asksOnlyAll styleTarget [] nodes = true)
    (hfirst : linkedPage nodes 0 (linkedSource "a" "h") = .ok first)
    (hsecond : linkedPage nodes 1 (linkedSource "d/b" "i") = .ok second) :
    ∃ v, Outcome (linkedConfiguration ⟨nodes, "/l/linear".toList⟩) linkedSetup (linkedTree page style [])
      linkedSources v := by
  obtain ⟨made, t₁, hmade, hassets, hcss⟩ := copied_linked page style ⟨nodes, "/l/linear".toList⟩
  have hdirs : (copiedTree page style []).makeDirs (Path.directory "/w/docs/a.html".toList) =
      ⟨copiedTree page style [], none⟩ := by cbv
  have hwrite (c : ByteArray) : (copiedTree page style []).write "/w/docs/a.html".toList c =
      .ok (copiedTree page style [docsEntry ["a.html"] (.file c)]) := by cbv
  have hdirs' (c : ByteArray) : (copiedTree page style [docsEntry ["a.html"] (.file c)]).makeDirs
      (Path.directory "/w/docs/d/b.html".toList) =
        ⟨copiedTree page style [docsEntry ["a.html"] (.file c), docsEntry ["d"] .dir], none⟩ := by cbv
  have hwrite' (c d : ByteArray) : (copiedTree page style [docsEntry ["a.html"] (.file c),
      docsEntry ["d"] .dir]).write "/w/docs/d/b.html".toList d =
        .ok (copiedTree page style [docsEntry ["a.html"] (.file c), docsEntry ["d"] .dir,
          docsEntry ["d", "b.html"] (.file d)]) := by cbv
  have hpages : ∃ v, PagesWritten (linkedConfiguration ⟨nodes, "/l/linear".toList⟩) linkedSetup 0
      linkedSources ⟨linkedSources, copiedTree page style []⟩ v :=
    ⟨_, ⟨_, _⟩, ⟨rfl, _, first, hdirs, render_linkedPage hasks hfirst rfl, hwrite _⟩,
      ⟨_, _⟩, ⟨rfl, _, second, hdirs' _, render_linkedPage hasks hsecond rfl, hwrite' _ _⟩, rfl⟩
  obtain ⟨v, hpages⟩ := hpages
  exact ⟨v, (if_neg (by simp [linkedSources])).mpr
    ⟨_, hmade, _, _, (if_pos rfl).mpr hassets, hcss, hpages⟩⟩

theorem exists_linked : ∃ page style nodes, LinkedSample page style nodes := by
  obtain ⟨page, hpage⟩ : ∃ page, fileOf linearPage = .file page := ⟨_, rfl⟩
  obtain ⟨style, hstyle⟩ : ∃ style, fileOf linearStyle = .file style := ⟨_, rfl⟩
  have hused := used_linked page style hpage hstyle parse_linear
  have hok := isOk_linkedPage
  -- from here on the template is any that can be filled
  generalize linearNodes = nodes at hused hok
  rw [Bool.and_eq_true] at hok
  obtain ⟨first, hfirst⟩ := exists_ok_of_isOk hok.1
  obtain ⟨second, hsecond⟩ := exists_ok_of_isOk hok.2
  exact ⟨page, style, nodes, hpage, hstyle, hused, outcome_linked page style hused.asksOnlyAll hfirst hsecond⟩

/-- From a page in a directory of its own, each link of the run leads to a file. -/
theorem run_links_lead_to_files_linear :
    ∃ page style p q, fileOf linearPage = .file page ∧ fileOf linearStyle = .file style ∧
      (start linkedLayouts .standard (.text ".".toList) (.map linkedEntries)).run.run
        (linkedWorld page style) = (.ok p, p.world) ∧
      run.run.run p = (.ok linkedSources, q) ∧
      ∃ t, ∀ x ∈ ["public/style.css", "/w/docs/a.html", "/w/docs/d/b.html", "s.css"].map String.toList,
        q.world.tree.isFile (Path.normal (Path.joined "/w/docs/d".toList
          (Page.link t "/w/docs".toList "/w/docs/d/b.html".toList x))) = true := by
  obtain ⟨page, style, nodes, hpage, hstyle, hused, v, hout⟩ := exists_linked
  have hstarted := started_linked page style hused.template
  obtain ⟨hcopy, htree⟩ := hstarted.copy rfl
  replace htree : (linkedPipeline page style ⟨nodes, "/l/linear".toList⟩).world.tree =
    linkedTree page style [] := htree
  have ht : (linkedTree page style []).WellFormed := wellFormed_linked page style
  have hp : Prepared (linkedPipeline page style ⟨nodes, "/l/linear".toList⟩) :=
    ⟨_, _, _, _, _, _, _, ht, hstarted.run, rfl, fun s hs => ⟨s, hs, rfl, rfl⟩⟩
  obtain ⟨q, hrun, -⟩ := (yields_run hcopy).complete (a := linkedSources) (v := v)
    ⟨htree ▸ keptIn_linked page style, htree ▸ hout⟩
  have hnew : (linkedTree page style []).has "/w/docs".toList = false := by cbv
  obtain ⟨t, -, -, -, -, -, -, hfiles⟩ := run_links_lead_to_files hp (htree ▸ ht) hcopy rfl
    ⟨_, _, _, htree ▸ hused⟩ (htree ▸ hnew) hrun 1 _ rfl
  exact ⟨page, style, _, q, hpage, hstyle, hstarted.run, hrun, t, hfiles⟩

end Sample
end Marginalia.Pipeline
