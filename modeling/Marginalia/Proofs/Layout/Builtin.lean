import Marginalia.Layout.Builtin
import Marginalia.Pipeline
import Marginalia.Proofs.Configuration.Resolve
import Marginalia.Proofs.FileTree.Fresh
import Marginalia.Proofs.Template.Links

/-! # The layouts that are always there

Both of them have a page whose template asks for links to one stylesheet and to the pages of the sources
only, and the stylesheet is among their assets.
-/
namespace Marginalia.Layouts

open Text FileTree Pipeline

section Text

/-- The text of a file of lines. -/
def linesText (ls : List String) : List Char :=
  ls.flatMap fun l => l.toList ++ ['\n']

theorem linesText_nil : linesText [] = [] := rfl

theorem linesText_cons (cs : List Char) (ls : List String) :
    linesText (String.ofList cs :: ls) = cs ++ '\n' :: linesText ls := by
  simp [linesText]

theorem toList_foldl_lines (ls : List String) (s : String) :
    (ls.foldl (fun text l => text ++ l ++ "\n") s).toList = s.toList ++ linesText ls := by
  induction ls generalizing s with
  | nil => simp [linesText]
  | cons l ls ih => simp [ih, linesText]

theorem fromUTF8?_toUTF8 (s : String) : String.fromUTF8? s.toUTF8 = some s :=
  dif_pos s.isValidUTF8

theorem decodeStrict?_fileOf {ls : List String} {c : ByteArray} (h : fileOf ls = .file c) :
    decodeStrict? c = some (foldNewlines (linesText ls)) := by
  cases h
  rw [decodeStrict?, fromUTF8?_toUTF8, Option.map_some, toList_foldl_lines]
  simp

end Text

section Pages

/-- The name of the page of a layout. -/
def pageName : Name := "page.html".toList

theorem isName_pageName : IsName pageName := ⟨⟨by decide, by decide, by decide⟩, by decide⟩

/-- The stylesheet among the assets of a layout. -/
def styleName : Name := "style.css".toList

theorem isName_styleName : IsName styleName := ⟨⟨by decide, by decide, by decide⟩, by decide⟩

/-- How pages name the stylesheet of their layout. -/
def styleTarget : List Char := "public/style.css".toList

theorem join_styleTarget : join ['/'] [assetsName, styleName] = styleTarget := by decide

/-- Whether a text is a template that asks for links to the stylesheet and to sources only. -/
def asksOnlyKnown (text : List Char) : Bool :=
  (Template.parse text).toOption.any (Template.asksOnlyAll styleTarget [])

-- The lines are spelled out as characters first: taking a string apart is slow when a proof is checked.
theorem asksOnlyKnown_linear : asksOnlyKnown (foldNewlines (linesText linearPage)) = true := by
  unfold asksOnlyKnown styleTarget linearPage
  repeat rw [linesText_cons]
  rw [linesText_nil, String.toList_ofList]
  decide +kernel

theorem asksOnlyKnown_parallel : asksOnlyKnown (foldNewlines (linesText parallelPage)) = true := by
  unfold asksOnlyKnown styleTarget parallelPage
  repeat rw [linesText_cons]
  rw [linesText_nil, String.toList_ofList]
  decide +kernel

/-- What each layout has: a page that asks for known links only, and assets with a stylesheet. -/
theorem exists_files {name : Name} (h : ([name], .dir) ∈ builtin) :
    ∃ page style, ([name, pageName], fileOf page) ∈ builtin ∧ ([name, assetsName], .dir) ∈ builtin ∧
      ([name, assetsName, styleName], fileOf style) ∈ builtin ∧
      asksOnlyKnown (foldNewlines (linesText page)) = true := by
  have hname : name = "linear".toList ∨ name = "parallel".toList := by simpa [builtin] using h
  rcases hname with rfl | rfl
  · exact ⟨linearPage, linearStyle, List.mem_of_getElem? (i := 1) rfl, List.mem_of_getElem? (i := 2) rfl,
      List.mem_of_getElem? (i := 3) rfl, asksOnlyKnown_linear⟩
  · exact ⟨parallelPage, parallelStyle, List.mem_of_getElem? (i := 5) rfl,
      List.mem_of_getElem? (i := 6) rfl, List.mem_of_getElem? (i := 7) rfl, asksOnlyKnown_parallel⟩

end Pages

section Used

variable {t : FileTree} {c : Configuration} {name : Name} {L : Path} {place : Place}

/-- The text of a template is that of the file with its name. -/
theorem sourceOf_eq_ok_iff {dir text : List Char} {n : Name} (hn : IsName n) :
    Template.sourceOf t dir n = .ok text ↔ ∃ q content,
      t.stat (Path.joined dir n) = .ok (q, .file content) ∧ decodeStrict? content = some text := by
  have hup : ([n] : List Name).contains up = false := by simpa using hn.ne_up.symm
  have hkept : ([n] : List Name).filter (fun p => p ≠ [] && p ≠ here) = [n] := by
    simp [hn.ne_nil, hn.ne_here]
  simp only [Template.sourceOf, Template.pathIn, slashParts_of_no_slash hn.no_slash, hup, hkept, List.foldl_cons,
    List.foldl_nil, Bool.false_eq_true, ↓reduceIte]
  unfold isFile FileTree.read
  split
  · next q content hstat =>
    simp only [hstat, bind, Except.bind, ↓reduceIte, Except.ok.injEq, Prod.mk.injEq, Entry.file.injEq]
    constructor
    · intro h
      split at h
      · next s hs =>
        cases h
        exact ⟨q, content, ⟨rfl, rfl⟩, hs⟩
      · simp at h
    · rintro ⟨_, _, ⟨rfl, rfl⟩, hs⟩
      simp [hs]
  · next hstat =>
    simp only [Bool.false_eq_true, ↓reduceIte, reduceCtorEq, false_iff, not_exists, not_and]
    exact fun q content h => absurd h (hstat q content)

/-- A template is loaded from the text of a file in its layout. -/
theorem load_eq_ok_iff {n : Name} {loaded : Template.Loaded} (hL : L.Rooted) (hn : IsName n) :
    Template.load t L.text n = .ok loaded ↔ loaded.dir = L.text ∧
      ∃ q content text, t.stat (Path.joined L.text n) = .ok (q, .file content) ∧
        decodeStrict? content = some text ∧ Template.parse text = .ok loaded.nodes := by
  -- the template is named by its directory and its own name again
  have hpath : (Path.parse L.text).append (Path.parse n) = ⟨L.root, L.segments ++ [n]⟩ := by
    rw [Path.parse_text hL.spelled, Path.parse_of_isName hn]
    rfl
  have hparent : (Path.parent ⟨L.root, L.segments ++ [n]⟩).text = L.text := by simp [Path.parent]
  have hname : Path.name ⟨L.root, L.segments ++ [n]⟩ = n := by simp [Path.name]
  simp only [Template.load, hpath, hparent, hname, ok_of_bind]
  constructor
  · rintro ⟨isFile, -, h⟩
    split at h
    · split at h
      · next nodes hnodes =>
        cases h
        cases hsource : Template.sourceOf t L.text n with
        | error fault => simp [hsource, bind, Except.bind] at hnodes
        | ok text =>
          obtain ⟨q, content, hstat, hdecode⟩ := (sourceOf_eq_ok_iff hn).mp hsource
          rw [hsource] at hnodes
          exact ⟨rfl, q, content, text, hstat, hdecode, hnodes⟩
      · simp [throw, throwThe, MonadExceptOf.throw] at h
    · simp [throw, throwThe, MonadExceptOf.throw] at h
  · rintro ⟨hdir, q, content, text, hstat, hdecode, hparse⟩
    have hsource := (sourceOf_eq_ok_iff hn).mpr ⟨q, content, hstat, hdecode⟩
    rw [Path.joined_text hL hn] at hstat
    refine ⟨true, isFileOrFail_iff.mpr ⟨q, content, hstat⟩, ?_⟩
    simp only [hsource, bind, Except.bind, hparse, ↓reduceIte]
    rw [← hdir]
    rfl

/-- A configuration uses a layout that is always there: a tree has the files of the layout below the
directory that the configuration names, and the template is the page among them. -/
structure Used (t : FileTree) (c : Configuration) (name : Name) (L : Path) (place : Place) : Prop where
  known : ([name], .dir) ∈ builtin
  rooted : L.Rooted
  layout : c.layout = L.text
  dir : t.stat L.text = .ok (place, .dir)
  files : ∀ ns e, (name :: ns, e) ∈ builtin → t.get? (place ++ ns) = some e
  template : Template.load t c.layout pageName = .ok c.template

variable (h : Used t c name L place)
include h

theorem Used.exists_page : ∃ page content, fileOf page = .file content ∧
    asksOnlyKnown (foldNewlines (linesText page)) = true ∧
    t.stat (Path.joined L.text pageName) = .ok (place ++ [pageName], .file content) ∧
    ∃ text, decodeStrict? content = some text ∧ Template.parse text = .ok c.template.nodes := by
  obtain ⟨page, -, hpage, -, -, hknown⟩ := exists_files h.known
  obtain ⟨-, q, content, text, hstat, hdecode, hparse⟩ :=
    (load_eq_ok_iff h.rooted isName_pageName).mp (h.layout ▸ h.template)
  obtain ⟨rfl, hfile⟩ := eq_of_stat_joined h.rooted isName_pageName h.dir (h.files _ _ hpage)
    (by simp [fileOf]) hstat
  exact ⟨page, content, hfile.symm, hknown, hstat, text, hdecode, hparse⟩

/-- The template asks for links to the stylesheet and to sources only. -/
theorem Used.asksOnlyAll : Template.asksOnlyAll styleTarget [] c.template.nodes = true := by
  obtain ⟨page, content, hfile, hknown, -, text, hdecode, hparse⟩ := h.exists_page
  rw [decodeStrict?_fileOf hfile, Option.some.injEq] at hdecode
  rwa [asksOnlyKnown, hdecode, hparse] at hknown

/-- The layout has a directory of assets with the stylesheet. -/
theorem Used.exists_style (ht : t.WellFormed) :
    t.stat (Path.joined L.text assetsName) = .ok (place ++ [assetsName], .dir) ∧
      ∃ d, t.get? (place ++ [assetsName] ++ [styleName]) = some (.file d) := by
  obtain ⟨-, style, -, hpublic, hstyle, -⟩ := exists_files h.known
  obtain ⟨_, _, -, -, hstat, -⟩ := h.exists_page
  have hfits : Fits assetsName := ⟨by decide, by decide, by decide, by decide⟩
  refine ⟨stat_joined_of_stat ht h.rooted isName_pageName hfits h.dir (h.files _ _ hpublic) (by simp)
    (by decide) hstat, ?_⟩
  rw [List.append_assoc]
  exact ⟨_, h.files _ _ hstyle⟩

end Used

end Marginalia.Layouts
