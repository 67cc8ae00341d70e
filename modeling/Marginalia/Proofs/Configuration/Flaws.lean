import Marginalia.OptionFile
import Marginalia.Proofs.Configuration.Resolve
import Marginalia.Proofs.Source.Refusal

/-! # Options that fail without a word

Most that can be wrong with options is reported. What is not: an option file whose bytes are no text or
whose scalars are not what their tags say, names and stylesheets that are no texts, settings that are no
mapping, paths that are no texts for the system or lead nowhere, and a template that cannot be read.
-/
namespace Marginalia

open Text

section Reports

variable {α β : Type} {cause cause' : Failure → Prop}

theorem reports_ok (a : α) : Reports cause (.ok a : Except Failure α) := by
  intro f hf
  cases hf

theorem reports_error {f : Failure} (h : f.isReported = true ∨ cause f) :
    Reports cause (.error f : Except Failure α) := by
  rintro f ⟨⟩
  exact h

theorem Reports.imp {x : Except Failure α} (h : Reports cause x) (hcause : ∀ f, cause f → cause' f) :
    Reports cause' x :=
  fun f hf => (h f hf).imp_right (hcause f)

theorem reports_bind {x : Except Failure α} {g : α → Except Failure β} (hx : Reports cause x)
    (hg : ∀ a, x = .ok a → Reports cause (g a)) : Reports cause (x >>= g) := by
  intro f hf
  cases x with
  | error e =>
    cases hf
    exact hx f rfl
  | ok a => exact hg a rfl f hf

theorem reports_filterM {g : α → Except Failure Bool} (h : ∀ x, Reports cause (g x)) (xs : List α) :
    Reports cause (xs.filterM g) := by
  have haux : ∀ xs acc : List α, Reports cause (xs.filterAuxM g acc) := by
    intro xs
    induction xs with
    | nil => exact fun acc => reports_ok acc
    | cons x xs ih => exact fun acc => reports_bind (h x) fun kept _ => ih _
  exact reports_bind (haux xs []) fun kept _ => reports_ok _

theorem reports_mapM {g : α → Except Failure β} {xs : List α} (h : ∀ x ∈ xs, Reports cause (g x)) :
    Reports cause (xs.mapM g) := by
  induction xs with
  | nil => exact reports_ok _
  | cons x xs ih =>
    rw [List.mapM_cons]
    refine reports_bind (h x List.mem_cons_self) fun y _ => ?_
    exact reports_bind (ih fun x' hx' => h x' (List.mem_cons_of_mem _ hx')) fun ys _ => reports_ok _

end Reports

namespace OptionFile

variable {t : FileTree} {path : List Char}

/-- What may be wrong with an option file without being reported. -/
inductive Flaw (t : FileTree) (path : List Char) : Failure → Prop where
  | nul (h : HoldsNul path) : Flaw t path (.file .nulInPath)
  | undecodable {content : ByteArray} (hread : t.read path = .ok content)
      (h : decodeStrict? content = none) : Flaw t path .undecodable
  | scalar {content : ByteArray} {text : List Char} {fault : Value.ScalarFault}
      (hread : t.read path = .ok content) (hdecode : decodeStrict? content = some text)
      (hblank : allBlank text = false) (h : Yaml.load text = .error (.scalar fault)) : Flaw t path (.scalar fault)

theorem reports_read (t : FileTree) (path : List Char) : Reports (Flaw t path) (read t path) := by
  unfold read
  cases hread : t.read path with
  | error fault =>
    cases fault with
    | nulInPath => exact reports_error (Or.inr (.nul (FileTree.holdsNul_of_read hread)))
    | _ => exact reports_error (Or.inl rfl)
  | ok content =>
    refine reports_bind (reports_ok content) ?_
    rintro _ ⟨⟩
    dsimp only
    split
    · next hdecode => exact reports_error (Or.inr (.undecodable hread hdecode))
    · next text hdecode =>
      split
      · exact reports_ok _
      · next hblank =>
        split
        · exact reports_ok _
        · exact reports_error (Or.inl rfl)
        · next hload =>
          exact reports_error (Or.inr (.scalar hread hdecode (by simpa using hblank) hload))

theorem Flaw.isReported {f : Failure} (h : Flaw t path f) : f.isReported = false := by
  cases h <;> rfl

/-- A flaw always shows. -/
theorem read_of_flaw {f : Failure} (h : Flaw t path f) : read t path = .error f := by
  unfold read
  cases h with
  | nul hnul =>
    rw [FileTree.read_of_holdsNul hnul]
    rfl
  | undecodable hread hdecode =>
    rw [hread]
    simp only [pure_bind, hdecode]
    rfl
  | scalar hread hdecode hblank hload =>
    rw [hread]
    simp only [pure_bind, hdecode, hblank, hload]
    rfl

theorem reports_options (t : FileTree) (path : List Char) : Reports (Flaw t path) (options t path) := by
  refine reports_bind (reports_read t path) fun v _ => ?_
  split
  · exact reports_ok _
  · exact reports_error (Or.inl rfl)

end OptionFile

namespace Markdown.Options

/-- Settings of an extension that are no mapping. -/
inductive Flaw (v : Value) : Failure → Prop where
  | settings {es entries : List (Value × Value)} {name own : Value} {fault : Value.MapFault}
      (hv : v = .map es) (hfield : Value.field? "extension_configs" es = some (.map entries))
      (hmem : (name, own) ∈ entries) (htruthy : own.truthy = true) (h : own.toMap = .error fault) :
      Flaw v (.noMapping fault)

theorem reports_settingsOf (entries acc : List (Value × Value)) :
    Reports (fun f => ∃ name own fault, (name, own) ∈ entries ∧ own.truthy = true ∧
      own.toMap = .error fault ∧ f = .noMapping fault) (settingsOf entries acc) := by
  induction entries generalizing acc with
  | nil => exact reports_ok _
  | cons x rest ih =>
    obtain ⟨name, own⟩ := x
    rw [settingsOf]
    split
    · refine (ih _).imp ?_
      rintro f ⟨name', own', fault, hmem, h⟩
      exact ⟨name', own', fault, List.mem_cons_of_mem _ hmem, h⟩
    · next fault hfault =>
      split at hfault
      · next htruthy =>
        exact reports_error (Or.inr ⟨name, own, fault, List.mem_cons_self, htruthy, hfault, rfl⟩)
      · cases hfault

theorem reports_names (v : Value) (cause : Failure → Prop) : Reports cause (names v) := by
  unfold names
  dsimp only
  split
  · exact reports_ok _
  · split
    · refine reports_mapM fun x _ => ?_
      split
      · exact reports_ok _
      · exact reports_error (Or.inl rfl)
    · refine reports_mapM fun x _ => ?_
      split
      · exact reports_ok _
      · exact reports_error (Or.inl rfl)
    · exact reports_error (Or.inl rfl)

theorem reports_entries (v : Value) (cause : Failure → Prop) : Reports cause (entries v) := by
  unfold entries
  split
  · exact reports_ok _
  · split
    · exact reports_ok _
    · exact reports_error (Or.inl rfl)

theorem entries_eq_ok {v : Value} {es : List (Value × Value)} (h : entries v = .ok es) :
    es = [] ∨ v = .map es := by
  unfold entries at h
  split at h
  · cases h
    exact Or.inl rfl
  · split at h
    · cases h
      exact Or.inr rfl
    · cases h

theorem reports_of (v : Value) : Reports (Flaw v) (of v) := by
  unfold of
  split
  · exact reports_ok _
  · split
    · next es _ =>
      refine reports_bind ?_ fun extensions _ => reports_bind ?_ fun settings hsettings => ?_
      · cases Value.field? "extensions" es with
        | none => exact reports_ok _
        | some x => exact reports_names x _
      · cases Value.field? "extension_configs" es with
        | none => exact reports_ok _
        | some x => exact reports_entries x _
      · refine reports_bind ((reports_settingsOf settings []).imp ?_) fun _ _ => reports_ok _
        rintro f ⟨name, own, fault, hmem, htruthy, hown, rfl⟩
        cases hfield : Value.field? "extension_configs" es with
        | none =>
          -- the standard settings are mappings
          rw [hfield] at hsettings
          cases hsettings
          obtain ⟨-, rfl⟩ : name = .ofString "codehilite" ∧
              own = .map [(.ofString "guess_lang", .bool false)] := by
            simpa [standard] using hmem
          cases hown
        | some x =>
          rw [hfield] at hsettings
          rcases entries_eq_ok hsettings with rfl | rfl
          · simp at hmem
          · exact .settings rfl hfield hmem htruthy hown
    · exact reports_error (Or.inl rfl)

end Markdown.Options

theorem OptionFile.reports_markdown (t : FileTree) (path : List Char) :
    Reports (fun f => Flaw t path f ∨ ∃ es, read t path = .ok (.map es) ∧ Markdown.Options.Flaw (.map es) f)
      (markdown t path) := by
  refine reports_bind ((reports_read t path).imp fun f h => Or.inl h) fun v hv => ?_
  split
  · next es =>
    refine reports_bind ((Markdown.Options.reports_of (.map es)).imp fun f h => ?_) fun _ _ => reports_ok _
    exact Or.inr ⟨es, hv, h⟩
  · exact reports_error (Or.inl rfl)

namespace FileTree

variable {t : FileTree} {home path : List Char}

/-- Why a path leads nowhere. -/
inductive Unsettled (t : FileTree) (home path : List Char) : Failure → Prop where
  | nul (h : HoldsNul path) : Unsettled t home path (.file .nulInPath)
  | home (h : (Path.parse path).atHome? home = none) : Unsettled t home path .unknownHome
  | circle {p : Path} (hp : (Path.parse path).atHome? home = some p) (h : t.resolve? p.text = none) :
      Unsettled t home path .linkCircle

theorem holdsNul_of_atHome (hhome : ¬ HoldsNul home) {p : Path}
    (hp : (Path.parse path).atHome? home = some p) (h : HoldsNul p.text) : HoldsNul path := by
  obtain ⟨n, hn, hnul⟩ := h.of_text
  unfold Path.atHome? at hp
  split at hp
  · next m ms hroot hsegments =>
    split at hp
    · cases hp
      rcases List.mem_append.mp hn with hn | hn
      · exact absurd (hnul.of_segment hn) hhome
      · exact hnul.of_segment (hsegments ▸ List.mem_cons_of_mem _ hn)
    · split at hp
      · cases hp
      · cases hp
        exact hnul.of_segment hn
  · cases hp
    exact hnul.of_segment hn

theorem reports_settle (hhome : ¬ HoldsNul home) : Reports (Unsettled t home path) (t.settle home path) := by
  unfold settle
  dsimp only
  split
  · next hnone =>
    split
    · next hnul => exact reports_error (Or.inr (.nul (by simpa [HoldsNul] using hnul)))
    · exact reports_error (Or.inr (.home hnone))
  · next p hp =>
    split
    · next hnul =>
      exact reports_error (Or.inr (.nul (holdsNul_of_atHome hhome hp (by simpa [HoldsNul] using hnul))))
    · split
      · exact reports_ok _
      · next hcircle => exact reports_error (Or.inr (.circle hp hcircle))

theorem reported_of_probe {fault : FileFault} (h : t.probe path = .error fault) :
    (Failure.file fault).isReported = true := by
  unfold probe at h
  split at h
  · cases h
  · cases h
    rfl
  · cases h

theorem reports_isDirOrFail (cause : Failure → Prop) : Reports cause (t.isDirOrFail path) := by
  unfold isDirOrFail
  split
  · exact reports_ok _
  · next h => exact reports_error (Or.inl (reported_of_probe h))

theorem reports_isFileOrFail (cause : Failure → Prop) : Reports cause (t.isFileOrFail path) := by
  unfold isFileOrFail
  split
  · exact reports_ok _
  · next h => exact reports_error (Or.inl (reported_of_probe h))

end FileTree

theorem Layouts.reports_looked (l : Layouts) (t : FileTree) (cause : Failure → Prop) :
    Reports cause (l.looked t) := by
  unfold looked
  split
  · exact reports_ok _
  · refine reports_bind ?_ fun names _ => reports_ok _
    refine reports_bind (FileTree.reports_isDirOrFail cause) fun isDir hdir => ?_
    split
    · next hyes =>
      subst hyes
      obtain ⟨place, hstat⟩ := FileTree.isDirOrFail_iff.mp hdir
      split
      · exact reports_filterM (fun n => FileTree.reports_isDirOrFail cause) _
      · next fault hlist =>
        refine reports_error (Or.inl ?_)
        cases fault with
        | nulInPath =>
          exact absurd (FileTree.holdsNul_of_list hlist) (FileTree.not_holdsNul_of_stat hstat)
        | _ => rfl
    · exact reports_ok _

theorem Layouts.reports_resolve (l : Layouts) (t : FileTree) {home : List Char} (hhome : ¬ HoldsNul home)
    (layout : List Char) : Reports (t.Unsettled home layout) (l.resolve t home layout) := by
  unfold resolve
  split
  · exact reports_ok _
  · refine reports_bind (FileTree.reports_settle hhome) fun place _ => ?_
    refine reports_bind (FileTree.reports_isDirOrFail _) fun isDir _ => ?_
    split
    · exact reports_ok _
    · exact reports_error (Or.inl rfl)

/-- A template file that cannot be read as a template. -/
inductive Template.Broken (t : FileTree) (layout name : List Char) : Failure → Prop where
  | broken {path : Path} {fault : TemplateFault}
      (hpath : path = (Path.parse layout).append (Path.parse name))
      (h : (do parse (← sourceOf t path.parent.text path.name)) = .error fault) :
      Broken t layout name (.template fault)

theorem Template.reports_load (t : FileTree) (layout name : List Char) :
    Reports (Broken t layout name) (load t layout name) := by
  unfold load
  refine reports_bind (FileTree.reports_isFileOrFail _) fun isFile _ => ?_
  split
  · dsimp only
    split
    · exact reports_ok _
    · next fault hfault => exact reports_error (Or.inr (.broken rfl hfault))
  · exact reports_error (Or.inl rfl)

namespace Configuration

variable {t : FileTree} {home : List Char}

theorem reports_checkNames (es : List (Value × Value)) :
    Reports (fun f => f = .noText ∧ ∃ v ∈ es.map (·.1), isKnown v = false ∧ ∀ s, v ≠ .text s)
      (checkNames es) := by
  refine reports_bind (reports_mapM fun v hv => ?_) fun unknown _ => ?_
  · obtain ⟨hmem, hknown⟩ := List.mem_filter.mp hv
    split
    · exact reports_ok _
    · next hno => exact reports_error (Or.inr ⟨rfl, v, hmem, by simpa using hknown, hno⟩)
  · split
    · exact reports_error (Or.inl rfl)
    · exact reports_ok _

theorem reports_absolutePath (v : Value) :
    Reports (fun f => f = .file .nulInPath ∧ HoldsNul v.toText) (absolutePath t home v) := by
  unfold absolutePath
  dsimp only
  split
  · exact reports_ok _
  · split
    · next hnul =>
      rw [List.contains_iff_mem] at hnul
      exact reports_error (Or.inr ⟨rfl, List.takeWhile_subset _ hnul⟩)
    · exact reports_ok _

theorem reports_indexOf (v : Value) :
    Reports (fun f => f = .file .nulInPath ∧ HoldsNul v.toText) (indexOf t home v) := by
  unfold indexOf
  split
  · rw [map_eq_pure_bind]
    exact reports_bind (reports_absolutePath v) fun _ _ => reports_ok _
  · exact reports_ok _

theorem holdsNul_of_absolutePath (ht : t.WellFormed) (hhome : ¬ HoldsNul home) {v : Value}
    {path : List Char} (h : absolutePath t home v = .ok path) (hnul : HoldsNul path) :
    HoldsNul v.toText := by
  unfold absolutePath at h
  dsimp only at h
  split at h
  · next expanded hexpanded =>
    cases h
    replace hnul := hnul.of_absolute ht
    unfold Path.expandHome? at hexpanded
    split at hexpanded
    · cases hexpanded
      exact absurd hnul hhome
    · next r hr =>
      cases hexpanded
      rw [hr]
      rcases List.mem_append.mp hnul with hnul | hnul
      · exact absurd (HoldsNul.of_dropEndWhile hnul) hhome
      · exact List.mem_cons_of_mem _ hnul
    · cases hexpanded
    · cases hexpanded
      exact hnul
  · split at h
    · cases h
    · cases h
      exact hnul.of_absolute ht

theorem reports_stylesheet (hhome : ¬ HoldsNul home) (v : Value) :
    Reports (fun f => (∃ path, v = .text path ∧ t.Unsettled home path f) ∨
      f = .noText ∧ v ≠ .null ∧ ∀ s, v ≠ .text s) (stylesheet t home v) := by
  unfold stylesheet
  split
  · exact reports_ok _
  · next css =>
    refine reports_bind ((FileTree.reports_settle hhome).imp fun f h => Or.inl ⟨css, rfl, h⟩) fun place _ => ?_
    refine reports_bind (FileTree.reports_isFileOrFail _) fun isFile _ => ?_
    split
    · exact reports_ok _
    · exact reports_error (Or.inl rfl)
  · next hnull htext => exact reports_error (Or.inr (Or.inr ⟨rfl, hnull, htext⟩))

/-- What may be wrong with options without being reported. -/
inductive Flaw (t : FileTree) (home : List Char) (layouts : Layouts) (es : List (Value × Value)) :
    Failure → Prop where
  | name {v : Value} (hmem : v ∈ es.map (·.1)) (hunknown : isKnown v = false) (h : ∀ s, v ≠ .text s) :
      Flaw t home layouts es .noText
  | layout {f : Failure} (h : t.Unsettled home (chosen es "layout").toText f) : Flaw t home layouts es f
  | template {l : Layouts} {layout : List Char} {f : Failure} (hlooked : layouts.looked t = .ok l)
      (hlayout : l.resolve t home (chosen es "layout").toText = .ok layout)
      (h : Template.Broken t layout (chosen es "template").toText f) : Flaw t home layouts es f
  | css {path : List Char} {f : Failure} (hcss : chosen es "css" = .text path)
      (h : t.Unsettled home path f) : Flaw t home layouts es f
  | cssType (hnull : chosen es "css" ≠ .null) (h : ∀ s, chosen es "css" ≠ .text s) :
      Flaw t home layouts es .noText
  | path {name : String} (hname : name = "output" ∨ name = "index")
      (h : HoldsNul (chosen es name).toText) : Flaw t home layouts es (.file .nulInPath)
  | markdown {f : Failure} (h : Markdown.Options.Flaw (chosen es "markdown") f) : Flaw t home layouts es f

theorem reports_resolve (hhome : ¬ HoldsNul home) (layouts : Layouts) (es : List (Value × Value)) :
    Reports (Flaw t home layouts es) (resolve t home layouts (.map es)) := by
  unfold resolve
  dsimp only
  rw [← entriesOf, entriesOf_map]
  simp only [pure_bind]
  refine reports_bind ((reports_checkNames es).imp ?_) fun _ _ => ?_
  · rintro f ⟨rfl, v, hmem, hunknown, h⟩
    exact .name hmem hunknown h
  refine reports_bind (layouts.reports_looked t _) fun l hl => ?_
  refine reports_bind ((l.reports_resolve t hhome _).imp fun f h => .layout h) fun layout hlayout => ?_
  refine reports_bind ((Template.reports_load t _ _).imp fun f h => .template hl hlayout h) fun template _ => ?_
  refine reports_bind ((reports_stylesheet hhome _).imp ?_) fun css _ => ?_
  · rintro f (⟨path, hcss, h⟩ | ⟨rfl, hnull, h⟩)
    · exact .css hcss h
    · exact .cssType hnull h
  refine reports_bind ((reports_absolutePath _).imp ?_) fun output _ => ?_
  · rintro f ⟨rfl, h⟩
    exact .path (Or.inl rfl) h
  rw [bind_indexOf]
  refine reports_bind ((reports_indexOf _).imp ?_) fun index _ => ?_
  · rintro f ⟨rfl, h⟩
    exact .path (Or.inr rfl) h
  refine reports_bind ((Markdown.Options.reports_of _).imp fun f h => .markdown h) fun markdown _ => ?_
  exact reports_ok _

end Configuration

end Marginalia
