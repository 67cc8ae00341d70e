import Marginalia.CommandLine
import Marginalia.Proofs.Configuration.Flaws
import Marginalia.Proofs.Configuration.Names
import Marginalia.Proofs.Pipeline.Stages

/-! # How a call ends

A call tells what it was asked for, or explains its use, or documents files, or says why it failed, and
its code tells which. It ends in no other way unless it was given something flawed: a journal file that
cannot be opened, an option file that is no text, options of the wrong kind, a path that is no text for
the system or leads nowhere, Markdown settings nobody knows, or a template that cannot be used.

Three more flaws are beyond what is modelled: settings of highlighted code that are handed on and
refused where code is shown, option files nested deeper than a stack reaches, and texts with half a
surrogate pair, which no file can hold. Each of them makes a call end without a word as well.
-/
namespace Marginalia

open Text

/-- A world as a system holds it: its files are in order, and it can name the home directory. -/
structure World.Sound (w : World) : Prop where
  tree : w.tree.WellFormed
  home : ¬ HoldsNul w.home

namespace Pipeline

/-- What may be wrong with a run without being reported, when it has the splitters that are always
there. -/
inductive Flaw (p : Pipeline) : Failure → Prop where
  | output (h : HoldsNul p.options.output) : Flaw p (.file .nulInPath)
  | page {s : Source} {t : FileTree} {sources : List Source} {i : Nat} {fault : TemplateFault}
      (hs : CutFrom p.sources s)
      (h : Page.render t p.options p.setup sources i (s.marked p.setup) given = .error fault) :
      Flaw p (.template fault)

theorem reported_of_blames {p : Pipeline} {task : Task} {paths : List (List Char)} {f : Failure}
    (h : Failure.Blames task paths f) (hnul : ∀ path ∈ paths, HoldsNul path → HoldsNul p.options.output) :
    f.isReported = true ∨ Flaw p f := by
  cases h with
  | failed why => exact Or.inl rfl
  | nul hmem h => exact Or.inr (.output (hnul _ hmem h))

/-- Where the sources and the stylesheet are texts for the system, only the output directory and the
template can make a run fail without a word. -/
theorem reports_run_standard {p : Pipeline} (hsplitters : p.splitters = .standard)
    (hsources : ∀ s ∈ p.sources, ¬ HoldsNul s.fullPath)
    (hpages : ∀ s ∈ p.sources, HoldsNul s.outputPath → HoldsNul p.options.output)
    (hcss : ∀ css, p.options.css = some css → ¬ HoldsNul css) :
    Reports (Flaw p) (run.run.run p).1 := by
  have hpart := run_stage p
  intro f hf
  generalize run.run.run p = ended at hpart hf
  obtain ⟨out, q⟩ := ended
  subst hf
  obtain ⟨part, -, hfails, -⟩ := hpart
  cases hfails with
  -- sources are texts for the system and the splitters can all be called
  | cutting hfault =>
    rw [hsplitters] at hfault
    cases hfault with
    | unread hmem hread =>
      exact reported_of_blames hread (by simpa using fun hnul => absurd hnul (hsources _ hmem))
    | plugin hload => cases hload
    | uncallable hget hcall => simp [Registry.isCallable_of_standard hget] at hcall
  | making hblames => exact reported_of_blames hblames (by simp)
  | assets hasked hblames =>
    refine reported_of_blames hblames fun path hpath hnul => ?_
    obtain rfl := List.mem_singleton.mp hpath
    exact hnul.of_joined.resolve_right (by simp [HoldsNul, assetsName])
  | stylesheet hsome hblames =>
    refine reported_of_blames hblames fun path hpath hnul => ?_
    rcases List.mem_cons.mp hpath with rfl | hpath
    · exact absurd hnul (hcss _ hsome)
    · obtain rfl := List.mem_singleton.mp hpath
      exact hnul.of_joined.resolve_right fun hname => hcss _ hsome hname.of_baseName
  | writing hs hfault =>
    cases hfault with
    | unwritten hblames =>
      obtain ⟨s, hmem, sections, rfl⟩ := hs
      exact reported_of_blames hblames (by simpa using hpages s hmem)
    | template hrender hmissing => exact Or.inr (.page hs hrender)

end Pipeline

namespace CommandLine

variable {a : Arguments} {w v : World} {es : List (Value × Value)} {found : Found} {p : Pipeline}

section Journal

theorem wellFormed_of_openFile {t u : FileTree} (ht : t.WellFormed) {path : List Char} {place : Place}
    (h : openFile t path = .ok (u, place)) : u.WellFormed := by
  unfold openFile at h
  cases hl : t.locate path true with
  | error fault => simp [hl, bind, Except.bind] at h
  | ok g =>
    rw [hl] at h
    cases g with
    | found q e =>
      cases e with
      | dir => cases h
      | _ =>
        cases h
        exact ht
    | free parent name slash =>
      cases slash with
      | true => cases h
      | false =>
        cases h
        exact (FileTree.puts_of_free ht hl (Or.inl ⟨_, rfl⟩)).wellFormed ht

theorem sound_of_openJournal (hw : w.Sound) (h : openJournal a w = .ok v) : v.Sound := by
  unfold openJournal at h
  split at h
  · cases h
    exact ⟨hw.tree, hw.home⟩
  · next path _ =>
    cases ho : openFile w.tree (w.tree.absolute path) with
    | error fault => simp [ho, bind, Except.bind] at h
    | ok opened =>
      simp only [ho] at h
      cases h
      exact ⟨wellFormed_of_openFile hw.tree ho, hw.home⟩

end Journal

section Files

/-- What may be wrong with the arguments of a call and what they name without being reported. -/
inductive Arguments.Flaw (a : Arguments) (w : World) : Failure → Prop where
  | optionFile {path : List Char} {f : Failure} (hpath : a.config = some path ∨ a.markdown = some path)
      (h : OptionFile.Flaw w.tree path f) : Flaw a w f
  | settings {path : List Char} {es : List (Value × Value)} {f : Failure} (hpath : a.markdown = some path)
      (hread : OptionFile.read w.tree path = .ok (.map es)) (h : Markdown.Options.Flaw (.map es) f) :
      Flaw a w f
  | options {es : List (Value × Value)} {f : Failure} (hes : a.options w.tree = .ok es)
      (h : Configuration.Flaw w.tree w.home (.at' w.layouts) es f) : Flaw a w f
  | file {path : List Char} (hmem : path ∈ a.files) (h : HoldsNul path) : Flaw a w (.file .nulInPath)
  | setup {es : List (Value × Value)} {c : Configuration} {f : Failure} (hes : a.options w.tree = .ok es)
      (hc : Configuration.resolve w.tree w.home (.at' w.layouts) (.map es) = .ok c)
      (h : c.markdown.setup = .error f) : Flaw a w f
  | page {es : List (Value × Value)} {c : Configuration} {setup : Markdown.Setup} {found : Found}
      {s : Source} {t : FileTree} {sources : List Source} {i : Nat} {fault : TemplateFault}
      (hes : a.options w.tree = .ok es)
      (hc : Configuration.resolve w.tree w.home (.at' w.layouts) (.map es) = .ok c)
      (hsetup : c.markdown.setup = .ok setup) (hfound : Source.walk w.tree a.files c.recursive = .ok found)
      (hs : Pipeline.CutFrom (Source.mapOutputs found c.output c.index) s)
      (h : Page.render t c setup sources i (s.marked setup) Pipeline.given = .error fault) :
      Flaw a w (.template fault)

theorem reports_options : Reports (a.Flaw w) (a.options w.tree) := by
  unfold Arguments.options
  refine reports_bind ?_ fun es _ => ?_
  · unfold Arguments.fileOptions
    split
    · next path hpath =>
      exact (OptionFile.reports_options w.tree path).imp fun f h => .optionFile (Or.inl hpath) h
    · exact reports_ok _
  · split
    · next path hpath =>
      refine reports_bind ((OptionFile.reports_markdown w.tree path).imp ?_) fun own _ => reports_ok _
      rintro f (h | ⟨es, hread, h⟩)
      · exact .optionFile (Or.inr hpath) h
      · exact .settings hpath hread h
    · exact reports_ok _

theorem pathsOf_texts (files : List (List Char)) :
    Pipeline.pathsOf (.list (files.map .text)) = .ok files :=
  Configuration.textsOf_map_text files

theorem reported_of_start (hw : w.Sound) (hes : a.options w.tree = .ok es) {f : Failure}
    (h : Pipeline.StartFault (.at' w.layouts) (.list (a.files.map .text)) (.map es) w f) :
    f.isReported = true ∨ a.Flaw w f := by
  cases h with
  | options h =>
    exact (Configuration.reports_resolve hw.home _ es f h).imp_right fun hflaw => .options hes hflaw
  | paths h => simp [pathsOf_texts] at h
  | walk hc hps h =>
    rw [pathsOf_texts] at hps
    cases hps
    rcases Source.reports_walk hw.tree a.files f h with h | ⟨rfl, path, hmem, hnul⟩
    · exact Or.inl h
    · exact Or.inr (.file hmem hnul)
  | noSources => exact Or.inl rfl
  | setup hc h => exact Or.inr (.setup hes hc h)

theorem reports_run (hw : w.Sound) (hes : a.options w.tree = .ok es)
    (h : Pipeline.Started (.at' w.layouts) .standard (.list (a.files.map .text)) (.map es) w found p) :
    Reports (a.Flaw w) (Pipeline.run.run.run p).1 := by
  obtain ⟨es, hentries, hres⟩ := Configuration.resolve_eq_ok_iff.mp h.options
  rw [Configuration.entriesOf_map] at hentries
  cases hentries
  obtain ⟨ps, hps, hwalk⟩ := h.walked
  rw [pathsOf_texts] at hps
  cases hps
  have hfound := Source.not_holdsNul_of_walk hw.tree hwalk
  refine (Pipeline.reports_run_standard h.splitters ?_ ?_ ?_).imp ?_
  · intro s hs
    rw [h.sources] at hs
    obtain ⟨g, hg, rfl⟩ := List.mem_map.mp hs
    exact (hfound g hg).1
  · intro s hs
    rw [h.sources] at hs
    exact Source.holdsNul_of_outputPath (fun g hg => (hfound g hg).2) hs
  · intro css hcss
    obtain ⟨-, place, content, hstat⟩ := Configuration.file_of_stylesheet (hcss ▸ hres.css)
    exact FileTree.not_holdsNul_of_stat hstat
  · rintro f (hnul | ⟨hs, hrender⟩)
    · exact .options hes (.path (Or.inl rfl)
        (Configuration.holdsNul_of_absolutePath hw.tree hw.home hres.output hnul))
    · exact .page hes h.options h.setup hwalk (h.sources ▸ hs) hrender

theorem reports_documentFiles (hw : w.Sound) : Reports (a.Flaw w) (documentFiles a w).1 := by
  unfold documentFiles
  cases hes : a.options w.tree with
  | error failure => exact reports_error (reports_options failure hes)
  | ok es =>
    dsimp only
    unfold document
    rcases @Pipeline.start_run (.at' w.layouts) .standard (.list (a.files.map .text)) (.map es) w with
      ⟨p, found, hrun, hp⟩ | ⟨failure, w', hrun, -, hfault⟩
    · rw [hrun]
      exact reports_run hw hes hp
    · rw [hrun]
      exact reports_error (reported_of_start hw hes hfault)

end Files

section Call

/-- The ways in which a call is said to end: it tells about itself, explains its use, documents the files,
or says why it does not. -/
inductive Documented (w : World) : Except Stop Arguments → Outcome → Prop where
  | told {stop : Stop} {o : Outcome} (hstop : stop = .help ∨ stop = .version) (hended : o.ended = .ok 0) :
      Documented w (.error stop) o
  | misused {stop : Stop} {o : Outcome} (hstop : stop ≠ .help ∧ stop ≠ .version)
      (hended : o.ended = .ok 2) : Documented w (.error stop) o
  | done {a : Arguments} {v v' : World} {sources : List Source} {o : Outcome}
      (hopen : openJournal a w = .ok v) (hrun : documentFiles a v = (.ok sources, v'))
      (hended : o.ended = .ok 0) : Documented w (.ok a) o
  | failed {a : Arguments} {v v' : World} {f : Failure} {shown : List Char} {o : Outcome}
      (hopen : openJournal a w = .ok v) (hrun : documentFiles a v = (.error f, v'))
      (hended : o.ended = .ok 1) (hsaid : o.stderr = shown ++ failureText f) : Documented w (.ok a) o

theorem Documented.exists_code {said : Except Stop Arguments} {o : Outcome} (h : Documented w said o) :
    ∃ code, o.ended = .ok code := by
  cases h with
  | told _ hended => exact ⟨_, hended⟩
  | misused _ hended => exact ⟨_, hended⟩
  | done _ _ hended => exact ⟨_, hended⟩
  | failed _ _ hended _ => exact ⟨_, hended⟩

/-- What may be wrong with a call without being reported. -/
inductive Flaw (a : Arguments) (w : World) : Failure → Prop where
  | journal {fault : FileFault} (h : openJournal a w = .error fault) : Flaw a w (.file fault)
  | run {v : World} {f : Failure} (hopen : openJournal a w = .ok v) (h : a.Flaw v f)
      (hsilent : f.isReported = false) : Flaw a w f

theorem documented_of_stop (w : World) (stop : Stop) : Documented w (.error stop) stop.outcome := by
  cases stop with
  | help => exact .told (Or.inl rfl) rfl
  | version => exact .told (Or.inr rfl) rfl
  | _ => exact .misused ⟨by simp, by simp⟩ rfl

/-- An option file that is read. Markdown options are read once the other options are. -/
def Arguments.Reads (a : Arguments) (t : FileTree) (path : List Char) : Prop :=
  a.config = some path ∨ (∃ es, a.fileOptions t = .ok es) ∧ a.markdown = some path

theorem options_of_flaw {t : FileTree} {path : List Char} {f : Failure} (hreads : a.Reads t path)
    (h : OptionFile.Flaw t path f) : a.options t = .error f := by
  have hread := OptionFile.read_of_flaw h
  unfold Arguments.options
  rcases hreads with hpath | ⟨⟨es, hes⟩, hpath⟩
  · have hes : a.fileOptions t = .error f := by
      simp only [Arguments.fileOptions, hpath, OptionFile.options, hread]
      rfl
    rw [hes]
    rfl
  · have hown : OptionFile.markdown t path = .error f := by
      simp only [OptionFile.markdown, hread]
      rfl
    rw [hes]
    simp only [hpath, hown]
    rfl

/-- A flaw of an option file that is read is never reported. -/
theorem ended_of_flaw {argv : List (List Char)} {path : List Char} {f : Failure} (hparse : parse argv = .ok a)
    (hopen : openJournal a w = .ok v) (hreads : a.Reads v.tree path) (h : OptionFile.Flaw v.tree path f) :
    (run argv w).1.ended = .error f := by
  have hfiles : documentFiles a v = (.error f, v) := by
    rw [documentFiles, options_of_flaw hreads h]
  simp only [run, hparse, hopen, hfiles, h.isReported]
  rfl

/-- Every call ends in a documented way, unless it was given something flawed. An option file with a flaw
always makes a call end otherwise. -/
theorem ends_documented_unless_flawed (hw : w.Sound) (argv : List (List Char)) :
    (Documented w (parse argv) (run argv w).1 ∨
      ∃ a f, parse argv = .ok a ∧ (run argv w).1.ended = .error f ∧ Flaw a w f) ∧
    ∀ a v path f, parse argv = .ok a → openJournal a w = .ok v → a.Reads v.tree path →
      OptionFile.Flaw v.tree path f → (run argv w).1.ended = .error f := by
  refine ⟨?_, fun a v path f => ended_of_flaw⟩
  unfold run
  cases hparse : parse argv with
  | error stop => exact Or.inl (documented_of_stop w stop)
  | ok a =>
    dsimp only
    cases hopen : openJournal a w with
    | error fault => exact Or.inr ⟨a, _, rfl, rfl, .journal hopen⟩
    | ok v =>
      have hreports := reports_documentFiles (a := a) (sound_of_openJournal hw hopen)
      dsimp only
      split
      · next hrun => exact Or.inl (.done hopen hrun rfl)
      · next f v' hrun =>
        rw [hrun] at hreports
        split
        · exact Or.inl (.failed hopen hrun rfl rfl)
        · next hsilent =>
          have hflaw := (hreports f rfl).resolve_left hsilent
          exact Or.inr ⟨a, f, rfl, rfl, .run hopen hflaw (by simpa using hsilent)⟩

/-- A file of options with a byte that starts no character. -/
def brokenFiles : List (Place × Entry) :=
  [(["w".toList, "a.md".toList], .file ⟨#[104]⟩), (["w".toList, "c.yml".toList], .file ⟨#[255]⟩)]

theorem sound_broken : (Pipeline.sampleWorld brokenFiles).Sound :=
  ⟨FileTree.wellFormed_of_check (by decide), by simp [HoldsNul, Pipeline.sampleWorld]⟩

theorem flaw_broken : OptionFile.Flaw (Pipeline.sampleTree brokenFiles) "c.yml".toList .undecodable :=
  .undecodable (by cbv : (Pipeline.sampleTree brokenFiles).read "c.yml".toList = .ok ⟨#[255]⟩) (by cbv)

def brokenCall : List (List Char) :=
  ["--config".toList, "c.yml".toList, "a.md".toList]

/-- Options that are no text are not reported. -/
theorem ends_documented_unless_flawed_broken :
    (run brokenCall (Pipeline.sampleWorld brokenFiles)).1.ended = .error .undecodable ∧
      ¬ Documented (Pipeline.sampleWorld brokenFiles) (parse brokenCall)
        (run brokenCall (Pipeline.sampleWorld brokenFiles)).1 := by
  have hparse : parse brokenCall =
      .ok { files := ["a.md".toList], config := some "c.yml".toList } := by cbv
  have hended := (ends_documented_unless_flawed sound_broken brokenCall).2 _ _ _ _ hparse rfl
    (Or.inl rfl) flaw_broken
  refine ⟨hended, fun hdocumented => ?_⟩
  obtain ⟨code, hcode⟩ := hdocumented.exists_code
  rw [hended] at hcode
  cases hcode

end Call

end CommandLine
end Marginalia
