import Marginalia.Page
import Marginalia.Source.Walk
import Marginalia.Splitter
import Marginalia.World

/-! # Runs

A run finds its sources, cuts them into sections, makes the output directory, copies what the layout and
the stylesheet need, and writes the pages. Its stage tells how far it came. A step that fails leaves what
was done before it.
-/
namespace Marginalia

open Text

/-- How far a run came. -/
inductive Stage where
  | init
  | resolved
  | filtered
  | outputReady
  | assetsCopied
  | written
  | done
deriving DecidableEq

def Stage.name : Stage → String
  | init => "INIT"
  | resolved => "RESOLVED"
  | filtered => "FILTERED"
  | outputReady => "OUTPUT_READY"
  | assetsCopied => "ASSETS_COPIED"
  | written => "WRITTEN"
  | done => "DONE"

structure Pipeline where
  world : World
  options : Configuration
  splitters : Registry
  stage : Stage
  sources : List Source
  setup : Markdown.Setup

namespace Pipeline

/-- A step that changes a run, also when it fails. -/
abbrev Work := ExceptT Failure (StateM Pipeline)

/-- The texts of paths: one text, a list of texts, or nothing. -/
def pathsOf (paths : Value) : Except Failure (List (List Char)) :=
  match paths with
  | .null => .ok []
  | .text s | .path s => .ok [s]
  | v =>
    match v.parts? with
    | some vs => Configuration.textsOf vs
    | none => .error .noText

/-- The directory for assets, in a layout and beside the pages. -/
def assetsName : Name := "public".toList

def countRecord (found : Found) : Record :=
  ⟨.debug, .sources, "Resolved ".toList ++ natText found.length ++ " source files".toList⟩

/-- Prepares a run: its configuration, its sources and its Markdown setup. -/
def start (layouts : Layouts) (splitters : Registry) (paths options : Value) :
    ExceptT Failure (StateM World) Pipeline := do
  let w ← get
  let options ← Configuration.resolve w.tree w.home layouts options
  let paths ← pathsOf paths
  let found ← Source.walk w.tree paths options.recursive
  modify (·.report (countRecord found))
  if found.isEmpty then throw .noSources
  let setup ← options.markdown.setup
  return { world := ← get, options, splitters, stage := .resolved, setup
           sources := Source.mapOutputs found options.output options.index }

def report (rs : List Record) : Work Unit :=
  modify fun p => { p with world := p.world.reportAll rs }

def enter (stage : Stage) : Work Unit :=
  modify fun p => { p with stage }

def setTree (tree : FileTree) : Work Unit :=
  modify fun p => { p with world := { p.world with tree } }

/-- A path in the quotes of a message, as a reader in the working directory would write it. -/
def shown (p : Pipeline) (path : List Char) : List Char :=
  '\'' :: p.world.tree.short path ++ ['\'']

/-- Fails for a task when there is a fault. -/
def check (task : Task) : Option FileFault → Work Unit
  | some fault => throw (.during task fault)
  | none => pure ()

/-- The splitter for an extension; plugins are loaded first. -/
def splitterFor (extension : List Char) : Work (Option Splitter) := do
  if extension.isEmpty then return none
  let loaded := (← get).splitters.load
  modify fun p => { p with splitters := loaded.registry }
  report loaded.records
  match loaded.failure with
  | some failure => throw failure
  | none => return loaded.registry.get? extension

/-- The sections of a source; nothing when its file type has no splitter. -/
def sectionsOf (s : Source) : Work (Option (List Section)) := do
  match ← splitterFor (Path.cutExtension s.fullPath).2 with
  | none =>
    let p ← get
    report (p.options.log ("Ignoring unsupported file: ".toList ++ p.shown s.fullPath))
    return none
  | some splitter =>
    match (← get).world.tree.read s.fullPath with
    | .error fault => throw (.during (.read s.fullPath) fault)
    | .ok content =>
      let sections ← splitter.run (decodeLenient content)
      let p ← get
      if sections.isEmpty then
        report (p.options.log ("Ignoring file without documentation: ".toList ++ p.shown s.fullPath))
      return some sections

/-- Cuts sources, after those that were cut before, and gives those with sections. -/
def parseFrom (before : List Source) : List Source → Work (List Source)
  | [] => return []
  | s :: rest => do
    match ← sectionsOf s with
    | none => parseFrom (before ++ [s]) rest
    | some sections =>
      let s := { s with sections }
      modify fun p => { p with sources := before ++ s :: rest }
      let kept ← parseFrom (before ++ [s]) rest
      return if sections.isEmpty then kept else s :: kept

def collisionMessage (p : Pipeline) (earlier later : Source) : List Char :=
  p.shown earlier.fullPath ++ " and ".toList ++ p.shown later.fullPath ++ " both map to ".toList ++
    p.shown later.outputPath ++ "; the later file overwrites the earlier one".toList

/-- Keeps the sources that have sections. -/
def parse : Work (List Source) := do
  let kept ← parseFrom [] (← get).sources
  let p ← get
  report ((Source.collisions kept).flatMap fun (a, b) => p.options.warn (p.collisionMessage a b))
  modify fun p => { p with sources := kept, stage := .filtered }
  return kept

def makeOutput : Work Unit := do
  let p ← get
  let made := p.world.tree.makeDirs p.options.output
  setTree made.tree
  check (.create p.options.output) made.fault

/-- Copies the assets of the layout, if it has any. -/
def copyAssets : Work Unit := do
  let p ← get
  let source := Path.joined p.options.layout assetsName
  let target := Path.joined p.options.output assetsName
  if p.world.tree.isDir source then
    let copied := p.world.tree.copyDir source target
    setTree copied.tree
    check (.copyAssets target) copied.fault
    if !copied.faults.isEmpty then
      throw (.failed (.copyAssets target) (FileTree.copyMessage copied.faults))
    report (p.options.log ("Copied layout assets to ".toList ++ p.shown target))

/-- Copies the stylesheet, if there is one. -/
def copyStylesheet : Work Unit := do
  let p ← get
  match p.options.css with
  | none => return
  | some css =>
    let target := Path.joined p.options.output (Path.baseName css)
    match p.world.tree.copyFile css target with
    | .error fault => throw (.during (.copyStylesheet target) fault)
    | .ok tree =>
      setTree tree
      report (p.options.log ("Copied stylesheet to ".toList ++ p.shown target))

def given : List (List Char × Template.Item) :=
  [("blockdoc".toList, .object)]

/-- The page of the source at an index. Its sections become markup on the way. -/
def page (i : Nat) (s : Source) : Work (Except TemplateFault (List Char)) := do
  let p ← get
  let s := s.marked p.setup
  let sources := p.sources.set i s
  set { p with sources }
  return Page.render p.world.tree p.options p.setup sources i s given

/-- The page of the source at an index, without writing it. -/
def format (i : Nat) (s : Source) : Work (List Char) := do
  match ← page i s with
  | .ok markup => return markup
  | .error fault => throw (.template fault)

/-- Writes the page of the source at an index. A template that is not found is a fault of the writing. -/
def write (i : Nat) (s : Source) : Work Unit := do
  let p ← get
  let made := p.world.tree.makeDirs (Path.directory s.outputPath)
  setTree made.tree
  check (.write s.outputPath) made.fault
  match ← page i s with
  | .error fault =>
    if fault.isMissing then throw (.failed (.write s.outputPath) fault.message)
    else throw (.template fault)
  | .ok markup =>
    match (← get).world.tree.write s.outputPath (encode markup) with
    | .error fault => throw (.during (.write s.outputPath) fault)
    | .ok tree =>
      setTree tree
      report (p.options.log (tree.short s.fullPath ++ " -> ".toList ++ tree.short s.outputPath))

/-- Writes the pages of sources that stand from an index on. -/
def writeFrom (i : Nat) : List Source → Work Unit
  | [] => return
  | s :: rest => do
    write i s
    writeFrom (i + 1) rest

/-- Copies what the pages need and writes them, once the output directory is made. -/
def publish (sources : List Source) : Work Unit := do
  enter .outputReady
  if (← get).options.assets then copyAssets
  copyStylesheet
  enter .assetsCopied
  writeFrom 0 sources
  enter .written
  let p ← get
  report (p.options.log ("Documented ".toList ++ natText sources.length ++ " file(s) into ".toList ++
    p.shown p.options.output))
  enter .done

/-- The whole run. Gives the sources that have a page. -/
def run : Work (List Source) := do
  let sources ← parse
  if sources.isEmpty then
    report [⟨.debug, .pipeline, "Nothing to document".toList⟩]
    enter .done
    return []
  makeOutput
  publish sources
  return sources

end Pipeline

/-- Prepares and performs a run in a world. -/
def document (layouts : Layouts) (splitters : Registry) (paths options : Value) (w : World) :
    Except Failure (List Source) × World :=
  match (Pipeline.start layouts splitters paths options).run.run w with
  | (.error failure, w) => (.error failure, w)
  | (.ok p, _) =>
    let (out, p) := Pipeline.run.run.run p
    (out, p.world)

end Marginalia
