import Marginalia.CommandLine.Flag
import Marginalia.OptionFile

/-! # Arguments of the command line

Arguments are flags, values of flags and files. A long flag may be cut short while it stays one flag's,
short flags may be written together, and a value may follow its flag directly. Files stand together; the
first group of them counts. After two dashes nothing is a flag.
-/
namespace Marginalia.CommandLine

open Text

/-- What the arguments say. -/
structure Arguments where
  files : List (List Char) := []
  output : Option (List Char) := none
  layout : Option (List Char) := none
  template : Option (List Char) := none
  index : Option (List Char) := none
  css : Option (List Char) := none
  markdown : Option (List Char) := none
  config : Option (List Char) := none
  recursive : Option Bool := none
  assets : Option Bool := none
  verbose : Bool := false
  logFile : Option (List Char) := none

/-- Why arguments do not lead to a run. -/
inductive Stop where
  | help
  | version
  | ambiguous (arg : List Char) (matching : List (List Char))
  /-- A flag without its value. -/
  | noValue (flag : List Char)
  /-- A value for a flag that takes none. -/
  | ignoredValue (flag value : List Char)
  | noFiles
  | unrecognized (args : List (List Char))

/-- An argument that is a flag: its spelling, unless nobody knows it, and a value that stands in the same
argument, with or without an equals sign. -/
structure FlagUse where
  spelling : Option (List Char × Spelling)
  value : Option (Bool × List Char) := none

/-- What an argument is. -/
inductive Kind where
  | file
  | dashes
  | flag (use : FlagUse)

def isNegative (s : List Char) : Bool :=
  match s with
  | '-' :: r =>
    let whole := r.takeWhile isDecimal
    match r.drop whole.length with
    | [] => !whole.isEmpty
    | '.' :: fraction => !fraction.isEmpty && fraction.all isDecimal
    | _ => false
  | _ => false

def cutEquals (s : List Char) : List Char × Option (Bool × List Char) :=
  let front := s.takeWhile (· ≠ '=')
  match s.drop front.length with
  | _ :: value => (front, some (true, value))
  | [] => (front, none)

def candidates (arg : List Char) : List ((List Char × Spelling) × Option (Bool × List Char)) :=
  if startsWith ['-', '-'] arg then
    let (front, value) := cutEquals arg
    (allSpellings.filter fun (t, _) => startsWith front t).map fun s => (s, value)
  else
    allSpellings.filterMap fun (t, s) =>
      if t = arg.take 2 then some ((t, s), some (false, arg.drop 2))
      else if startsWith arg t then some ((t, s), none)
      else none

def kindOf (arg : List Char) : Except Stop Kind :=
  let known (t : List Char) := allSpellings.find? (·.1 = t)
  let (front, value) := cutEquals arg
  if arg.head? ≠ some '-' then .ok .file
  else match known arg with
    | some s => .ok (.flag ⟨some s, none⟩)
    | none =>
      if arg.length = 1 then .ok .file
      else match (if value.isSome then known front else none) with
        | some s => .ok (.flag ⟨some s, value⟩)
        | none =>
          match candidates arg with
          | [(s, value)] => .ok (.flag ⟨some s, value⟩)
          | [] =>
            .ok (if isNegative arg || arg.contains ' ' then .file else .flag ⟨none, none⟩)
          | several => .error (.ambiguous arg (several.map (·.1.1)))

def kindsOf : List (List Char) → Except Stop (List (List Char × Kind))
  | [] => .ok []
  | arg :: args =>
    if arg = ['-', '-'] then .ok ((arg, .dashes) :: args.map (·, .file))
    else do
      let kind ← kindOf arg
      return (arg, kind) :: (← kindsOf args)

/-- A flag with its value if it takes one. -/
abbrev Setting := Flag × List Char

def apply (a : Arguments) : Setting → Except Stop Arguments
  | (.help, _) => .error .help
  | (.version, _) => .error .version
  | (.output, v) => .ok { a with output := some v }
  | (.layout, v) => .ok { a with layout := some v }
  | (.template, v) => .ok { a with template := some v }
  | (.index, v) => .ok { a with index := some v }
  | (.css, v) => .ok { a with css := some v }
  | (.markdown, v) => .ok { a with markdown := some (Path.parse v).text }
  | (.config, v) => .ok { a with config := some (Path.parse v).text }
  | (.logFile, v) => .ok { a with logFile := some (Path.parse v).text }
  | (.recursive, _) => .ok { a with recursive := some true }
  | (.noAssets, _) => .ok { a with assets := some false }
  | (.verbose, _) => .ok { a with verbose := true }

def isShort (t : List Char) : Bool :=
  t[1]? ≠ some '-'

/-- What flags written in one argument say: settings in order, and letters that are no flags. -/
structure Cluster where
  settings : List Setting
  extra : Option (List Char) := none
  /-- Whether the last flag takes the next argument as its value. -/
  open' : Option Spelling := none

/-- Reads the flags of one argument, with the value that stands in it. -/
def readCluster (t : List Char) (s : Spelling) : Option (Bool × List Char) → Except Stop Cluster
  | none =>
    if s.value.isSome then .ok { settings := [], open' := some s }
    else .ok { settings := [(s.flag, [])] }
  | some (equals, v) =>
    if s.value.isSome then .ok { settings := [(s.flag, v)] }
    else if isShort t && !equals then letters s v
    else .error (.ignoredValue s.name v)
where
  /-- Reads the letters after a flag that takes no value. -/
  letters (s : Spelling) : List Char → Except Stop Cluster
    | [] => .error (.ignoredValue s.name [])
    | c :: rest =>
      if c = '-' then .error (.ignoredValue s.name (c :: rest))
      else match spellings.find? (·.short = some c) with
        | none => .ok { settings := [(s.flag, [])], extra := some ('-' :: c :: rest) }
        | some next => do
          let cluster ← match rest with
            | [] =>
              if next.value.isSome then .ok { settings := [], open' := some next }
              else .ok { settings := [(next.flag, [])] }
            | '=' :: v =>
              if next.value.isSome then .ok { settings := [(next.flag, v)] }
              else .error (.ignoredValue next.name v)
            | v =>
              if next.value.isSome then .ok { settings := [(next.flag, v)] }
              else letters next v
          return { cluster with settings := (s.flag, []) :: cluster.settings }

/-- The state of the reading: what was said, whether files were given, and what nobody knows. -/
structure Reading where
  said : Arguments := {}
  filesGiven : Bool := false
  extras : List (List Char) := []

def isFileOrDashes : Kind → Bool
  | .flag _ => false
  | _ => true

/-- The files at the start of arguments, with the number of arguments they take: nothing unless one of
them is a file. The first two dashes are no file. -/
def filesAt (args : List (List Char × Kind)) : Option (List (List Char) × Nat) :=
  let group := args.takeWhile fun (_, k) => isFileOrDashes k
  if group.any fun (_, k) => k matches .file then
    some ((group.map (·.1)).erase ['-', '-'], group.length)
  else none

/-- Takes files at the start of arguments, once; gives the number of arguments taken. -/
def takeFiles (r : Reading) (args : List (List Char × Kind)) : Reading × Nat :=
  if r.filesGiven then (r, 0)
  else match filesAt args with
    | some (files, n) => ({ r with said := { r.said with files }, filesGiven := true }, n)
    | none => (r, 0)

def applyAll (a : Arguments) : List Setting → Except Stop Arguments
  | [] => .ok a
  | s :: ss => do applyAll (← apply a s) ss

/-- Reads a flag and its value; gives the arguments that are left. -/
def readFlag (r : Reading) (arg : List Char) (use : FlagUse) (rest : List (List Char × Kind)) :
    Except Stop (Reading × List (List Char × Kind)) :=
  match use.spelling with
  | none => .ok ({ r with extras := r.extras ++ [arg] }, rest)
  | some (t, s) => do
    let cluster ← readCluster t s use.value
    let (last, rest) ← match cluster.open', rest with
      | none, rest => pure ([], rest)
      | some s, (v, .file) :: rest => pure ([(s.flag, v)], rest)
      | some s, _ => throw (.noValue s.name)
    let said ← applyAll r.said (cluster.settings ++ last)
    return ({ r with said, extras := r.extras ++ cluster.extra.toList }, rest)

def hasFlag (args : List (List Char × Kind)) : Bool :=
  args.any fun (_, k) => !isFileOrDashes k

/-- Reads arguments; each step takes at least one of them. -/
def readFrom : Nat → Reading → List (List Char × Kind) → Except Stop Reading
  | 0, r, _ => .ok r
  | fuel + 1, r, args =>
    let (r, n) := takeFiles r args
    if !hasFlag args then .ok { r with extras := r.extras ++ (args.drop n).map (·.1) }
    else if 0 < n then readFrom fuel r (args.drop n)
    else
      let before := args.takeWhile fun (_, k) => isFileOrDashes k
      let r := { r with extras := r.extras ++ before.map (·.1) }
      match args.drop before.length with
      | (arg, .flag use) :: rest => do
        let (r, rest) ← readFlag r arg use rest
        readFrom fuel r rest
      | _ => .ok r

/-- Reads arguments. -/
def parse (argv : List (List Char)) : Except Stop Arguments := do
  let args ← kindsOf argv
  let r ← readFrom (args.length + 1) {} args
  if !r.filesGiven then throw .noFiles
  if !r.extras.isEmpty then throw (.unrecognized r.extras)
  return r.said

def Stop.message : Stop → List Char
  | help | version => []
  | ambiguous arg matching =>
    "ambiguous option: ".toList ++ arg ++ " could match ".toList ++ join [',', ' '] matching
  | noValue flag => "argument ".toList ++ flag ++ ": expected one argument".toList
  | ignoredValue flag value =>
    "argument ".toList ++ flag ++ ": ignored explicit argument ".toList ++ quoted value
  | noFiles => "the following arguments are required: FILES".toList
  | unrecognized args => "unrecognized arguments: ".toList ++ join [' '] args

namespace Arguments

/-- A text option, if it was given. -/
def putText (name : String) (v : Option (List Char)) (es : List (Value × Value)) :
    List (Value × Value) :=
  match v with
  | some s => Value.put (.ofString name) (.text s) es
  | none => es

/-- A truth option, if it was given. -/
def putBool (name : String) (v : Option Bool) (es : List (Value × Value)) : List (Value × Value) :=
  match v with
  | some b => Value.put (.ofString name) (.bool b) es
  | none => es

/-- The options of the option file, if there is one. -/
def fileOptions (a : Arguments) (t : FileTree) : Except Failure (List (Value × Value)) :=
  match a.config with
  | some path => OptionFile.options t path
  | none => .ok []

/-- The options that arguments ask for: those of the option file, with the Markdown options of their own
file and the flags over them. A run from the command line is never silent. -/
def options (a : Arguments) (t : FileTree) : Except Failure (List (Value × Value)) := do
  let es ← a.fileOptions t
  let es ← match a.markdown with
    | some path => do
      let own ← OptionFile.markdown t path
      pure (Value.put (.ofString "markdown") (.map own) es)
    | none => pure es
  let es := putText "output" a.output es
  let es := putText "layout" a.layout es
  let es := putText "template" a.template es
  let es := putText "index" a.index es
  let es := putText "css" a.css es
  let es := putBool "recursive" a.recursive es
  let es := putBool "assets" a.assets es
  return Value.put (.ofString "silent") (.bool false) es

end Arguments
end Marginalia.CommandLine
