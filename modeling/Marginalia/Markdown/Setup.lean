import Marginalia.Failure
import Marginalia.Text.Case

/-! # Markdown extensions

Which extensions are in use and how they are set. A name that is no extension, a setting that an
extension does not have and a value that a setting does not take are failures.

Five extensions are known. None of them carries anything over from one text to the next, as numbered notes
do that are to be told apart over all texts; so markup depends on a setup and a text alone.
-/
namespace Marginalia.Markdown

open Text

/-- How tables are built. -/
structure TableSetup where
  /-- Whether a cell's alignment is an attribute of its own instead of a style. -/
  alignAttribute : Bool := false

/-- How fenced code is built. -/
structure FenceSetup where
  langWord : List Char := "language-".toList

/-- How line numbers are shown. -/
inductive LineNumbers where
  | none
  | table
  | inline
deriving DecidableEq

/-- How code is highlighted. -/
structure CodeSetup where
  /-- Nothing when neither choice was made. -/
  lineNumbers : Option LineNumbers := Option.none
  styleClass : List Char := "codehilite".toList
  /-- Whether code is highlighted at all. -/
  highlight : Bool := true
  langWord : List Char := "language-".toList
  marked : List Nat := []

/-- The extensions in use. -/
structure Setup where
  fences : Option FenceSetup := none
  tables : Option TableSetup := none
  code : Option CodeSetup := none
  /-- Whether every line end is a line break. -/
  breaks : Bool := false
  /-- Whether the two kinds of lists are kept apart. -/
  strictLists : Bool := false

/-- The extensions there are. -/
inductive Extension where
  | fencedCode
  | tables
  | codeBlocks
  | lineBreaks
  | strictLists
deriving DecidableEq

def boolSetting (v : Value) : Except Failure Bool :=
  match v with
  | .text s =>
    let w := String.ofList (lower s)
    if ["true", "yes", "y", "on", "1"].contains w then .ok true
    else if ["false", "no", "n", "off", "0", "none"].contains w then .ok false
    else .error .settingValue
  | v => .ok v.truthy

/-- A setting read as a truth value that may be left open. -/
def optionalSetting (v : Value) : Except Failure (Option Bool) :=
  match v with
  | .null => .ok none
  | .text s => if lower s = "none".toList then .ok none else (boolSetting v).map some
  | v => .ok (some v.truthy)

/-- The line numbers of a free setting, which is a text or a truth value. -/
def numbersSetting (v : Value) : LineNumbers :=
  match v with
  | .text s =>
    if s = "inline".toList then .inline
    else match boolSetting v with
      | .ok b => if b then .table else .none
      | .error _ => if s.isEmpty then .none else .table
  | v => if v.truthy then .table else .none

/-- A setting of highlighted code. Settings that are not known are handed on to what writes the markup
of the code. They are not looked at here, so none of them is refused: neither a style of colours that
does not exist, which fails at the first code that is shown, nor a file to write the colours to. -/
def setCode (c : CodeSetup) (name : String) (v : Value) : Except Failure CodeSetup :=
  match name with
  | "linenums" => do
    let b ← optionalSetting v
    return if c.lineNumbers = some .inline then c
      else { c with lineNumbers := b.map fun b => if b then .table else .none }
  | "linenos" => .ok { c with lineNumbers := some (numbersSetting v) }
  | "guess_lang" | "noclasses" => (boolSetting v).map fun _ => c
  | "use_pygments" => (boolSetting v).map fun b => { c with highlight := b }
  | "css_class" => .ok { c with styleClass := v.toText }
  | "lang_prefix" => .ok { c with langWord := v.toText }
  | _ => .ok c

def setOne (e : Extension) (s : Setup) (name : List Char) (v : Value) : Except Failure Setup :=
  match e with
  | .fencedCode =>
    if name = "lang_prefix".toList then .ok { s with fences := some ⟨v.toText⟩ }
    else .error (.unknownSetting "fenced_code".toList name)
  | .tables =>
    if name = "use_align_attribute".toList then do
      return { s with tables := some ⟨← boolSetting v⟩ }
    else .error (.unknownSetting "tables".toList name)
  | .codeBlocks => do
    return { s with code := some (← setCode (s.code.getD {}) (String.ofList name) v) }
  | .lineBreaks => .error (.unknownSetting "nl2br".toList name)
  | .strictLists => .error (.unknownSetting "sane_lists".toList name)

/-- An extension with its settings as they are before any is given. -/
def enable (e : Extension) (s : Setup) : Setup :=
  match e with
  | .fencedCode => { s with fences := some {} }
  | .tables => { s with tables := some {} }
  | .codeBlocks => { s with code := some {} }
  | .lineBreaks => { s with breaks := true }
  | .strictLists => { s with strictLists := true }

def setAll (e : Extension) (s : Setup) : List (Value × Value) → Except Failure Setup
  | [] => .ok s
  | (.text name, v) :: rest => do setAll e (← setOne e s name v) rest
  | _ :: _ => .error .settingType

/-- The names of an extension: its own, its module, and its class in the module. -/
def extensionNames : List (Extension × String × String) :=
  [(.fencedCode, "fenced_code", "FencedCodeExtension"), (.tables, "tables", "TableExtension"),
   (.codeBlocks, "codehilite", "CodeHiliteExtension"), (.lineBreaks, "nl2br", "Nl2BrExtension"),
   (.strictLists, "sane_lists", "SaneListExtension")]

/-- Names that are taken by something other than an extension. -/
def otherNames : List String :=
  ["markdown", "markdown.extensions", "markdown.core", "markdown.util"]

def Extension.named (name : List Char) : Except Failure Extension :=
  let own := extensionNames.find? fun (_, n, _) => n.toList = name
  let inModule := extensionNames.find? fun (_, n, cls) =>
    ("markdown.extensions." ++ n).toList = name ||
      ("markdown.extensions." ++ n ++ ":" ++ cls).toList = name
  match own, inModule with
  | some (e, _), _ | none, some (e, _) => .ok e
  | none, none =>
    let module := name.takeWhile (· ≠ ':')
    if module.isEmpty then .error .settingValue
    else if module.head? = some '.' then .error .settingType
    else if otherNames.any (·.toList = module) ||
        extensionNames.any (fun (_, n, _) => ("markdown.extensions." ++ n).toList = module) then
      .error (.noExtension name)
    else .error (.unknownExtension name)

/-- The setup that extension names and their settings ask for. -/
def Setup.of (settings : List (Value × Value)) : List (List Char) → Setup → Except Failure Setup
  | [], s => .ok s
  | name :: names, s => do
    let e ← Extension.named name
    let own := match Value.get? (.text name) settings with
      | some (.map es) => es
      | _ => []
    Setup.of settings names (← setAll e (enable e s) own)

end Marginalia.Markdown
