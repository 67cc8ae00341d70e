import Marginalia.Pattern
import Marginalia.Yaml.Scanner

/-! # Nodes of option files

The tokens of one document as a tree. Each node has a tag; one that is not said is found from the text of
a plain scalar. An alias stands for the node with its anchor.
-/
namespace Marginalia.Yaml

open Text

/-- What a node is. -/
inductive Tag where
  | null
  | bool
  | int
  | float
  | binary
  | timestamp
  | text
  | sequence
  | mapping
  | set
  | orderedMap
  | pairs
  /-- The key that takes over the entries of another mapping. -/
  | merge
  /-- The key of the plain value of a mapping. -/
  | plainValue
  | other
deriving DecidableEq

inductive Node where
  | scalar (tag : Tag) (text : List Char)
  | sequence (tag : Tag) (items : List Node)
  | mapping (tag : Tag) (entries : List (Node × Node))

def Node.tag : Node → Tag
  | scalar t _ | sequence t _ | mapping t _ => t

/-! ## Tags -/

def tagStart : List Char := "tag:yaml.org,2002:".toList

def tagNames : List (String × Tag) :=
  [("null", .null), ("bool", .bool), ("int", .int), ("float", .float), ("binary", .binary),
   ("timestamp", .timestamp), ("str", .text), ("seq", .sequence), ("map", .mapping), ("set", .set),
   ("omap", .orderedMap), ("pairs", .pairs), ("merge", .merge), ("value", .plainValue)]

def Tag.named (address : List Char) : Tag :=
  match after? tagStart address with
  | some name => (tagNames.lookup (String.ofList name)).getD .other
  | none => .other

namespace Implicit

open Pattern

/-- A sign or none. -/
def sign : Pattern := opt (oneOf "+-")

def digits (least most : Nat) : Pattern := many Char.isDigit least (some most)

/-- Digits and underscores, at least so many. -/
def grouped (least : Nat) : Pattern := many (fun c => c.isDigit || c = '_') least none

def number : Pattern := one Char.isDigit ++ grouped 0

def sixties : Pattern := plus (oneOf ":" ++ opt (one fun c => '0' ≤ c && c ≤ '5') ++ one Char.isDigit)

def exponent : Pattern := opt (oneOf "eE" ++ oneOf "+-" ++ many Char.isDigit 1 none)

def int : Pattern :=
  sign ++ firstOf [
    lit "0b" ++ many (fun c => c = '0' || c = '1' || c = '_') 1 none ++ textEnd,
    lit "0" ++ many (fun c => '0' ≤ c && c ≤ '7' || c = '_') 1 none ++ textEnd,
    lit "0" ++ textEnd,
    one (fun c => '1' ≤ c && c ≤ '9') ++ grouped 0 ++ opt sixties ++ textEnd,
    lit "0x" ++ many (fun c => (hexDigit? c).isSome || c = '_') 1 none ++ textEnd]

def float : Pattern :=
  firstOf [
    sign ++ number ++ oneOf "." ++ grouped 0 ++ exponent ++ textEnd,
    oneOf "." ++ number ++ exponent ++ textEnd,
    sign ++ number ++ sixties ++ oneOf "." ++ grouped 0 ++ textEnd,
    sign ++ words [".inf", ".Inf", ".INF"] ++ textEnd,
    words [".nan", ".NaN", ".NAN"] ++ textEnd]

def blanks (least : Nat) : Pattern := many (fun c => c = ' ' || c = '\t') least none

def zone : Pattern :=
  opt (blanks 0 ++ alt (group 9 (oneOf "Z"))
    (group 10 (oneOf "+-") ++ group 11 (digits 1 2) ++ opt (oneOf ":" ++ group 12 (digits 2 2))))

def day (least : Nat) : Pattern :=
  group 1 (digits 4 4) ++ oneOf "-" ++ group 2 (digits least 2) ++ oneOf "-" ++ group 3 (digits least 2)

def timeOfDay : Pattern :=
  alt (oneOf "Tt") (blanks 1) ++ group 4 (digits 1 2) ++ oneOf ":" ++ group 5 (digits 2 2) ++
    oneOf ":" ++ group 6 (digits 2 2) ++ opt (oneOf "." ++ group 7 (many Char.isDigit 0 none)) ++ zone

def timestamp : Pattern :=
  firstOf [day 2 ++ textEnd, day 1 ++ timeOfDay ++ textEnd]

def taggedTimestamp : Pattern :=
  day 1 ++ opt timeOfDay ++ textEnd

def truths : List String :=
  ["yes", "Yes", "YES", "no", "No", "NO", "true", "True", "TRUE", "false", "False", "FALSE", "on", "On",
   "ON", "off", "Off", "OFF"]

end Implicit

def Tag.ofPlain (text : List Char) : Tag :=
  let word := String.ofList text
  let fits (p : Pattern) : Bool := (p.matchAt? [] text).isSome
  if Implicit.truths.contains word then .bool
  else if ["", "~", "null", "Null", "NULL"].contains word then .null
  else if word = "<<" then .merge
  else if word = "=" then .plainValue
  else if ["!", "&", "*"].contains word then .other
  else if fits Implicit.float then .float
  else if fits Implicit.int then .int
  else if fits Implicit.timestamp then .timestamp
  else .text

/-! ## Trees -/

/-- The state of the reading: the tokens that are left, the nodes with anchors, which are nothing while
they are read, and the handles of tags. -/
structure Reader where
  tokens : List Token
  anchors : List (List Char × Option Node) := []
  handles : List (List Char × List Char) := []

abbrev Read := StateT Reader (Except Fault)

/-- What a node says about itself before its content. -/
structure Said where
  anchor : Option (List Char) := none
  /-- The address of its tag. -/
  tag : Option (List Char) := none

def nextToken : Read (Option Token) :=
  return (← get).tokens.head?

def dropToken : Read Unit :=
  modify fun r => { r with tokens := r.tokens.tail }

/-- Reads an anchor, if there is one. -/
def readAnchorToken : Read (Option (List Char)) := do
  match ← nextToken with
  | some (.anchor name) => dropToken; return some name
  | _ => return none

/-- Reads a tag, if there is one. -/
def readTagToken : Read (Option (List Char)) := do
  match ← nextToken with
  | some (.tag none suffix) => dropToken; return some suffix
  | some (.tag (some handle) suffix) =>
    match (← get).handles.lookup handle with
    | some start => dropToken; return some (start ++ suffix)
    | none => throw .form
  | _ => return none

/-- Reads what a node says about itself, in either order. -/
def readSaid : Read Said := do
  match ← readAnchorToken with
  | some name => return ⟨some name, ← readTagToken⟩
  | none =>
    match ← readTagToken with
    | some tag => return ⟨← readAnchorToken, some tag⟩
    | none => return {}

/-- The tag said of a node; a lone mark says nothing. -/
def Said.tag? (s : Said) : Option Tag :=
  s.tag.bind fun address => if address = ['!'] then none else some (.named address)

def Said.scalar (s : Said) (text : List Char) (plain : Bool) : Node :=
  .scalar (s.tag?.getD (if plain || s.tag.isSome then .ofPlain text else .text)) text

/-- The node of nothing. -/
def emptyNode : Node := .scalar .null []

/-- Begins a node with an anchor. Each anchor is used once. -/
def beginAnchor (s : Said) : Read Unit := do
  match s.anchor with
  | none => return
  | some name =>
    let r ← get
    if (r.anchors.lookup name).isSome then throw .form
    set { r with anchors := (name, none) :: r.anchors }

def endAnchor (s : Said) (n : Node) : Read Node := do
  match s.anchor with
  | none => return n
  | some name =>
    modify fun r => { r with anchors := (name, some n) :: r.anchors }
    return n

/-- Whether an entry of a mapping or a list has nothing before what comes next. -/
def endsItem (inSequence : Bool) : Option Token → Bool
  | some .blockEnd => true
  | some .blockEntry => inSequence
  | some .key | some .value => !inSequence
  | _ => false

/-- Whether an entry of a list without a block of its own has nothing before what comes next. -/
def endsLooseItem : Option Token → Bool
  | some .blockEntry | some .key | some .value | some .blockEnd => true
  | _ => false

/-- Whether an entry in brackets has nothing before what comes next. -/
def endsFlowItem (close : Option Token → Bool) : Option Token → Bool
  | some .flowEntry => true
  | t => close t

def isSequenceEnd : Option Token → Bool
  | some .flowSequenceEnd => true
  | _ => false

def isMappingEnd : Option Token → Bool
  | some .flowMappingEnd => true
  | _ => false

/-- Reads the comma between entries, which is not there before the first one. -/
def readComma : Bool → Read Unit
  | true => return
  | false => do
    match ← nextToken with
    | some .flowEntry => dropToken
    | _ => throw .form

mutual

/-- Reads a node. In a block it may be a block, and as a part of a mapping a list whose entries are not
indented. -/
def readNode : Nat → Bool → Bool → Read Node
  | 0, _, _ => throw .form
  | fuel + 1, block, loose => do
    match ← nextToken with
    | some (.alias name) =>
      dropToken
      match (← get).anchors.lookup name with
      | some (some n) => return n
      | _ => throw .form
    | _ =>
      let said ← readSaid
      beginAnchor said
      let tagOr (t : Tag) : Tag := said.tag?.getD t
      match ← nextToken with
      | some (.scalar text plain) => dropToken; endAnchor said (said.scalar text plain)
      | some .flowSequence =>
        dropToken
        endAnchor said (.sequence (tagOr .sequence) (← readFlowSequence fuel true))
      | some .flowMapping =>
        dropToken
        endAnchor said (.mapping (tagOr .mapping) (← readFlowMapping fuel true))
      | some .blockEntry =>
        if loose then endAnchor said (.sequence (tagOr .sequence) (← readLooseSequence fuel))
        else if said.anchor.isSome || said.tag.isSome then endAnchor said (said.scalar [] true)
        else throw .form
      | some .blockSequence =>
        if block then
          dropToken
          endAnchor said (.sequence (tagOr .sequence) (← readBlockSequence fuel))
        else if said.anchor.isSome || said.tag.isSome then endAnchor said (said.scalar [] true)
        else throw .form
      | some .blockMapping =>
        if block then
          dropToken
          endAnchor said (.mapping (tagOr .mapping) (← readBlockMapping fuel))
        else if said.anchor.isSome || said.tag.isSome then endAnchor said (said.scalar [] true)
        else throw .form
      | _ =>
        if said.anchor.isSome || said.tag.isSome then endAnchor said (said.scalar [] true)
        else throw .form

def readBlockSequence : Nat → Read (List Node)
  | 0 => throw .form
  | fuel + 1 => do
    match ← nextToken with
    | some .blockEntry =>
      dropToken
      let n ← if endsItem true (← nextToken) then pure emptyNode else readNode fuel true false
      return n :: (← readBlockSequence fuel)
    | some .blockEnd => dropToken; return []
    | _ => throw .form

def readLooseSequence : Nat → Read (List Node)
  | 0 => throw .form
  | fuel + 1 => do
    match ← nextToken with
    | some .blockEntry =>
      dropToken
      let n ← if endsLooseItem (← nextToken) then pure emptyNode else readNode fuel true false
      return n :: (← readLooseSequence fuel)
    | _ => return []

def readBlockMapping : Nat → Read (List (Node × Node))
  | 0 => throw .form
  | fuel + 1 => do
    match ← nextToken with
    | some .blockEnd => dropToken; return []
    | some .key =>
      dropToken
      let k ← if endsItem false (← nextToken) then pure emptyNode else readNode fuel true true
      let v ← readBlockValue fuel
      return (k, v) :: (← readBlockMapping fuel)
    | _ => throw .form

def readBlockValue : Nat → Read Node
  | 0 => throw .form
  | fuel + 1 => do
    match ← nextToken with
    | some .value =>
      dropToken
      if endsItem false (← nextToken) then return emptyNode else readNode fuel true true
    | _ => return emptyNode

def readFlowSequence : Nat → Bool → Read (List Node)
  | 0, _ => throw .form
  | fuel + 1, first => do
    if isSequenceEnd (← nextToken) then
      dropToken
      return []
    readComma first
    match ← nextToken with
    | some .flowSequenceEnd => dropToken; return []
    | some .key =>
      dropToken
      let k ← readFlowKey fuel isSequenceEnd
      let v ← readFlowValue fuel isSequenceEnd
      return .mapping .mapping [(k, v)] :: (← readFlowSequence fuel false)
    | _ =>
      let n ← readNode fuel false false
      return n :: (← readFlowSequence fuel false)

def readFlowMapping : Nat → Bool → Read (List (Node × Node))
  | 0, _ => throw .form
  | fuel + 1, first => do
    if isMappingEnd (← nextToken) then
      dropToken
      return []
    readComma first
    match ← nextToken with
    | some .flowMappingEnd => dropToken; return []
    | some .key =>
      dropToken
      let k ← readFlowKey fuel isMappingEnd
      let v ← readFlowValue fuel isMappingEnd
      return (k, v) :: (← readFlowMapping fuel false)
    | _ =>
      let k ← readNode fuel false false
      return (k, emptyNode) :: (← readFlowMapping fuel false)

def readFlowKey : Nat → (Option Token → Bool) → Read Node
  | 0, _ => throw .form
  | fuel + 1, close => do
    match ← nextToken with
    | some .value => return emptyNode
    | t => if endsFlowItem close t then return emptyNode else readNode fuel false false

def readFlowValue : Nat → (Option Token → Bool) → Read Node
  | 0, _ => throw .form
  | fuel + 1, close => do
    match ← nextToken with
    | some .value =>
      dropToken
      if endsFlowItem close (← nextToken) then return emptyNode else readNode fuel false false
    | _ => return emptyNode

end

/-! ## Documents -/

def standardHandles : List (List Char × List Char) :=
  [(['!'], ['!']), (['!', '!'], tagStart)]

/-- Reads the directives before a document: at most one version, and each handle once. -/
def readDirectives : List Token → Bool → List (List Char × List Char) →
    Except Fault (List (List Char × List Char) × List Token)
  | .directive d :: ts, versioned, handles =>
    match d with
    | .version major =>
      if versioned || major ≠ 1 then .error .form else readDirectives ts true handles
    | .tag handle start =>
      if (handles.lookup handle).isSome then .error .form
      else readDirectives ts versioned ((handle, start) :: handles)
    | .other => readDirectives ts versioned handles
  | ts, _, handles => .ok (handles, ts)

/-- Whether a document has nothing before what comes next. -/
def endsDocument : List Token → Bool
  | [] | .directive _ :: _ | .documentStart :: _ | .documentEnd :: _ => true
  | _ => false

def checkEnd : List Token → Except Fault Unit
  | [] => .ok ()
  | .documentEnd :: ts => checkEnd ts
  | _ => .error .form

/-- The node of the only document of a text, if it has one. -/
def document? (text : List Char) : Except Fault (Option Node) := do
  let ts ← tokens text
  let fuel := 8 * ts.length + 8
  let explicit := match ts with
    | .directive _ :: _ | .documentStart :: _ => true
    | _ => false
  if ts.isEmpty then return none
  let (handles, ts) ← if explicit then
      match ← readDirectives ts false [] with
      | (handles, .documentStart :: ts) => pure (handles, ts)
      | _ => throw .form
    else pure ([], ts)
  if explicit && endsDocument ts then
    checkEnd ts
    return some emptyNode
  let (n, r) ← (readNode fuel true false).run { tokens := ts, handles := handles ++ standardHandles }
  checkEnd r.tokens
  return some n

end Marginalia.Yaml
