import Marginalia.Source
import Marginalia.Template.Parser
import Marginalia.Text.Case
import Marginalia.Text.Html

/-! # Filling templates

What a template sees are loose values, sources and their sections, and the function that gives links
between pages. A name nobody knows prints as nothing, but has no fields and cannot be called.

A run and a function print as one text here. A system prints where it keeps them, so that no two calls
need agree on a page that prints one. Of functions there is only the one for links: a template that draws
at random or that calls into the run is beyond what is modelled, and fails here.
-/
namespace Marginalia.Template

open Text

/-- A value inside a template. -/
inductive Item where
  | undefined
  | loose (v : Value)
  | list (xs : List Item)
  /-- A source, by its place among the sources. -/
  | source (i : Nat)
  | part (s : Section)
  /-- The function that gives links between pages. -/
  | destination
  /-- The state of a loop: the place of the round, from zero, and the number of rounds. -/
  | rounds (index count : Nat)
  /-- The run that fills the template. Nothing can be read from it here. -/
  | object

instance : Inhabited Item := ⟨.undefined⟩

/-- What a template sees. -/
structure Scope where
  vars : List (List Char × Item)
  sources : List Source
  /-- The link to a path below the output directory. -/
  link : List Char → List Char

def partShown (s : Section) : List Char :=
  let field (name : String) (v : List Char) := name.toList ++ '=' :: quoted v
  "Section(".toList ++ join [',', ' '] [field "docs_text" s.docs, field "code_text" s.code,
    field "docs_html" s.docsMarkup, field "code_html" s.codeMarkup] ++ [')']

def sourceShown (s : Source) : List Char :=
  let field (name : String) (v : List Char) := name.toList ++ '=' :: v
  "SourceEntry(".toList ++ join [',', ' '] [field "full_path" (quoted s.fullPath),
    field "name" (quoted s.name), field "relative_name" (quoted s.relativeName),
    field "output_path" (quoted s.outputPath), field "is_index" (Value.bool s.isIndex).shown,
    field "sections" ('[' :: join [',', ' '] (s.sections.map partShown) ++ [']'])] ++ [')']

mutual

def Item.shown (sources : List Source) : Item → List Char
  | .undefined => "Undefined".toList
  | .loose v => v.shown
  | .list xs => '[' :: join [',', ' '] (shownItems sources xs) ++ [']']
  | .source i => (sources[i]?.map sourceShown).getD []
  | .part s => partShown s
  | .rounds i n => "<LoopContext ".toList ++ natText (i + 1) ++ '/' :: natText n ++ ['>']
  | .destination | .object => "<object>".toList

def shownItems (sources : List Source) : List Item → List (List Char)
  | [] => []
  | x :: xs => x.shown sources :: shownItems sources xs

end

def Item.text (sources : List Source) : Item → List Char
  | undefined => []
  | loose v => v.toText
  | x => x.shown sources

def Item.truthy : Item → Bool
  | undefined => false
  | loose v => v.truthy
  | list xs => !xs.isEmpty
  | _ => true

def Item.items? : Item → Option (List Item)
  | undefined => some []
  | list xs => some xs
  | loose v => v.parts?.map (·.map .loose)
  | _ => none

def Item.length? (x : Item) : Option Nat :=
  x.items?.map List.length

def Item.attr (sc : Scope) (n : List Char) : Item → Except TemplateFault Item
  | undefined => .error .undefined
  | source i =>
    .ok <| match sc.sources[i]?, String.ofList n with
      | some s, "full_path" => .loose (.text s.fullPath)
      | some s, "name" => .loose (.text s.name)
      | some s, "relative_name" => .loose (.text s.relativeName)
      | some s, "output_path" => .loose (.text s.outputPath)
      | some s, "is_index" => .loose (.bool s.isIndex)
      | some s, "sections" => .list (s.sections.map .part)
      | _, _ => .undefined
  | part s =>
    .ok <| match String.ofList n with
      | "docs_text" => .loose (.text s.docs)
      | "code_text" => .loose (.text s.code)
      | "docs_html" => .loose (.text s.docsMarkup)
      | "code_html" => .loose (.text s.codeMarkup)
      | _ => .undefined
  | rounds i count =>
    let nat (k : Nat) : Item := .loose (.int k)
    .ok <| match String.ofList n with
      | "index" => nat (i + 1)
      | "index0" => nat i
      | "revindex" => nat (count - i)
      | "revindex0" => nat (count - i - 1)
      | "first" => .loose (.bool (i = 0))
      | "last" => .loose (.bool (i + 1 = count))
      | "length" => nat count
      | _ => .undefined
  | loose (.map es) => .ok (((Value.get? (.text n) es).map .loose).getD .undefined)
  | _ => .ok .undefined

def Item.item (sc : Scope) (i : Item) (x : Item) : Except TemplateFault Item :=
  match x, i with
  | .undefined, _ => .error .undefined
  | .loose (.map es), .loose k => .ok (((Value.get? k es).map .loose).getD .undefined)
  | x, .loose (.int k) =>
    .ok <| match x.items? with
      | some xs => (if k < 0 then xs[(xs.length + k).toNat]? else xs[k.toNat]?).getD .undefined
      | none => .undefined
  | x, .loose (.text n) => x.attr sc n
  | _, _ => .ok .undefined

mutual

def sameValue : Value → Value → Bool
  | .list xs, .list ys => sameValues xs ys
  | .tuple xs, .tuple ys => sameValues xs ys
  | .map xs, .map ys => xs.length = ys.length && sameEntries xs ys
  | a, b => Value.sameKey a b

def sameValues : List Value → List Value → Bool
  | [], [] => true
  | x :: xs, y :: ys => sameValue x y && sameValues xs ys
  | _, _ => false

def sameEntries : List (Value × Value) → List (Value × Value) → Bool
  | [], _ => true
  | (k, v) :: xs, ys => (match Value.get? k ys with
      | some w => sameValue v w
      | none => false) && sameEntries xs ys

end

/-- Whether two items are the same: sources and sections by what they are, not by what they hold. -/
def Item.same : Item → Item → Bool
  | undefined, undefined => true
  | loose a, loose b => sameValue a b
  | source i, source j => i = j
  | part s, part t => s = t
  | list [], list [] => true
  | _, _ => false

/-- Whether one value comes before another; some values have no order. -/
def before? (a b : Value) : Option Bool :=
  match a, b with
  | .text s, .text t => some (!FileTree.nameLe t s)
  | .int m, .int n => some (m < n)
  | a, b =>
    match a.number?, b.number? with
    | some x, some y => some (x < y)
    | _, _ => none

def compareItems (c : Comparison) (a b : Item) : Except TemplateFault Bool :=
  let order (f : Value → Value → Option Bool) : Except TemplateFault Bool :=
    match a, b with
    | .undefined, _ | _, .undefined => .error .undefined
    | .loose x, .loose y =>
      match f x y with
      | some r => .ok r
      | none => .error .type
    | _, _ => .error .type
  let member : Except TemplateFault Bool :=
    match a, b with
    | .loose (.text s), .loose (.text t) => .ok (contains s t)
    | a, b => match b.items? with
      | some xs => .ok (xs.any (·.same a))
      | none => .error .type
  match c with
  | .eq => .ok (a.same b)
  | .ne => .ok (!a.same b)
  | .lt => order before?
  | .gt => order fun x y => before? y x
  | .le => order fun x y => (before? y x).map (!·)
  | .ge => order fun x y => (before? x y).map (!·)
  | .isIn => member
  | .notIn => member.map (!·)

def operate (sources : List Source) (op : Operator) (a b : Item) : Except TemplateFault Item :=
  if op = .concat then .ok (.loose (.text (a.text sources ++ b.text sources)))
  else match a, b with
    | .undefined, _ | _, .undefined => .error .undefined
    | .loose (.int m), .loose (.int n) =>
      match op with
      | .add => .ok (.loose (.int (m + n)))
      | .sub => .ok (.loose (.int (m - n)))
      | .mul => .ok (.loose (.int (m * n)))
      | .floorDiv => if n = 0 then .error .type else .ok (.loose (.int (m.fdiv n)))
      | .mod => if n = 0 then .error .type else .ok (.loose (.int (m.fmod n)))
      | .power => if n < 0 then .error .type else .ok (.loose (.int (Int.pow m n.toNat)))
      | _ => .ok (.loose (.float (Float.ofInt m / Float.ofInt n)))
    | .loose (.text s), .loose (.text t) =>
      if op = .add then .ok (.loose (.text (s ++ t))) else .error .type
    | .list xs, .list ys => if op = .add then .ok (.list (xs ++ ys)) else .error .type
    | _, _ => .error .type

def applyFilter (sc : Scope) (n : List Char) (x : Item) (args : List Item) :
    Except TemplateFault Item :=
  let text := x.text sc.sources
  match String.ofList n, args with
  | "e", [] | "escape", [] => .ok (.loose (.text (escapeQuoted text)))
  | "length", [] | "count", [] =>
    match x.length? with
    | some k => .ok (.loose (.int k))
    | none => .error .type
  | "upper", [] => .ok (.loose (.text (upper text)))
  | "lower", [] => .ok (.loose (.text (lower text)))
  | "trim", [] => .ok (.loose (.text (strip text)))
  | "safe", [] | "string", [] => .ok (.loose (.text text))
  | "default", _ | "d", _ =>
    match x with
    | .undefined => .ok (args.headD (.loose (.text [])))
    | x => .ok (if (args[1]?.any Item.truthy) && !x.truthy then args.headD (.loose (.text [])) else x)
  | "first", [] | "last", [] =>
    match x.items? with
    | some xs => .ok ((if n = "first".toList then xs.head? else xs.getLast?).getD .undefined)
    | none => .error .type
  | "join", _ =>
    match x.items? with
    | some xs =>
      .ok (.loose (.text (join ((args.headD .undefined).text sc.sources) (xs.map (·.text sc.sources)))))
    | none => .error .type
  | _, _ => .error .type

def applyTest (n : List Char) (x : Item) (args : List Item) : Except TemplateFault Bool :=
  match String.ofList n, args with
  | "sameas", [y] => .ok (x.same y)
  | "defined", [] => .ok (!(x matches .undefined))
  | "undefined", [] => .ok (x matches .undefined)
  | "none", [] => .ok (x matches .loose .null)
  | "string", [] => .ok (x matches .loose (.text _))
  | "number", [] => .ok (x matches .loose (.int _) || x matches .loose (.float _) ||
      x matches .loose (.bool _))
  | "boolean", [] => .ok (x matches .loose (.bool _))
  | "true", [] => .ok (x matches .loose (.bool true))
  | "false", [] => .ok (x matches .loose (.bool false))
  | _, _ => .error .type

/-- A call of an item. Only the link function can be called, with a source or a path. -/
def applyCall (sc : Scope) (f : Item) (args : List Item) : Except TemplateFault Item :=
  match f, args with
  | .undefined, _ => .error .undefined
  | .destination, [.source i] =>
    .ok (.loose (.text (sc.link ((sc.sources[i]?.map (·.outputPath)).getD []))))
  | .destination, [.loose (.text s)] => .ok (.loose (.text (sc.link s)))
  | _, _ => .error .type

mutual

/-- The item of an expression. -/
def eval (sc : Scope) : Expr → Except TemplateFault Item
  | .literal v => .ok (.loose v)
  | .name n => .ok ((sc.vars.lookup n).getD .undefined)
  | .attr e n => do (← eval sc e).attr sc n
  | .item e i => do (← eval sc e).item sc (← eval sc i)
  | .call e args named => do
    let f ← eval sc e
    let args ← evalAll sc args
    let named ← evalNamed sc named
    match args, named with
    | [], [(n, x)] => if n = "target".toList then applyCall sc f [x] else applyCall sc f []
    | args, [] => applyCall sc f args
    | _, _ => .error .type
  | .filter e n args => do applyFilter sc n (← eval sc e) (← evalAll sc args)
  | .test e n args => do
    return .loose (.bool (← applyTest n (← eval sc e) (← evalAll sc args)))
  | .not e => do return .loose (.bool !(← eval sc e).truthy)
  | .negate e => do
    match ← eval sc e with
    | .loose (.int n) => return .loose (.int (-n))
    | .loose (.float x) => return .loose (.float (-x))
    | .undefined => throw .undefined
    | _ => throw .type
  | .and a b => do
    let x ← eval sc a
    if x.truthy then eval sc b else return x
  | .or a b => do
    let x ← eval sc a
    if x.truthy then return x else eval sc b
  | .binary op a b => do operate sc.sources op (← eval sc a) (← eval sc b)
  | .compare c a b => do return .loose (.bool (← compareItems c (← eval sc a) (← eval sc b)))
  | .choose a c b => do
    if (← eval sc c).truthy then eval sc a
    else match b with
      | some b => eval sc b
      | none => return .undefined
  | .list es => do return .list (← evalAll sc es)

def evalAll (sc : Scope) : List Expr → Except TemplateFault (List Item)
  | [] => .ok []
  | e :: es => do
    let x ← eval sc e
    return x :: (← evalAll sc es)

def evalNamed (sc : Scope) : List (List Char × Expr) → Except TemplateFault (List (List Char × Item))
  | [] => .ok []
  | (n, e) :: es => do
    let x ← eval sc e
    return (n, x) :: (← evalNamed sc es)

end

def bindTargets (targets : List (List Char)) (x : Item) : Except TemplateFault (List (List Char × Item)) :=
  match targets with
  | [n] => .ok [(n, x)]
  | ns =>
    match x.items? with
    | some xs => if xs.length = ns.length then .ok (ns.zip xs) else .error .type
    | none => .error .type

mutual

/-- Fills a part; `load` gives included templates filled. What a part assigns is seen by the next. -/
def renderNode (load : Scope → Item → Bool → Except TemplateFault (List Char)) (sc : Scope) :
    Node → Except TemplateFault (List Char × Scope)
  | .text s => .ok (s, sc)
  | .print e => do return ((← eval sc e).text sc.sources, sc)
  | .branch c body otherwise => do
    let holds ← match c with
      | some c => do pure (← eval sc c).truthy
      | none => pure true
    if holds then renderNodes load sc body else renderNodes load sc otherwise
  | .loop targets items body otherwise => do
    match (← eval sc items).items? with
    | none => throw .type
    | some [] => return ((← renderNodes load sc otherwise).1, sc)
    | some xs =>
      let rounds ← xs.zipIdx.mapM fun (x, i) => do
        let bound ← bindTargets targets x
        let state : List Char × Item := ("loop".toList, .rounds i xs.length)
        return (← renderNodes load { sc with vars := bound ++ state :: sc.vars } body).1
      return (rounds.flatten, sc)
  | .assign n e => do
    let x ← eval sc e
    return ([], { sc with vars := (n, x) :: sc.vars })
  | .includes e ignore => do
    return (← load sc (← eval sc e) ignore, sc)

/-- Fills parts in order. -/
def renderNodes (load : Scope → Item → Bool → Except TemplateFault (List Char)) (sc : Scope) :
    List Node → Except TemplateFault (List Char × Scope)
  | [] => .ok ([], sc)
  | n :: ns => do
    let (s, sc) ← renderNode load sc n
    let (rest, sc) ← renderNodes load sc ns
    return (s ++ rest, sc)

end

/-- The path of a template with a name in a directory of templates. -/
def pathIn (dir name : List Char) : List Char :=
  ((slashParts name).filter fun p => p ≠ [] && p ≠ here).foldl Path.joined dir

def sourceOf (t : FileTree) (dir name : List Char) : Except TemplateFault (List Char) :=
  if (slashParts name).contains up then .error (.outside name)
  else
    let path := pathIn dir name
    if t.isFile path then
      match t.read path with
      | .ok content =>
        match decodeStrict? content with
        | some s => .ok s
        | none => .error .notText
      | .error _ => .error (.missing name dir)
    else .error (.missing name dir)

/-- Fills an included template, so many deep; `source` gives the text of a template. -/
def renderIncluded (source : List Char → Except TemplateFault (List Char)) :
    Nat → Scope → Item → Bool → Except TemplateFault (List Char)
  | 0, _, _, _ => .error .tooDeep
  | depth + 1, sc, x, ignore =>
    match x with
    | .loose (.text name) =>
      match source name with
      | .error fault => if ignore && fault.isMissing then .ok [] else .error fault
      | .ok text => do
        let nodes ← parse text
        return (← renderNodes (renderIncluded source depth) sc nodes).1
    | .undefined => .error .undefined
    | _ => .error .type

def maxIncludes : Nat := 150

/-- A template that was read, with the directory it includes from. -/
structure Loaded where
  nodes : List Node
  dir : List Char

/-- Fills a template. -/
def Loaded.render (tpl : Loaded) (t : FileTree) (sc : Scope) : Except TemplateFault (List Char) := do
  return (← renderNodes (renderIncluded (sourceOf t tpl.dir) maxIncludes) sc tpl.nodes).1

end Marginalia.Template
