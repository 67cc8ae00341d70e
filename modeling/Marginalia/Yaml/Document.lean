import Marginalia.Yaml.Scalar

/-! # Option files as values

The value of the only document of a text. A mapping may take over the entries of others; its own come
after them and win, and of entries with one key the last wins.
-/
namespace Marginalia.Yaml

open Text

mutual

/-- The text of a scalar, or of the plain value of a mapping. -/
def scalarText : Node → Except Fault (List Char)
  | .scalar _ text => .ok text
  | .sequence _ _ => .error .form
  | .mapping _ entries => plainText entries

def plainText : List (Node × Node) → Except Fault (List Char)
  | [] => .error .form
  | (k, v) :: rest => if k.tag = .plainValue then scalarText v else plainText rest

end

/-- A mapping of entries, where the last of those with one key wins. -/
def collect (entries : List (Value × Value)) : List (Value × Value) :=
  entries.foldl (fun es (k, v) => Value.put k v es) []

mutual

def valueOf : Node → Except Fault Value
  | .scalar tag text => scalarOf tag text
  | .sequence tag items =>
    match tag with
    | .sequence => do return .list (← valuesOf items)
    | .orderedMap | .pairs => do return .list (← pairsOf items)
    | _ => .error .form
  | .mapping tag entries =>
    match tag with
    | .mapping => do
      let (taken, own) ← entriesOf entries
      return .map (collect (taken ++ own))
    | .set => do
      let (taken, own) ← entriesOf entries
      return .set ((collect (taken ++ own)).map (·.1))
    | .sequence | .orderedMap | .pairs => .error .form
    | tag => do scalarOf tag (← plainText entries)

def valuesOf : List Node → Except Fault (List Value)
  | [] => .ok []
  | n :: ns => do
    let v ← valueOf n
    return v :: (← valuesOf ns)

def pairsOf : List Node → Except Fault (List Value)
  | [] => .ok []
  | .mapping _ [(k, v)] :: ns => do
    let k ← valueOf k
    let v ← valueOf v
    return .tuple [k, v] :: (← pairsOf ns)
  | _ :: _ => .error .form

/-- The entries that a mapping takes over, and its own ones. -/
def entriesOf : List (Node × Node) → Except Fault (List (Value × Value) × List (Value × Value))
  | [] => .ok ([], [])
  | (k, v) :: rest =>
    match k.tag, v with
    | .merge, .mapping _ entries => do
      let (taken, own) ← entriesOf entries
      let (moreTaken, moreOwn) ← entriesOf rest
      return (taken ++ own ++ moreTaken, moreOwn)
    | .merge, .sequence _ items => do
      let taken ← mergedOf items
      let (moreTaken, moreOwn) ← entriesOf rest
      return (taken ++ moreTaken, moreOwn)
    | .merge, _ => .error .form
    | tag, v => do
      let key ← if tag = .plainValue then (do return .text (← scalarText k)) else valueOf k
      if !key.isKey then throw .form
      let value ← valueOf v
      let (taken, own) ← entriesOf rest
      return (taken, (key, value) :: own)

/-- The entries of mappings that are taken over together: the first mapping wins. -/
def mergedOf : List Node → Except Fault (List (Value × Value))
  | [] => .ok []
  | .mapping _ entries :: ns => do
    let (taken, own) ← entriesOf entries
    return (← mergedOf ns) ++ taken ++ own
  | _ :: _ => .error .form

end

/-- The value of a text: nothing when it holds no document. -/
def load (text : List Char) : Except Fault Value := do
  match ← document? text with
  | some n => valueOf n
  | none => return .null

end Marginalia.Yaml
