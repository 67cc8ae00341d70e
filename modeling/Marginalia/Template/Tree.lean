import Marginalia.Failure

/-! # Templates

A template is text with expressions to print, conditions, loops and other templates to include. -/
namespace Marginalia.Template

/-- An operation on two values. -/
inductive Operator where
  | add | sub | mul | div | floorDiv | mod | power | concat
deriving DecidableEq

/-- A comparison of two values. -/
inductive Comparison where
  | eq | ne | lt | le | gt | ge | isIn | notIn
deriving DecidableEq

inductive Expr where
  | literal (v : Value)
  | name (n : List Char)
  | attr (e : Expr) (n : List Char)
  | item (e i : Expr)
  /-- A call with arguments in order and by name. -/
  | call (e : Expr) (args : List Expr) (named : List (List Char × Expr))
  | filter (e : Expr) (n : List Char) (args : List Expr)
  | test (e : Expr) (n : List Char) (args : List Expr)
  | not (e : Expr)
  | negate (e : Expr)
  | and (a b : Expr)
  | or (a b : Expr)
  | binary (op : Operator) (a b : Expr)
  | compare (c : Comparison) (a b : Expr)
  /-- The first value when the condition holds, else the second. -/
  | choose (a c : Expr) (b : Option Expr)
  | list (es : List Expr)

inductive Node where
  | text (s : List Char)
  | print (e : Expr)
  /-- The first branch whose condition holds; without a condition it always does. -/
  | branch (c : Option Expr) (body : List Node) (otherwise : List Node)
  | loop (targets : List (List Char)) (items : Expr) (body : List Node) (otherwise : List Node)
  | assign (n : List Char) (e : Expr)
  | includes (e : Expr) (ignoreMissing : Bool)

end Marginalia.Template
