import Marginalia.Template.Token
import Marginalia.Text.Utf8

/-! # Reading templates

Expressions are read by precedence, each level from the one below it; tags are matched with the tags
that end them.
-/
namespace Marginalia.Template

open Text

/-- Reading may find the template broken; a reader gives its result and the words that are left. -/
abbrev Parse := Except TemplateFault

def broken {α : Type} : Parse α :=
  .error .syntactic

def expect (sign : String) : List Token → Parse (List Token)
  | .sign s :: ts => if s = sign then .ok ts else broken
  | _ => broken

def comesWord (w : String) : List Token → Bool
  | .name n :: _ => n = w.toList
  | _ => false

def comesSign (w : String) : List Token → Bool
  | .sign s :: _ => s = w
  | _ => false

def filterNames : List String :=
  ["e", "escape", "length", "count", "upper", "lower", "trim", "safe", "string", "default", "d",
   "first", "last", "join"]

def testNames : List String :=
  ["sameas", "defined", "undefined", "none", "string", "number", "boolean", "true", "false"]

def nameExpr (n : List Char) : Expr :=
  match String.ofList n with
  | "true" | "True" => .literal (.bool true)
  | "false" | "False" => .literal (.bool false)
  | "none" | "None" => .literal .null
  | _ => .name n

def operatorOf (level : Nat) (s : String) : Option Operator :=
  match level, s with
  | 0, "+" => some .add
  | 0, "-" => some .sub
  | 1, "~" => some .concat
  | 2, "*" => some .mul
  | 2, "/" => some .div
  | 2, "//" => some .floorDiv
  | 2, "%" => some .mod
  | 3, "**" => some .power
  | _, _ => none

/-- The comparison that comes, if any, and the words after it. -/
def comparison? : List Token → Option (Comparison × List Token)
  | .sign s :: ts =>
    match s with
    | "==" => some (.eq, ts)
    | "!=" => some (.ne, ts)
    | "<" => some (.lt, ts)
    | "<=" => some (.le, ts)
    | ">" => some (.gt, ts)
    | ">=" => some (.ge, ts)
    | _ => none
  | .name a :: ts =>
    if a = "in".toList then some (.isIn, ts)
    else if a = "not".toList && comesWord "in" ts then some (.notIn, ts.drop 1)
    else none
  | _ => none

/-- Whether the argument of a test comes without brackets. -/
def comesArgument : List Token → Bool
  | .name n :: _ => !(["else", "or", "and", "is", "not", "if", "in"].contains (String.ofList n))
  | .text _ :: _ | .int _ :: _ | .float _ :: _ => true
  | .sign s :: _ => s = "["
  | [] => false

mutual

def readExpr : Nat → List Token → Parse (Expr × List Token)
  | 0, _ => broken
  | fuel + 1, ts => do
    let (a, ts) ← readOr fuel ts
    if comesWord "if" ts then
      let (c, ts) ← readOr fuel (ts.drop 1)
      if comesWord "else" ts then
        let (b, ts) ← readExpr fuel (ts.drop 1)
        return (.choose a c (some b), ts)
      return (.choose a c none, ts)
    return (a, ts)

def readOr : Nat → List Token → Parse (Expr × List Token)
  | 0, _ => broken
  | fuel + 1, ts => do
    let (a, ts) ← readAnd fuel ts
    if comesWord "or" ts then
      let (b, ts) ← readOr fuel (ts.drop 1)
      return (.or a b, ts)
    return (a, ts)

def readAnd : Nat → List Token → Parse (Expr × List Token)
  | 0, _ => broken
  | fuel + 1, ts => do
    let (a, ts) ← readNot fuel ts
    if comesWord "and" ts then
      let (b, ts) ← readAnd fuel (ts.drop 1)
      return (.and a b, ts)
    return (a, ts)

def readNot : Nat → List Token → Parse (Expr × List Token)
  | 0, _ => broken
  | fuel + 1, ts => do
    if comesWord "not" ts then
      let (a, ts) ← readNot fuel (ts.drop 1)
      return (.not a, ts)
    let (a, ts) ← readBinary fuel 0 ts
    readCompare fuel a ts

def readCompare : Nat → Expr → List Token → Parse (Expr × List Token)
  | 0, _, _ => broken
  | fuel + 1, a, ts => do
    match comparison? ts with
    | some (c, ts) =>
      let (b, ts) ← readBinary fuel 0 ts
      readCompare fuel (.compare c a b) ts
    | none => return (a, ts)

def readBinary : Nat → Nat → List Token → Parse (Expr × List Token)
  | 0, _, _ => broken
  | fuel + 1, level, ts => do
    let (a, ts) ← if level < 3 then readBinary fuel (level + 1) ts else readUnary fuel true ts
    readOperators fuel level a ts

def readOperators : Nat → Nat → Expr → List Token → Parse (Expr × List Token)
  | 0, _, _, _ => broken
  | fuel + 1, level, a, ts => do
    match ts with
    | .sign s :: rest =>
      match operatorOf level s with
      | some op =>
        let (b, ts) ← if level < 3 then readBinary fuel (level + 1) rest else readUnary fuel true rest
        readOperators fuel level (.binary op a b) ts
      | none => return (a, ts)
    | _ => return (a, ts)

/-- Reads a value with its sign, what is applied to it and its filters. -/
def readUnary : Nat → Bool → List Token → Parse (Expr × List Token)
  | 0, _, _ => broken
  | fuel + 1, filters, ts => do
    let (a, ts) ← match ts with
      | .sign "-" :: rest => do
        let (a, ts) ← readUnary fuel false rest
        pure (Expr.negate a, ts)
      | .sign "+" :: rest => readUnary fuel false rest
      | _ => readPrimary fuel ts
    let (a, ts) ← readPostfix fuel a ts
    if filters then readFilters fuel a ts else return (a, ts)

def readPrimary : Nat → List Token → Parse (Expr × List Token)
  | 0, _ => broken
  | fuel + 1, ts =>
    match ts with
    | .name n :: ts => .ok (nameExpr n, ts)
    | .text s :: .text t :: ts => readPrimary fuel (.text (s ++ t) :: ts)
    | .text s :: ts => .ok (.literal (.text s), ts)
    | .int n :: ts => .ok (.literal (.int n), ts)
    | .float x :: ts => .ok (.literal (.float x), ts)
    | .sign "(" :: ts => do
      if comesSign ")" ts then return (.literal (.tuple []), ts.drop 1)
      let (a, ts) ← readExpr fuel ts
      if comesSign "," ts then
        let (es, ts) ← readList fuel ")" (ts.drop 1)
        return (.list (a :: es), ts)
      return (a, ← expect ")" ts)
    | .sign "[" :: ts => do
      let (es, ts) ← readList fuel "]" ts
      return (.list es, ts)
    | _ => broken

def readList : Nat → String → List Token → Parse (List Expr × List Token)
  | 0, _, _ => broken
  | fuel + 1, close, ts => do
    if comesSign close ts then return ([], ts.drop 1)
    let (a, ts) ← readExpr fuel ts
    if comesSign "," ts then
      let (es, ts) ← readList fuel close (ts.drop 1)
      return (a :: es, ts)
    return ([a], ← expect close ts)

def readArgs : Nat → List Token → Parse ((List Expr × List (List Char × Expr)) × List Token)
  | 0, _ => broken
  | fuel + 1, ts => do
    if comesSign ")" ts then return (([], []), ts.drop 1)
    match ts with
    | .name n :: .sign "=" :: rest =>
      let (a, ts) ← readExpr fuel rest
      let ((args, named), ts) ← readMore fuel ts
      if args.isEmpty then return (([], (n, a) :: named), ts) else broken
    | _ =>
      let (a, ts) ← readExpr fuel ts
      let ((args, named), ts) ← readMore fuel ts
      return ((a :: args, named), ts)

def readMore : Nat → List Token → Parse ((List Expr × List (List Char × Expr)) × List Token)
  | 0, _ => broken
  | fuel + 1, ts => do
    if comesSign "," ts then readArgs fuel (ts.drop 1)
    else return (([], []), ← expect ")" ts)

def readPostfix : Nat → Expr → List Token → Parse (Expr × List Token)
  | 0, _, _ => broken
  | fuel + 1, a, ts =>
    match ts with
    | .sign "." :: .name n :: ts => readPostfix fuel (.attr a n) ts
    | .sign "." :: .int n :: ts => readPostfix fuel (.item a (.literal (.int n))) ts
    | .sign "." :: _ => broken
    | .sign "[" :: ts => do
      let (i, ts) ← readExpr fuel ts
      readPostfix fuel (.item a i) (← expect "]" ts)
    | .sign "(" :: ts => do
      let ((args, named), ts) ← readArgs fuel ts
      readPostfix fuel (.call a args named) ts
    | _ => .ok (a, ts)

def readFilters : Nat → Expr → List Token → Parse (Expr × List Token)
  | 0, _, _ => broken
  | fuel + 1, a, ts =>
    match ts with
    | .sign "|" :: .name n :: ts => do
      if !filterNames.contains (String.ofList n) then throw .unknownWord
      if comesSign "(" ts then
        let ((args, _), ts) ← readArgs fuel (ts.drop 1)
        readFilters fuel (.filter a n args) ts
      else readFilters fuel (.filter a n []) ts
    | .sign "|" :: _ => broken
    | .sign "(" :: ts => do
      let ((args, named), ts) ← readArgs fuel ts
      readFilters fuel (.call a args named) ts
    | .name w :: ts' =>
      if w = "is".toList then do
        let negated := comesWord "not" ts'
        let ts := if negated then ts'.drop 1 else ts'
        match ts with
        | .name n :: ts =>
          if !testNames.contains (String.ofList n) then throw .unknownWord
          let (args, ts) ←
            if comesSign "(" ts then do
              let ((args, _), ts) ← readArgs fuel (ts.drop 1)
              pure (args, ts)
            else if comesArgument ts then do
              let (arg, ts) ← readPrimary fuel ts
              let (arg, ts) ← readPostfix fuel arg ts
              pure ([arg], ts)
            else pure ([], ts)
          let t := Expr.test a n args
          readFilters fuel (if negated then .not t else t) ts
        | _ => broken
      else .ok (a, ts)
    | _ => .ok (a, ts)

end

def tokenFuel (ts : List Token) : Nat :=
  20 * ts.length + 40

def wholeExpr (ts : List Token) : Parse Expr := do
  let (e, rest) ← readExpr (tokenFuel ts) ts
  if rest.isEmpty then return e else broken

/-- Reads a printed expression; several between commas are a list. -/
def printedExpr (ts : List Token) : Parse Expr := do
  let (e, rest) ← readExpr (tokenFuel ts) ts
  if rest.isEmpty then return e
  let (es, rest) ← readList (tokenFuel ts) ")" ((← expect "," rest) ++ [.sign ")"])
  if rest.isEmpty then return .list (e :: es) else broken

/-- The names a loop gives values to, before the word `in`. -/
def loopTargets : List Token → Parse (List (List Char) × List Token)
  | .name n :: .sign "," :: ts => do
    let (ns, ts) ← loopTargets ts
    return (n :: ns, ts)
  | .name n :: .name w :: ts => if w = "in".toList then .ok ([n], ts) else broken
  | _ => broken

def tagWord : List Token → String
  | .name n :: _ => String.ofList n
  | _ => ""

/-- What ended a list of parts: nothing but the end of the template, or a tag. -/
abbrev Ended := Option (List Token)

mutual

def readNodes : Nat → List Piece → Parse (List Node × Ended × List Piece)
  | 0, _ => broken
  | _ + 1, [] => .ok ([], none, [])
  | fuel + 1, .text s :: ps => do
    let (ns, e, ps) ← readNodes fuel ps
    return (if s.isEmpty then ns else .text s :: ns, e, ps)
  | fuel + 1, .print ts :: ps => do
    let e ← printedExpr ts
    let (ns, ended, ps) ← readNodes fuel ps
    return (.print e :: ns, ended, ps)
  | fuel + 1, .tag ts :: ps => do
    match tagWord ts with
    | "if" =>
      let (n, ps) ← readBranch fuel (ts.drop 1) ps
      let (ns, e, ps) ← readNodes fuel ps
      return (n :: ns, e, ps)
    | "for" =>
      let (n, ps) ← readLoop fuel (ts.drop 1) ps
      let (ns, e, ps) ← readNodes fuel ps
      return (n :: ns, e, ps)
    | "include" =>
      let (e, rest) ← readExpr (tokenFuel ts) (ts.drop 1)
      let ignore := comesWord "ignore" rest && comesWord "missing" (rest.drop 1)
      let rest := if ignore then rest.drop 2 else rest
      let rest := if (comesWord "with" rest || comesWord "without" rest) &&
        comesWord "context" (rest.drop 1) then rest.drop 2 else rest
      if !rest.isEmpty then broken
      let (ns, ended, ps) ← readNodes fuel ps
      return (.includes e ignore :: ns, ended, ps)
    | "set" =>
      match ts.drop 1 with
      | .name n :: .sign "=" :: rest =>
        let e ← printedExpr rest
        let (ns, ended, ps) ← readNodes fuel ps
        return (.assign n e :: ns, ended, ps)
      | _ => broken
    | "elif" | "else" | "endif" | "endfor" => return ([], some ts, ps)
    | _ => broken

def readBranch : Nat → List Token → List Piece → Parse (Node × List Piece)
  | 0, _, _ => broken
  | fuel + 1, ts, ps => do
    let c ← wholeExpr ts
    let (body, e, ps) ← readNodes fuel ps
    match e with
    | none => broken
    | some tag =>
      match tagWord tag with
      | "elif" =>
        let (n, ps) ← readBranch fuel (tag.drop 1) ps
        return (.branch (some c) body [n], ps)
      | "else" =>
        if tag.length ≠ 1 then broken
        let (other, e, ps) ← readNodes fuel ps
        match e with
        | some [.name w] => if w = "endif".toList then return (.branch (some c) body other, ps) else broken
        | _ => broken
      | "endif" => if tag.length = 1 then return (.branch (some c) body [], ps) else broken
      | _ => broken

def readLoop : Nat → List Token → List Piece → Parse (Node × List Piece)
  | 0, _, _ => broken
  | fuel + 1, ts, ps => do
    let (targets, ts) ← loopTargets ts
    let items ← printedExpr ts
    let (body, e, ps) ← readNodes fuel ps
    match e with
    | some [.name w] =>
      if w = "endfor".toList then return (.loop targets items body [], ps)
      else if w = "else".toList then
        let (other, e, ps) ← readNodes fuel ps
        match e with
        | some [.name w] => if w = "endfor".toList then return (.loop targets items body other, ps) else broken
        | _ => broken
      else broken
    | _ => broken

end

/-- Reads a template. -/
def parse (source : List Char) : Parse (List Node) := do
  match pieces? (foldNewlines source) with
  | none => broken
  | some ps =>
    let (ns, e, _) ← readNodes (2 * ps.length + 2) ps
    if e.isSome then broken else return ns

end Marginalia.Template
