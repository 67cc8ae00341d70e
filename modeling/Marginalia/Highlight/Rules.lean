import Marginalia.Highlight.Token
import Marginalia.Pattern

/-! # The rules of script code

Each mode has a list of rules; the first rule whose pattern matches at the place in hand is taken.
-/
namespace Marginalia.Highlight

open Pattern

/-- What the lexer is inside of. -/
inductive Mode where
  /-- Code. -/
  | code
  /-- A place where a slash starts a regular expression. -/
  | operand
  /-- The line of a slash that starts none. -/
  | brokenRegex
  /-- The text of a template literal. -/
  | template
  /-- The code in a hole of a template literal. -/
  | hole
deriving DecidableEq

/-- How a rule changes the stack of modes. -/
inductive Move where
  | stay
  | push (m : Mode)
  | pop
  | swap (m : Mode)

structure Rule where
  pattern : Pattern
  kind : Kind
  move : Move

def blanks1 : Pattern :=
  many Text.isBlank 1 none

def commonRules : List Rule :=
  [⟨blanks1, .blank, .stay⟩,
   ⟨lit "<!--", .markComment, .stay⟩,
   ⟨lit "//" ++ few (fun _ => true) 0 ++ lineEnd, .lineComment, .stay⟩,
   ⟨lit "/*" ++ few (fun _ => true) 0 ++ lit "*/", .blockComment, .stay⟩]

def escapePair : Pattern :=
  lit "\\" ++ anyChar

/-- A regular expression between slashes, with its flags. -/
def regexLiteral : Pattern :=
  lit "/" ++
  plus (firstOf [escapePair, noneOf "[/\\\n",
    lit "[" ++ star (alt escapePair (noneOf "]\\\n")) ++ lit "]"]) ++
  lit "/" ++ alt (many "gimuysd".toList.contains 1 none ++ wordEdge) noWordEdge

def operandRules : List Rule :=
  commonRules ++
  [⟨regexLiteral, .regex, .pop⟩,
   ⟨ahead (lit "/"), .plain, .swap .brokenRegex⟩,
   ⟨empty, .plain, .pop⟩]

/-- Rules on the line of a slash that starts no regular expression. -/
def brokenRegexRules : List Rule :=
  [⟨lit "\n", .blank, .pop⟩]

def digitBelow (n : Nat) (c : Char) : Bool :=
  c.isDigit && c.toNat - '0'.toNat < n

/-- Digits, at least one. -/
def digits1 : Pattern :=
  many Char.isDigit 1 none

def bigMark : Pattern :=
  opt (lit "n")

/-- A number with a point or an exponent, or plain digits. -/
def decimalNumber : Pattern :=
  firstOf [lit "." ++ digits1, digits1 ++ lit "." ++ many Char.isDigit 0 none, digits1] ++
  opt (oneOf "eE" ++ opt (oneOf "-+") ++ digits1)

def operatorSign : Pattern :=
  firstOf
    [lit "++", lit "--", lit "~", lit "??" ++ opt (lit "="), lit "?", lit ":",
     lit "\\" ++ ahead (lit "\n"),
     firstOf [lit "<<", lit ">>" ++ opt (lit ">"), lit "=" ++ opt (lit "="),
       lit "!" ++ opt (lit "="), lit "**", lit "||", lit "&&", oneOf "-<>+*%&|^/"] ++ opt (lit "=")]

def nameEscape : Pattern :=
  lit "\\u" ++ many (fun c => (Text.hexDigit? c).isSome) 4 (some 4)

/-- A name: letters, `$`, `_` and escapes, then digits and marks too. -/
def nameText : Pattern :=
  alt (one fun c => c = '$' || c = '_' || Text.isLetter c) nameEscape ++
  star (alt (many (fun c => c = '$' || Text.isLetter c || Text.isNameMark c ||
    c.toNat = 0x200c || c.toNat = 0x200d) 1 none) nameEscape)

/-- A dotted name right before an empty parameter list and a body. -/
def methodName : Pattern :=
  one (fun c => c.isAlpha || "_?.$".toList.contains c) ++
  many (fun c => Text.isWordChar c || "?.$".toList.contains c) 0 none ++
  ahead (lit "() \x7b")

def quotedString (quote : Char) : Pattern :=
  one (· == quote) ++ many (fun c => c != quote && c != '\\') 0 none ++
  star (escapePair ++ many (fun c => c != quote && c != '\\') 0 none) ++ one (· == quote)

def wholeWord (ws : List String) : Pattern :=
  words ws ++ wordEdge

def codeRules : List Rule :=
  [⟨textStart ++ lit "#!" ++ opt (lit " ") ++ lit "/" ++ few (fun _ => true) 0 ++ lineEnd,
     .interpreterLine, .stay⟩,
   ⟨lineStart ++ ahead (firstOf [one Text.isBlank, lit "/", lit "<!--"]), .plain, .push .operand⟩] ++
  commonRules ++
  [⟨lit "0" ++ oneOf "bB" ++ many (digitBelow 2) 1 none ++ bigMark, .binary, .stay⟩,
   ⟨lit "0" ++ opt (oneOf "oO") ++ many (digitBelow 8) 1 none ++ bigMark, .octal, .stay⟩,
   ⟨lit "0" ++ oneOf "xX" ++ many (fun c => (Text.hexDigit? c).isSome) 1 none ++ bigMark,
     .hexadecimal, .stay⟩,
   ⟨digits1 ++ lit "n", .integer, .stay⟩,
   ⟨decimalNumber, .decimal, .stay⟩,
   ⟨alt (lit "...") (lit "=>"), .punctuation, .stay⟩,
   ⟨operatorSign, .operator, .push .operand⟩,
   ⟨oneOf "\x7b([;,", .punctuation, .push .operand⟩,
   ⟨oneOf "\x7d)].", .punctuation, .stay⟩,
   ⟨wholeWord ["typeof", "instanceof", "in", "void", "delete", "new"], .wordOperator,
     .push .operand⟩,
   ⟨wordEdge ++ wholeWord ["constructor", "from", "as"], .reserved, .stay⟩,
   ⟨wholeWord ["for", "in", "while", "do", "break", "return", "continue", "switch", "case",
      "default", "if", "else", "throw", "try", "catch", "finally", "yield", "await", "async", "this",
      "of", "static", "export", "import", "debugger", "extends", "super"], .keyword, .push .operand⟩,
   ⟨wholeWord ["var", "let", "const", "with", "function", "class"], .declaration, .push .operand⟩,
   ⟨wholeWord ["abstract", "boolean", "byte", "char", "double", "enum", "final", "float", "goto",
      "implements", "int", "interface", "long", "native", "package", "private", "protected",
      "public", "short", "synchronized", "throws", "transient", "volatile"], .reserved, .stay⟩,
   ⟨wholeWord ["true", "false", "null", "NaN", "Infinity", "undefined"], .constant, .stay⟩,
   ⟨wholeWord ["Array", "Boolean", "Date", "BigInt", "Function", "Math", "ArrayBuffer", "Number",
      "Object", "RegExp", "String", "Promise", "Proxy", "decodeURI", "decodeURIComponent",
      "encodeURI", "encodeURIComponent", "eval", "isFinite", "isNaN", "parseFloat", "parseInt",
      "DataView", "document", "window", "globalThis", "global", "arguments", "Symbol", "Intl",
      "WeakSet", "WeakMap", "Set", "Map", "Reflect", "JSON", "Atomics", "Int8Array", "Int16Array",
      "Int32Array", "BigInt64Array", "Float32Array", "Float64Array", "Uint8ClampedArray",
      "Uint8Array", "Uint16Array", "Uint32Array", "BigUint64Array"], .builtin, .stay⟩,
   ⟨opt (words ["Eval", "Internal", "Range", "Reference", "Type", "URI", "Syntax"]) ++
      lit "Error" ++ wordEdge, .exceptionName, .stay⟩,
   ⟨methodName, .otherName, .push .operand⟩,
   ⟨nameText, .otherName, .stay⟩,
   ⟨quotedString '"', .doubleQuoted, .stay⟩,
   ⟨quotedString '\'', .singleQuoted, .stay⟩,
   ⟨lit "`", .template, .push .template⟩,
   ⟨lit "#" ++ one (fun c => c.isAlpha || c = '_') ++ many Text.isWordChar 0 none, .name, .stay⟩]

def templateRules : List Rule :=
  [⟨lit "`", .template, .pop⟩,
   ⟨escapePair, .template, .stay⟩,
   ⟨lit "$\x7b", .interpolation, .push .hole⟩,
   ⟨lit "$", .template, .stay⟩,
   ⟨manyNoneOf "`\\$" 1, .template, .stay⟩]

def holeRules : List Rule :=
  ⟨lit "\x7d", .interpolation, .pop⟩ :: codeRules

def Mode.rules : Mode → List Rule
  | code => codeRules
  | operand => operandRules
  | brokenRegex => brokenRegexRules
  | template => templateRules
  | hole => holeRules

end Marginalia.Highlight
