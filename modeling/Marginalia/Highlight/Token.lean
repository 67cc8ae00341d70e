import Marginalia.Text.Chars

/-! # Tokens of highlighted code -/
namespace Marginalia.Highlight

/-- What a piece of code is, as far as its colour goes. -/
inductive Kind where
  | blank | markComment | lineComment | blockComment | interpreterLine
  | binary | octal | hexadecimal | integer | decimal
  | punctuation | operator | wordOperator
  | reserved | keyword | declaration | constant | builtin | exceptionName | otherName | name
  | singleQuoted | doubleQuoted | template | interpolation | regex
  | plain | unknown
deriving DecidableEq, Repr

/-- The style class of a kind; plain text has none. -/
def Kind.styleClass : Kind → String
  | blank => "w"
  | markComment => "c"
  | lineComment => "c1"
  | blockComment => "cm"
  | interpreterLine => "ch"
  | binary => "mb"
  | octal => "mo"
  | hexadecimal => "mh"
  | integer => "mi"
  | decimal => "mf"
  | punctuation => "p"
  | operator => "o"
  | wordOperator => "ow"
  | reserved => "kr"
  | keyword => "k"
  | declaration => "kd"
  | constant => "kc"
  | builtin => "nb"
  | exceptionName => "ne"
  | otherName => "nx"
  | name => "n"
  | singleQuoted => "s1"
  | doubleQuoted => "s2"
  | template => "sb"
  | interpolation => "si"
  | regex => "sr"
  | plain => ""
  | unknown => "err"

/-- A piece of code of one kind. -/
structure Token where
  kind : Kind
  text : List Char

def code (ts : List Token) : List Char :=
  ts.flatMap Token.text

end Marginalia.Highlight
