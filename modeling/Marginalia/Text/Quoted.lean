import Marginalia.Text.CharTable

/-! # Quoted text

How a name or a value is shown inside a message: in single quotes, or in double quotes when it has
a single quote and no double one; the quote, the backslash and what has no shape are escaped.
-/
namespace Marginalia.Text

def quoteFor (s : List Char) : Char :=
  if s.contains '\'' && !s.contains '"' then '"' else '\''

def quoteChar (quote c : Char) : List Char :=
  if c = quote || c = '\\' then ['\\', c]
  else if c = '\n' then ['\\', 'n']
  else if c = '\r' then ['\\', 'r']
  else if c = '\t' then ['\\', 't']
  else if isPrintable c then [c]
  else if c.toNat < 0x100 then '\\' :: 'x' :: hexText 2 c.toNat
  else if c.toNat < 0x10000 then '\\' :: 'u' :: hexText 4 c.toNat
  else '\\' :: 'U' :: hexText 8 c.toNat

def quoted (s : List Char) : List Char :=
  let quote := quoteFor s
  quote :: s.flatMap (quoteChar quote) ++ [quote]

def quotedBytes (b : ByteArray) : List Char :=
  let s := b.toList.map fun x => Char.ofNat x.toNat
  let quote := quoteFor s
  let show1 (c : Char) : List Char :=
    if c.toNat < 0x80 then quoteChar quote c else '\\' :: 'x' :: hexText 2 c.toNat
  'b' :: quote :: s.flatMap show1 ++ [quote]

end Marginalia.Text
