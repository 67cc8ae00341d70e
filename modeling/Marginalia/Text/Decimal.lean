import Marginalia.Text.Chars

/-! # Shortest decimals

A number is written with the fewest digits that read back to it, and of those the nearest; of two that
are equally near, the one that ends in an even digit. The search works on the exact value `m * 2 ^ q`:
for one, two, … seventeen digits it tests the two neighbours of the value on that decimal grid.
-/
namespace Marginalia.Text

def twos (n : Nat) : Nat :=
  Nat.pow 2 n

def tens (n : Nat) : Nat :=
  Nat.pow 10 n

/-- A positive finite number as an exact fraction, with the ends of the interval that rounds to it. -/
structure Exact where
  num : Nat
  low : Nat
  high : Nat
  den : Nat
  closed : Bool

/-- The exact value of a significand and a binary exponent; `wide` says that the gap below is half
the gap above. -/
def Exact.of (m : Nat) (q : Int) (wide : Bool) : Exact :=
  let up := (q - 2).toNat
  let down := (2 - q).toNat
  let scale := twos up
  ⟨4 * m * scale, (4 * m - if wide then 1 else 2) * scale, (4 * m + 2) * scale, twos down, m % 2 == 0⟩

/-- Whether the decimal `d * 10 ^ k` reads back to the value. -/
def Exact.accepts (x : Exact) (d : Nat) (k : Int) : Bool :=
  let left := d * tens k.toNat * x.den
  let scale := tens (-k).toNat
  if x.closed then x.low * scale ≤ left && left ≤ x.high * scale
  else x.low * scale < left && left < x.high * scale

/-- How far the decimal `d * 10 ^ k` lies from the value, on a scale of its own. -/
def Exact.distance (x : Exact) (d : Nat) (k : Int) : Nat :=
  let left := d * tens k.toNat * x.den
  let right := x.num * tens (-k).toNat
  (left - right) + (right - left)

def Exact.leadPower (x : Exact) : Int :=
  if x.den ≤ x.num then ((natText (x.num / x.den)).length : Int) - 1
  else
    let rec below : Nat → Nat → Int
      | 0, k => -(k : Int)
      | fuel + 1, k => if x.den ≤ x.num * tens k then -(k : Int) else below fuel (k + 1)
    below 400 1

/-- The nearer of two neighbours on a decimal grid, the lower of which is `d`; halfway between them, the
even one. -/
def Exact.nearer (x : Exact) (d : Nat) (k : Int) : Nat :=
  let below := x.distance d k
  let above := x.distance (d + 1) k
  if above < below || (above = below && d % 2 = 1) then d + 1 else d

/-- The digits and the power of ten of the last digit, tried with `n` digits and more. -/
def Exact.shortestFrom (x : Exact) (lead : Int) : Nat → Nat → Nat × Int
  | 0, n => (x.num * tens (-(lead - (n : Int) + 1)).toNat / (x.den * tens (lead - (n : Int) + 1).toNat),
      lead - n + 1)
  | fuel + 1, n =>
    let k := lead - (n : Int) + 1
    let d := x.num * tens (-k).toNat / (x.den * tens k.toNat)
    match x.accepts d k, x.accepts (d + 1) k with
    | true, true => (x.nearer d k, k)
    | true, false => (d, k)
    | false, true => (d + 1, k)
    | false, false => x.shortestFrom lead fuel (n + 1)

/-- The digits of the shortest decimal and the power of ten of its last digit. -/
def Exact.shortest (x : Exact) : Nat × Int :=
  x.shortestFrom x.leadPower 17 1

/-- Digits without the zeros at their end, and the power of ten of the last one kept. -/
def trimZeros (digits : List Char) (k : Int) : List Char × Int :=
  let kept := dropEndWhile (· = '0') digits
  (kept, k + (digits.length - kept.length : Nat))

/-- Decimals are written in place from `10 ^ -4` up to below `10 ^ 16`, always with a fraction, and
with a signed exponent of at least two digits outside. -/
def layoutDecimal (digits : List Char) (k : Int) : List Char :=
  let lead : Int := k + (digits.length : Int) - 1
  if -4 ≤ lead && lead < 16 then
    if 0 ≤ k then digits ++ List.replicate k.toNat '0' ++ ['.', '0']
    else if lead < 0 then ['0', '.'] ++ List.replicate (-lead - 1).toNat '0' ++ digits
    else
      let whole := (lead + 1).toNat
      digits.take whole ++ ['.'] ++ digits.drop whole
  else
    let mantissa := match digits with
      | [] => ['0']
      | [d] => [d]
      | d :: ds => d :: '.' :: ds
    let power := natText lead.natAbs
    mantissa ++ ['e', if lead < 0 then '-' else '+'] ++
      (if power.length < 2 then '0' :: power else power)

/-- The text of a number in double precision. -/
def floatText (x : Float) : List Char :=
  let bits : Nat := x.toBits.toNat
  let sign : List Char := if bits ≥ twos 63 then ['-'] else []
  let fraction : Nat := bits % twos 52
  let exponent : Nat := bits / twos 52 % 2048
  if exponent = 2047 then
    if fraction = 0 then sign ++ ['i', 'n', 'f'] else ['n', 'a', 'n']
  else if exponent = 0 && fraction = 0 then sign ++ ['0', '.', '0']
  else
    let exact :=
      if exponent = 0 then Exact.of fraction (-1074) false
      else Exact.of (twos 52 + fraction) ((exponent : Int) - 1075) (fraction == 0 && exponent > 1)
    let (d, k) := exact.shortest
    let (digits, k) := trimZeros (natText d) k
    sign ++ layoutDecimal digits k

end Marginalia.Text
