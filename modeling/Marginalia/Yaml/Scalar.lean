import Marginalia.Text.Case
import Marginalia.Yaml.Node

/-! # Scalars as values

Numbers may hold underscores and be written in base two, eight, sixteen or sixty. In base ten and sixty
they must not be too long. Days must be days of the calendar.
-/
namespace Marginalia.Yaml

open Text

/-- The value of digits in a base; nothing when there are none or one is too large. -/
def digitsIn (base : Nat) (s : List Char) : Option Nat :=
  if s.isEmpty then none
  else s.foldl (fun n c => match n, hexDigit? c with
    | some n, some d => if d < base then some (n * base + d) else none
    | _, _ => none) (some 0)

/-- How many digits a number in base ten may have. -/
def maxDigits : Nat := 4300

/-- A number in base ten, blanks around it aside; nothing when it has too many digits. -/
def decimalIn (s : List Char) : Option Nat :=
  let s := strip s
  if maxDigits < s.length then none else digitsIn 10 s

/-- A text without its sign, and whether it was a minus. -/
def unsigned (s : List Char) : Bool × List Char :=
  match s with
  | '-' :: r => (true, r)
  | '+' :: r => (false, r)
  | s => (false, s)

def sixtyfold (parts : List Nat) : Nat :=
  parts.foldl (fun n d => n * 60 + d) 0

/-- The number of digits without a sign. -/
def natOf (s : List Char) : Option Nat :=
  match s with
  | ['0'] => some 0
  | '0' :: 'b' :: r => digitsIn 2 r
  | '0' :: 'x' :: r => digitsIn 16 r
  | '0' :: 'o' :: r | '0' :: r => digitsIn 8 r
  | s =>
    if s.contains ':' then ((s.splitOn ':').mapM decimalIn).map sixtyfold
    else decimalIn s

def intOf (text : List Char) : Except Fault Value :=
  match unsigned (text.filter (· ≠ '_')) with
  | (_, []) => .error (.scalar .empty)
  | (minus, s) =>
    match natOf s with
    | some n => .ok (.int (if minus then -(n : Int) else n))
    | none => .error (.scalar .number)

/-- How large an exponent may be; a larger one gives zero or no finite number anyway. -/
def maxExponent : Nat := 20000

/-- A decimal with an exponent, without a sign. -/
def decimalOf (s : List Char) : Option Float :=
  let whole := s.takeWhile Char.isDigit
  let (fraction, r) := match s.drop whole.length with
    | '.' :: r => (r.takeWhile Char.isDigit, r.dropWhile Char.isDigit)
    | r => ([], r)
  let digits := whole ++ fraction
  let exponent : Option Int := match r with
    | [] => some 0
    | 'e' :: r =>
      let (minus, r) := unsigned r
      (digitsIn 10 r).map fun n => let n := min n maxExponent; if minus then -(n : Int) else n
    | _ => none
  match digitsIn 10 digits, exponent with
  | some n, some e =>
    let e := e - fraction.length
    some (Float.ofScientific n (e < 0) e.natAbs)
  | _, _ => none

def floatOf (text : List Char) : Except Fault Value :=
  let infinity : Float := 1.0 / 0.0
  match unsigned (lower (text.filter (· ≠ '_'))) with
  | (_, []) => .error (.scalar .empty)
  | (minus, s) =>
    let number : Option Float :=
      if s = ".inf".toList then some infinity
      else if s = ".nan".toList then some (0.0 / 0.0)
      else if s.contains ':' then
        ((s.splitOn ':').mapM decimalOf).map fun ds =>
          (ds.reverse.foldl (fun (sum, base) d => (sum + d * base, base * 60.0)) (0.0, 1.0)).1
      else decimalOf (strip s)
    match number with
    | some x => .ok (.float (if minus then -x else x))
    | none => .error (.scalar .number)

def boolOf (text : List Char) : Except Fault Value :=
  let word := String.ofList (lower text)
  if ["yes", "true", "on"].contains word then .ok (.bool true)
  else if ["no", "false", "off"].contains word then .ok (.bool false)
  else .error (.scalar .truth)

def isLeap (year : Nat) : Bool :=
  year % 4 = 0 && year % 100 ≠ 0 || year % 400 = 0

def daysIn (year month : Nat) : Nat :=
  match month with
  | 2 => if isLeap year then 29 else 28
  | 4 | 6 | 9 | 11 => 30
  | _ => 31

def isDay (year month day : Nat) : Bool :=
  1 ≤ year && 1 ≤ month && month ≤ 12 && 1 ≤ day && day ≤ daysIn year month

/-- The zone of a time as it is written: nothing, or hours and minutes. Zones lie less than a day
apart. -/
def zoneText (m : Pattern.Match) : Option (List Char) :=
  let number (n : Nat) := (digitsIn 10 (m.group n)).getD 0
  match m.group 10 with
  | [] => some (if m.group 9 = [] then [] else "+00:00".toList)
  | s =>
    let minutes := number 11 * 60 + number 12
    let mark := if minutes = 0 then ['+'] else s
    if 24 * 60 ≤ minutes then none
    else some (mark ++ Value.padded 2 (minutes / 60) ++ ':' :: Value.padded 2 (minutes % 60))

def timeOf (text : List Char) : Except Fault Value :=
  match Implicit.taggedTimestamp.matchAt? [] text with
  | none => .error (.scalar .time)
  | some m =>
    let number (n : Nat) := (digitsIn 10 (m.group n)).getD 0
    let (year, month, day) := (number 1, number 2, number 3)
    if !isDay year month day then .error (.scalar .number)
    else if m.group 4 = [] then .ok (.date year month day)
    else
      let (hour, minute, second) := (number 4, number 5, number 6)
      let fraction := (m.group 7).take 6
      let fraction := fraction ++ List.replicate (6 - fraction.length) '0'
      match zoneText m with
      | none => .error (.scalar .number)
      | some zone =>
        if 24 ≤ hour || 60 ≤ minute || 60 ≤ second then .error (.scalar .number)
        else
          let time := join [':'] [Value.padded 2 hour, Value.padded 2 minute, Value.padded 2 second]
          let rest := if fraction.all (· = '0') then [] else '.' :: fraction
          .ok (.moment (Value.dateText year month day ++ ' ' :: time ++ rest ++ zone))

def sextet? (c : Char) : Option Nat :=
  if 'A' ≤ c && c ≤ 'Z' then some (c.toNat - 'A'.toNat)
  else if 'a' ≤ c && c ≤ 'z' then some (c.toNat - 'a'.toNat + 26)
  else if c.isDigit then some (c.toNat - '0'.toNat + 52)
  else if c = '+' then some 62
  else if c = '/' then some 63
  else none

def bytesOf : List Nat → Option (List UInt8)
  | a :: b :: c :: d :: r =>
    let n := ((a * 64 + b) * 64 + c) * 64 + d
    (bytesOf r).map ([(n / 65536).toUInt8, (n / 256 % 256).toUInt8, (n % 256).toUInt8] ++ ·)
  | [] => some []
  | _ => none

/-- Binary text: other characters do not count, and the end is filled up with marks. -/
def binaryOf (text : List Char) : Except Fault Value :=
  if text.any fun c => 128 ≤ c.toNat then .error .form
  else
    let data := (text.takeWhile (· ≠ '=')).filterMap sextet?
    let marks := (text.filter (· = '=')).length
    let fill := (4 - data.length % 4) % 4
    match bytesOf (data ++ List.replicate fill 0) with
    | some bytes =>
      if fill = 3 || marks < fill then .error .form
      else .ok (.bytes (bytes.take (bytes.length - fill)))
    | none => .error .form

def scalarOf (tag : Tag) (text : List Char) : Except Fault Value :=
  match tag with
  | .null => .ok .null
  | .bool => boolOf text
  | .int => intOf text
  | .float => floatOf text
  | .binary => binaryOf text
  | .timestamp => timeOf text
  | .text => .ok (.text text)
  | _ => .error .form

end Marginalia.Yaml
