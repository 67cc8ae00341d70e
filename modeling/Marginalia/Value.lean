import Marginalia.Text.Blank
import Marginalia.Text.Decimal
import Marginalia.Text.Quoted

/-! # Loose values

Options come from option files, from the command line or from a caller, and are not typed: a value is
whatever was given. This file says when a value counts as given, how it is written as text, and when
it can be read as a mapping.
-/
namespace Marginalia

open Text

/-- A value as it was given. -/
inductive Value where
  | null
  | bool (b : Bool)
  | int (n : Int)
  | float (x : Float)
  | text (s : List Char)
  | bytes (b : List UInt8)
  | date (year month day : Nat)
  /-- A day with a time, as it is written. -/
  | moment (written : List Char)
  | path (s : List Char)
  | list (xs : List Value)
  | tuple (xs : List Value)
  | set (xs : List Value)
  | map (entries : List (Value × Value))
deriving Inhabited

namespace Value

def ofString (s : String) : Value :=
  .text s.toList

/-- Whether a value counts as something: zero, nothing and what is empty do not. -/
def truthy : Value → Bool
  | null => false
  | bool b => b
  | int n => n ≠ 0
  | float x => x != 0.0
  | text s => !s.isEmpty
  | bytes b => !b.isEmpty
  | date .. | moment _ | path _ => true
  | list xs | tuple xs | set xs => !xs.isEmpty
  | map es => !es.isEmpty

def intText : Int → List Char
  | .ofNat n => natText n
  | .negSucc n => '-' :: natText (n + 1)

def padded (width n : Nat) : List Char :=
  let digits := natText n
  List.replicate (width - digits.length) '0' ++ digits

def dateText (year month day : Nat) : List Char :=
  padded 4 year ++ '-' :: padded 2 month ++ '-' :: padded 2 day

mutual

def shown : Value → List Char
  | null => "None".toList
  | bool true => "True".toList
  | bool false => "False".toList
  | int n => intText n
  | float x => floatText x
  | text s => quoted s
  | bytes b => quotedBytes ⟨b.toArray⟩
  | date y m d =>
    "datetime.date(".toList ++ join [',', ' '] [natText y, natText m, natText d] ++ [')']
  | moment w => w
  | path s => "PosixPath(".toList ++ quoted s ++ [')']
  | list xs => '[' :: join [',', ' '] (shownAll xs) ++ [']']
  | tuple [x] => '(' :: shown x ++ [',', ')']
  | tuple xs => '(' :: join [',', ' '] (shownAll xs) ++ [')']
  | set [] => "set()".toList
  | set xs => '{' :: join [',', ' '] (shownAll xs) ++ ['}']
  | map es => '{' :: join [',', ' '] (shownEntries es) ++ ['}']

/-- Each value of a list as it stands inside another value. -/
def shownAll : List Value → List (List Char)
  | [] => []
  | x :: xs => shown x :: shownAll xs

def shownEntries : List (Value × Value) → List (List Char)
  | [] => []
  | (k, v) :: es => (shown k ++ ':' :: ' ' :: shown v) :: shownEntries es

end

/-- The text of a value: a text is its own, a day is written in digits. -/
def toText : Value → List Char
  | text s | path s => s
  | date y m d => dateText y m d
  | v => shown v

/-- The number a value stands for as a key, where numbers and truth values meet. -/
def number? : Value → Option Float
  | bool b => some (if b then 1.0 else 0.0)
  | int n => some (Float.ofInt n)
  | float x => some x
  | _ => none

def isKey : Value → Bool
  | list _ | set _ | map _ => false
  | tuple xs => allKeys xs
  | _ => true
where
  /-- Whether every value of a list can be a key. -/
  allKeys : List Value → Bool
    | [] => true
    | x :: xs => isKey x && allKeys xs

mutual

/-- Whether two values are the same key. -/
def sameKey : Value → Value → Bool
  | null, null => true
  | text s, text t => s = t
  | bytes b, bytes c => b = c
  | date y m d, date y' m' d' => y = y' && m = m' && d = d'
  | moment w, moment w' => w = w'
  | path s, path t => s = t
  | int m, int n => m = n
  | tuple xs, tuple ys => sameKeys xs ys
  | v, w =>
    match number? v, number? w with
    | some x, some y => x == y
    | _, _ => false

/-- Whether two lists hold the same keys in order. -/
def sameKeys : List Value → List Value → Bool
  | [], [] => true
  | x :: xs, y :: ys => sameKey x y && sameKeys xs ys
  | _, _ => false

end

/-- Puts an entry into a mapping: a known key keeps its place and takes the new value. -/
def put (k v : Value) : List (Value × Value) → List (Value × Value)
  | [] => [(k, v)]
  | (k', v') :: es => if sameKey k k' then (k', v) :: es else (k', v') :: put k v es

def get? (k : Value) : List (Value × Value) → Option Value
  | [] => none
  | (k', v) :: es => if sameKey k k' then some v else get? k es

def field? (name : String) (es : List (Value × Value)) : Option Value :=
  get? (ofString name) es

/-- Why a text is no value of the kind it is said to be. -/
inductive ScalarFault where
  /-- It is no number, no character or no day of the calendar. -/
  | number
  /-- It is no truth value. -/
  | truth
  /-- It has not the shape of a time. -/
  | time
  /-- It is empty where a number belongs. -/
  | empty
deriving DecidableEq

/-- Why a value is no mapping. -/
inductive MapFault where
  /-- It, or a part of it, cannot be gone through, or a key is none. -/
  | type
  /-- A part of it is no pair. -/
  | size
deriving DecidableEq

def parts? : Value → Option (List Value)
  | text s => some (s.map fun c => .text [c])
  | bytes b => some (b.map fun x => .int x.toNat)
  | list xs | tuple xs | set xs => some xs
  | map es => some (es.map (·.1))
  | _ => none

def pair (v : Value) : Except MapFault (Value × Value) :=
  match v.parts? with
  | none => .error .type
  | some [k, x] => if k.isKey then .ok (k, x) else .error .type
  | some _ => .error .size

def ofPairs : List Value → List (Value × Value) → Except MapFault (List (Value × Value))
  | [], acc => .ok acc
  | v :: vs, acc => do
    let (k, x) ← v.pair
    ofPairs vs (put k x acc)

/-- A value read as a mapping: a mapping itself, or a sequence of pairs. -/
def toMap : Value → Except MapFault (List (Value × Value))
  | map es => .ok es
  | v =>
    match v.parts? with
    | some vs => ofPairs vs []
    | none => .error .type

end Value
end Marginalia
