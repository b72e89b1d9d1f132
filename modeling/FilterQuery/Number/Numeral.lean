import FilterQuery.Text
import FilterQuery.Number.Binary64
set_option autoImplicit false

/-!
Reading numbers: signed integers of 64 bits, and decimals with an optional fraction and exponent.
-/

namespace FilterQuery

def readInt64 (t : Text) : Option Int64 :=
  match t.toInt? with
  | some n => if Int64.minValue.toInt ≤ n ∧ n ≤ Int64.maxValue.toInt then some (Int64.ofInt n) else none
  | none => none

namespace Numeral

/-- The exponent part of a decimal: absent, or `e` with an optional sign and digits. -/
def readExponent : Text → Option Int
  | [] => some 0
  | c :: t => if c = 'e' ∨ c = 'E' then Text.toInt? t else none

def readUnsigned (negative : Bool) (t : Text) : Option Binary64 :=
  let whole := t.takeWhile Text.isDigit
  let rest := t.dropWhile Text.isDigit
  let (fraction, rest) := match rest with
    | '.' :: r => (r.takeWhile Text.isDigit, r.dropWhile Text.isDigit)
    | r => ([], r)
  if whole = [] ∧ fraction = [] then none
  else
    (readExponent rest).map fun e =>
      Binary64.ofDecimal negative (Nat.ofDigitChars 10 (whole ++ fraction) 0) (e - fraction.length)

def readWord (negative : Bool) (t : Text) : Option Binary64 :=
  let word := Text.lower t
  if word = "nan".toList then some .nan
  else if word = "inf".toList ∨ word = "infinity".toList then some (.infinite negative)
  else none

def readMagnitude (negative : Bool) (t : Text) : Option Binary64 :=
  (readWord negative t).or (readUnsigned negative t)

end Numeral

def readBinary64 : Text → Option Binary64
  | '-' :: t => Numeral.readMagnitude true t
  | '+' :: t => Numeral.readMagnitude false t
  | t => Numeral.readMagnitude false t

end FilterQuery
