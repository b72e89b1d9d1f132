set_option autoImplicit false

/-!
Binary floating-point numbers of 64 bits, as exact numbers: a finite one is a sign, a mantissa and
a power of two. `Binary64.ofRatio` rounds a quotient of natural numbers to the nearest of them, an
exact tie to the even mantissa.
-/

namespace FilterQuery

namespace Binary64

/-- The mantissas and exponents that stand for one number each. -/
def Canonical (mantissa : Nat) (exponent : Int) : Prop :=
  mantissa < Nat.pow 2 53 ∧ -1074 ≤ exponent ∧ exponent ≤ 971 ∧
    (exponent = -1074 ∨ Nat.pow 2 52 ≤ mantissa)

instance (m : Nat) (e : Int) : Decidable (Canonical m e) := by
  unfold Canonical; infer_instance

end Binary64

/-- The number `mantissa * 2 ^ exponent` with a sign, or no finite number. -/
inductive Binary64 where
  | nan
  | infinite (negative : Bool)
  | finite (negative : Bool) (mantissa : Nat) (exponent : Int)
      (canonical : Binary64.Canonical mantissa exponent)
  deriving DecidableEq

namespace Binary64

def zero (negative : Bool) : Binary64 := finite negative 0 (-1074) (by decide)

/-- The finite number with this mantissa and exponent, infinite when it is out of range. -/
def ofParts (negative : Bool) (mantissa : Nat) (exponent : Int) : Binary64 :=
  if h : Canonical mantissa exponent then finite negative mantissa exponent h
  else infinite negative

/-- The quotient rounded to the nearest natural number, a tie to the even one. -/
def roundQuotient (num den : Nat) : Nat :=
  let q := num / den
  let r := num % den
  if 2 * r < den then q
  else if den < 2 * r then q + 1
  else if q % 2 = 0 then q
  else q + 1

def scale (num den : Nat) (shift : Int) : Nat × Nat :=
  (num * Nat.pow 2 shift.toNat, den * Nat.pow 2 (-shift).toNat)

/-- The exponent at which the quotient of two positive numbers has 53 bits before the point, but
never one below the least exponent. -/
def unitExponent (num den : Nat) : Int :=
  let k : Int := num.log2 - den.log2
  let (n, d) := scale num den (-k)
  max (-1074) (if d ≤ n then k - 52 else k - 53)

def ofRatio (negative : Bool) (num den : Nat) : Binary64 :=
  if num = 0 then zero negative
  else
    let e := unitExponent num den
    let (n, d) := scale num den (-e)
    let m := roundQuotient n d
    if m = Nat.pow 2 53 then ofParts negative (Nat.pow 2 52) (e + 1) else ofParts negative m e

def ofDecimal (negative : Bool) (digits : Nat) (exponent : Int) : Binary64 :=
  let size : Int := (Nat.toDigits 10 digits).length + exponent
  if digits = 0 ∨ size < -400 then zero negative
  else if 400 < size then infinite negative
  else ofRatio negative (digits * Nat.pow 10 exponent.toNat) (Nat.pow 10 (-exponent).toNat)

def isFinite : Binary64 → Bool
  | finite .. => true
  | _ => false

def isZero : Binary64 → Bool
  | finite _ m _ _ => m == 0
  | _ => false

def negate : Binary64 → Binary64
  | nan => nan
  | infinite s => infinite (!s)
  | finite s m e h => finite (!s) m e h

def same (x y : Binary64) : Bool :=
  (x != nan) && (x == y || (x.isZero && y.isZero))

def mul : Binary64 → Binary64 → Binary64
  | finite s m e _, finite t n f _ =>
    let (num, den) := scale (m * n) 1 (e + f)
    ofRatio (s != t) num den
  | _, _ => nan

def div : Binary64 → Binary64 → Binary64
  | finite s m e _, finite t n f _ =>
    let (num, den) := scale m n (e - f)
    if n = 0 then nan else ofRatio (s != t) num den
  | _, _ => nan

end Binary64

end FilterQuery
