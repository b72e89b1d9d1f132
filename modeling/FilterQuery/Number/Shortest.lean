import FilterQuery.Text
import FilterQuery.Number.Binary64
set_option autoImplicit false

/-!
The shortest decimal that reads back as a given binary number, and the layouts in which it is
written. The grids of powers of ten are tried from coarse to fine; the first that holds a point of
the interval of reals rounding to the number wins, and of two such points the nearer.
-/

namespace FilterQuery

/-- Which of two equally near decimals is written. -/
inductive Tie where
  | even
  | up
  deriving DecidableEq, Repr

/-- The decimal `digits * 10 ^ exponent`. -/
structure Decimal where
  digits : Nat
  exponent : Int
  deriving DecidableEq, Repr

namespace Decimal

/-- The ends of the interval of reals that round to `mantissa * 2 ^ exponent`, in quarters of the
unit `2 ^ exponent`. -/
def lowEnd (mantissa : Nat) (exponent : Int) : Nat :=
  if mantissa = Nat.pow 2 52 ∧ exponent ≠ -1074 then 4 * mantissa - 1 else 4 * mantissa - 2

def highEnd (mantissa : Nat) : Nat := 4 * mantissa + 2

def step (exponent p : Int) : Nat × Nat :=
  (Nat.pow 10 p.toNat * Nat.pow 2 (2 - exponent).toNat,
    Nat.pow 10 (-p).toNat * Nat.pow 2 (exponent - 2).toNat)

/-- Whether a grid point reads back as the number; the ends count for an even mantissa. -/
def hits (mantissa : Nat) (exponent p : Int) (c : Nat) : Bool :=
  let (a, b) := step exponent p
  let low := lowEnd mantissa exponent * b
  let high := highEnd mantissa * b
  if mantissa % 2 = 0 then low ≤ c * a && c * a ≤ high else low < c * a && c * a < high

def onGrid? (tie : Tie) (mantissa : Nat) (exponent p : Int) : Option Decimal :=
  let (a, b) := step exponent p
  let v := 4 * mantissa * b
  let c := v / a
  match hits mantissa exponent p c, hits mantissa exponent p (c + 1) with
  | false, false => none
  | true, false => some ⟨c, p⟩
  | false, true => some ⟨c + 1, p⟩
  | true, true =>
    let twice := (2 * c + 1) * a
    if 2 * v < twice then some ⟨c, p⟩
    else if twice < 2 * v then some ⟨c + 1, p⟩
    else if tie = .even ∧ c % 2 = 0 then some ⟨c, p⟩
    else some ⟨c + 1, p⟩

def search (tie : Tie) (mantissa : Nat) (exponent : Int) : Nat → Int → Decimal
  | 0, p => ⟨0, p⟩
  | n + 1, p =>
    match onGrid? tie mantissa exponent p with
    | some d => d
    | none => search tie mantissa exponent n (p - 1)

def shortest (tie : Tie) (mantissa : Nat) (exponent : Int) : Decimal :=
  if mantissa = 0 then ⟨0, 0⟩
  else
    let top := ((mantissa.log2 + exponent + 1) * 30103) / 100000 + 1
    search tie mantissa exponent 24 top

def leading (d : Decimal) : Int := (Text.ofNat d.digits).length - 1 + d.exponent

def positional (d : Decimal) (fraction : Bool) : Text :=
  let digits := Text.ofNat d.digits
  if 0 ≤ d.exponent then
    digits ++ List.replicate d.exponent.toNat '0' ++ (if fraction then ['.', '0'] else [])
  else
    let places := (-d.exponent).toNat
    if digits.length ≤ places then
      ['0', '.'] ++ List.replicate (places - digits.length) '0' ++ digits
    else
      digits.take (digits.length - places) ++ '.' :: digits.drop (digits.length - places)

def scientific (d : Decimal) (plus : Bool) : Text :=
  let digits := Text.ofNat d.digits
  let tail := digits.drop 1
  digits.take 1 ++ (if tail = [] then [] else '.' :: tail) ++
    'e' :: (if plus ∧ 0 ≤ d.leading then ['+'] else []) ++ Text.ofInt d.leading

end Decimal

/-- How a binary number is written: which leading exponents are positional, whether an integral
value keeps a fraction, whether an exponent has a plus sign, the choice at a tie, and the words for
what is not finite. -/
structure FloatLayout where
  least : Int
  most : Int
  fraction : Bool
  plus : Bool
  tie : Tie
  nan : Text
  infinite : Text

def Binary64.write (layout : FloatLayout) : Binary64 → Text
  | .nan => layout.nan
  | .infinite s => (if s then ['-'] else []) ++ layout.infinite
  | .finite s m e _ =>
    let d := Decimal.shortest layout.tie m e
    let body :=
      if layout.least ≤ d.leading ∧ d.leading ≤ layout.most then d.positional layout.fraction
      else d.scientific layout.plus
    (if s then ['-'] else []) ++ body

end FilterQuery
