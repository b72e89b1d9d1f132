import FilterQuery.Text
set_option autoImplicit false

/-!
Instants of the Gregorian calendar extended to all years, and how they are written. A leap second
is kept as the last second of its minute with a fraction of one second or more.
-/

namespace FilterQuery

structure Date where
  year : Int
  month : Nat
  day : Nat
  deriving DecidableEq, Repr

namespace Date

def isLeapYear (y : Int) : Bool := y % 4 = 0 && (y % 100 ≠ 0 || y % 400 = 0)

def daysInMonth (y : Int) (m : Nat) : Nat :=
  if m = 2 then (if isLeapYear y then 29 else 28)
  else if m = 4 ∨ m = 6 ∨ m = 9 ∨ m = 11 then 30
  else 31

def yearInRange (y : Int) : Bool := -262143 ≤ y && y ≤ 262142

def isValid (d : Date) : Bool :=
  yearInRange d.year && 1 ≤ d.month && d.month ≤ 12 && 1 ≤ d.day &&
    d.day ≤ daysInMonth d.year d.month

/-- Days since 1970-01-01. Years are counted from March, so that the leap day ends its year. -/
def toDays (d : Date) : Int :=
  let y : Int := if d.month ≤ 2 then d.year - 1 else d.year
  let m : Nat := if d.month ≤ 2 then d.month + 9 else d.month - 3
  let dayOfYear : Int := ((153 * m + 2) / 5 + (d.day - 1) : Nat)
  365 * y + y / 4 - y / 100 + y / 400 + dayOfYear - 719468

def ofDays (n : Int) : Date :=
  let z := n + 719468
  let era := z / 146097
  let e := (z % 146097).toNat
  let yearOfEra := (e - e / 1460 + e / 36524 - e / 146096) / 365
  let dayOfYear := e - (365 * yearOfEra + yearOfEra / 4 - yearOfEra / 100)
  let mp := (5 * dayOfYear + 2) / 153
  let day := dayOfYear - (153 * mp + 2) / 5 + 1
  let month := if mp < 10 then mp + 3 else mp - 9
  let year : Int := yearOfEra + era * 400
  ⟨if month ≤ 2 then year + 1 else year, month, day⟩

end Date

/-- Seconds since 1970-01-01T00:00:00Z and nanoseconds after them; one second or more of these
marks a leap second. -/
structure Timestamp where
  seconds : Int
  nanos : Nat
  deriving DecidableEq, Repr

namespace Timestamp

/-- The instant at a day and a time of day. Second 60 is a leap second. -/
def ofCivil (d : Date) (hour minute second nanos : Nat) : Timestamp :=
  let whole := if second = 60 then 59 else second
  ⟨d.toDays * 86400 + (hour * 3600 + minute * 60 + whole : Nat),
    if second = 60 then nanos + 1000000000 else nanos⟩

def date (t : Timestamp) : Date := Date.ofDays (t.seconds / 86400)

def secondOfDay (t : Timestamp) : Nat := (t.seconds % 86400).toNat

def hour (t : Timestamp) : Nat := t.secondOfDay / 3600

def minute (t : Timestamp) : Nat := t.secondOfDay / 60 % 60

def second (t : Timestamp) : Nat := t.secondOfDay % 60 + t.nanos / 1000000000

/-- Years outside 0 to 9999 carry a sign. -/
def writeYear (y : Int) : Text :=
  if 0 ≤ y ∧ y ≤ 9999 then Text.padded 4 y.toNat
  else (if y < 0 then '-' else '+') :: Text.padded 4 y.natAbs

def writeDate (t : Timestamp) : Text :=
  let d := t.date
  writeYear d.year ++ '-' :: Text.padded 2 d.month ++ '-' :: Text.padded 2 d.day

/-- Zero, three, six or nine places, the fewest that lose nothing. -/
def writeFraction (t : Timestamp) : Text :=
  let n := t.nanos % 1000000000
  if n = 0 then []
  else if n % 1000000 = 0 then '.' :: Text.padded 3 (n / 1000000)
  else if n % 1000 = 0 then '.' :: Text.padded 6 (n / 1000)
  else '.' :: Text.padded 9 n

def writeTime (t : Timestamp) : Text :=
  Text.padded 2 t.hour ++ ':' :: Text.padded 2 t.minute ++ ':' :: Text.padded 2 t.second ++
    t.writeFraction

def writeWith (offset : Text) (t : Timestamp) : Text :=
  t.writeDate ++ 'T' :: t.writeTime ++ offset

def write (t : Timestamp) : Text := t.writeWith ['Z']

end Timestamp

end FilterQuery
