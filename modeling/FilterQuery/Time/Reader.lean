import FilterQuery.Time.Timestamp
set_option autoImplicit false

/-!
Reading instants. `Timestamp.readStrict` takes RFC 3339 text; `Timestamp.read` also takes a date
with or without a time of day; `Timestamp.readLoose` takes RFC 3339 text with signed years and
with white space between its parts.
-/

namespace FilterQuery

/-- The fields of an instant as they are read. -/
structure CivilFields where
  year : Int
  month : Nat
  day : Nat
  hour : Nat
  minute : Nat
  second : Nat
  nanos : Nat
  deriving DecidableEq, Repr

namespace CivilFields

/-- The instant at these fields, read at an offset of the given number of seconds from UTC. -/
def instant? (f : CivilFields) (offset : Int) : Option Timestamp :=
  let d : Date := ⟨f.year, f.month, f.day⟩
  if d.isValid ∧ f.hour ≤ 23 ∧ f.minute ≤ 59 ∧ f.second ≤ 60 ∧ -86400 < offset ∧ offset < 86400 then
    let t := Timestamp.ofCivil d f.hour f.minute f.second f.nanos
    let u : Timestamp := ⟨t.seconds - offset, t.nanos⟩
    if Date.yearInRange u.date.year then some u else none
  else none

end CivilFields

namespace TimeReader

def digits (least most : Nat) (t : Text) : Option (Nat × Text) :=
  let run := (t.take most).takeWhile Text.isDigit
  if least ≤ run.length ∧ run ≠ [] then some (Nat.ofDigitChars 10 run 0, t.drop run.length) else none

def char (c : Char) : Text → Option Text
  | d :: t => if d = c then some t else none
  | [] => none

/-- A run of digits behind a point, as nanoseconds; digits beyond the ninth are skipped. -/
def fraction : Text → Option (Nat × Text)
  | '.' :: t =>
    let run := t.takeWhile Text.isDigit
    if run = [] then none
    else
      let nine := run.take 9
      some (Nat.ofDigitChars 10 nine 0 * Nat.pow 10 (9 - nine.length), t.drop run.length)
  | t => some (0, t)

def twoDigits : Text → Option (Nat × Text)
  | a :: b :: t =>
    if Text.isDigit a ∧ Text.isDigit b then some (Nat.ofDigitChars 10 [a, b] 0, t) else none
  | _ => none

def offset (separator : Text → Option Text) : Text → Option (Int × Text)
  | [] => none
  | c :: t =>
    if c = 'Z' ∨ c = 'z' then some (0, t)
    else if c = '+' ∨ c = '-' ∨ c = '−' then do
      let (hours, t) ← twoDigits t
      let t ← separator t
      let (minutes, t) ← twoDigits t
      if minutes ≤ 59 then
        let n : Int := hours * 3600 + minutes * 60
        some (if c = '+' then n else -n, t)
      else none
    else none

/-- The fields of RFC 3339 text with nothing skipped: each has all its digits, and `T` or a space
stands between date and time. The offset and what follows it come along. -/
def rfc3339 (t : Text) : Option (CivilFields × Int × Text) := do
  let (year, t) ← digits 4 4 t
  let t ← char '-' t
  let (month, t) ← digits 2 2 t
  let t ← char '-' t
  let (day, t) ← digits 2 2 t
  let t ← match t with
    | c :: t => if c = 'T' ∨ c = 't' ∨ c = ' ' then some t else none
    | [] => none
  let (hour, t) ← digits 2 2 t
  let t ← char ':' t
  let (minute, t) ← digits 2 2 t
  let t ← char ':' t
  let (second, t) ← digits 2 2 t
  let (nanos, t) ← fraction t
  let (shift, t) ← offset (char ':') t
  some (⟨year, month, day, hour, minute, second, nanos⟩, shift, t)

def field (t : Text) : Option (Nat × Text) := digits 1 2 (Text.trimStart t)

def year (t : Text) : Option (Int × Text) :=
  match Text.trimStart t with
  | '-' :: t => (digits 1 t.length t).map fun (n, t) => (-(n : Int), t)
  | '+' :: t => (digits 1 t.length t).map fun (n, t) => ((n : Int), t)
  | t => (digits 1 4 t).map fun (n, t) => ((n : Int), t)

/-- Year, month and day with a separator between them; `skip` runs before each separator. -/
def date (separator : Char) (skip : Text → Text) (t : Text) : Option (CivilFields × Text) := do
  let (y, t) ← year t
  let t ← char separator (skip t)
  let (month, t) ← field t
  let t ← char separator (skip t)
  let (day, t) ← field t
  some (⟨y, month, day, 0, 0, 0, 0⟩, t)

def time (seconds : Bool) (skip : Text → Text) (f : CivilFields) (t : Text) :
    Option (CivilFields × Text) := do
  let (hour, t) ← field t
  let t ← char ':' (skip t)
  let (minute, t) ← field t
  if seconds then
    let t ← char ':' (skip t)
    let (second, t) ← field t
    some ({ f with hour, minute, second }, t)
  else some ({ f with hour, minute }, t)

def whole (r : Option (CivilFields × Text)) : Option Timestamp :=
  match r with
  | some (f, []) => f.instant? 0
  | _ => none

def spaced (seconds : Bool) (t : Text) : Option Timestamp :=
  whole do
    let (f, t) ← date '-' id t
    time seconds id f (Text.trimStart t)

def joined (t : Text) : Option Timestamp :=
  whole do
    let (f, t) ← date '-' id t
    time true id f (← char 'T' t)

def dateOnly (separator : Char) (t : Text) : Option Timestamp := whole (date separator id t)

def startsWithUtc : Text → Bool
  | a :: b :: c :: _ => Text.upper [a, b, c] == ['U', 'T', 'C']
  | _ => false

end TimeReader

namespace Timestamp

open TimeReader

/-- Reads RFC 3339 text and nothing more. The offset is at most 23:59 on either side. -/
def readStrict (t : Text) : Option Timestamp :=
  match rfc3339 t with
  | some (f, shift, []) =>
    if -86340 ≤ shift ∧ shift ≤ 86340 then f.instant? shift else none
  | _ => none

def read (t : Text) : Option Timestamp :=
  (readStrict t).or <| (spaced true t).or <| (joined t).or <| (spaced false t).or <|
    (dateOnly '-' t).or (dateOnly '/' t)

/-- Reads RFC 3339 text with signed years, short fields and white space between its parts. -/
def readLoose (t : Text) : Option Timestamp := do
  let (f, t) ← TimeReader.date '-' Text.trimStart t
  let t ← match t with
    | c :: t => if c = 'T' ∨ c = 't' ∨ c = ' ' then some t else none
    | [] => none
  let (f, t) ← time true Text.trimStart f t
  let (nanos, t) ← fraction t
  let t := Text.trimStart t
  let (shift, t) ←
    if startsWithUtc t then some ((0 : Int), t.drop 3)
    else offset (fun t => some (t.dropWhile fun c => c = ':' || Text.isBlank c)) t
  if Text.trimStart t = [] then CivilFields.instant? { f with nanos := nanos } shift else none

end Timestamp

end FilterQuery
