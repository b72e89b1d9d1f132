import FilterQuery.Json
set_option autoImplicit false

/-!
Reading JSON. Integers of 64 bits, with or without sign, are kept as integers; every other number
is a float, computed from the digits that fit 64 bits and one or more powers of ten. How deep
values nest is limited.
-/

namespace FilterQuery

namespace JsonReader

def isSpace (c : Char) : Bool := c = ' ' || c = '\t' || c = '\n' || c = '\r'

def skip (t : Text) : Text := t.dropWhile isSpace

def readUnit : Text → Option (Nat × Text)
  | a :: b :: c :: d :: t => (Text.ofHex? [a, b, c, d]).map fun n => (n, t)
  | _ => none

/-- The character of an escape `\u`, of one unit or of two that form a pair. -/
def readUnicode (t : Text) : Option (Char × Text) :=
  match readUnit t with
  | none => none
  | some (n, rest) =>
    if 0xD800 ≤ n ∧ n < 0xDC00 then
      match rest with
      | '\\' :: 'u' :: rest =>
        match readUnit rest with
        | some (k, rest) =>
          if 0xDC00 ≤ k ∧ k < 0xE000 then
            (Text.char? (0x10000 + (n - 0xD800) * 0x400 + (k - 0xDC00))).map fun c => (c, rest)
          else none
        | none => none
      | _ => none
    else (Text.char? n).map fun c => (c, rest)

def escapeLetter? (c : Char) : Option Char :=
  if c = '"' ∨ c = '\\' ∨ c = '/' then some c
  else if c = 'b' then some '\x08'
  else if c = 'f' then some '\x0c'
  else if c = 'n' then some '\n'
  else if c = 'r' then some '\r'
  else if c = 't' then some '\t'
  else none

def readString : Nat → List Char → Text → Option (Text × Text)
  | 0, _, _ => none
  | _ + 1, _, [] => none
  | n + 1, read, c :: t =>
    if c = '"' then some (read.reverse, t)
    else if c = '\\' then
      match t with
      | 'u' :: t =>
        match readUnicode t with
        | some (d, t) => readString n (d :: read) t
        | none => none
      | e :: t =>
        match escapeLetter? e with
        | some d => readString n (d :: read) t
        | none => none
      | [] => none
    else if c.toNat < 32 then none
    else readString n (c :: read) t

def largest : Nat := 18446744073709551615

/-- Appends digits to a number while it stays below 2^64; how many were appended. -/
def appendDigits (number used : Nat) : Text → Nat × Nat
  | [] => (number, used)
  | c :: t =>
    let n := number * 10 + (c.toNat - 48)
    if n ≤ largest then appendDigits n (used + 1) t else (number, used)

def powerOfTen (n : Nat) : Binary64 := Binary64.ofRatio false (Nat.pow 10 n) 1

/-- A number scaled by a power of ten, in steps of 308 powers downwards. -/
def scaled : Nat → Binary64 → Int → Option Binary64
  | 0, _, _ => none
  | n + 1, x, e =>
    if x.isZero then some x
    else if e < -308 then scaled n (x.div (powerOfTen 308)) (e + 308)
    else if e < 0 then some (x.div (powerOfTen e.natAbs))
    else if 308 < e then none
    else
      let y := x.mul (powerOfTen e.toNat)
      if y.isFinite then some y else none

def readExponent (t : Text) : Option (Int × Text) :=
  match t with
  | c :: r =>
    if c = 'e' ∨ c = 'E' then
      let (negative, r) := match r with
        | '-' :: r => (true, r)
        | '+' :: r => (false, r)
        | r => (false, r)
      let digits := r.takeWhile Text.isDigit
      if digits = [] then none
      else
        let n : Int := min (Nat.ofDigitChars 10 (digits.take 12) 0) 100000
        some (if negative then -n else n, r.dropWhile Text.isDigit)
    else some (0, t)
  | [] => some (0, [])

def readNumber (negative : Bool) (t : Text) : Option (Json × Text) := do
  let whole := t.takeWhile Text.isDigit
  let rest := t.dropWhile Text.isDigit
  if whole = [] ∨ (whole.head? = some '0' ∧ 1 < whole.length) then none
  else
    let (n, used) := appendDigits 0 0 whole
    let (isDecimal, fraction, rest) ← match rest with
      | '.' :: r =>
        let digits := r.takeWhile Text.isDigit
        if digits = [] then none else some (true, digits, r.dropWhile Text.isDigit)
      | r => some (false, [], r)
    let hasExponent := rest.head? = some 'e' || rest.head? = some 'E'
    let (e, rest) ← readExponent rest
    if !isDecimal && !hasExponent && used == whole.length &&
        (if negative then 0 < n && n ≤ 9223372036854775808 else true) then
      some (.int (if negative then -(n : Int) else n), rest)
    else
      let (n, places) := appendDigits n 0 fraction
      let exponent : Int := e + (whole.length - used) - places
      let x ← scaled 400 (Binary64.ofRatio false n 1) exponent
      some (.float (if negative then x.negate else x), rest)

def word? (w : String) (x : Json) (t : Text) : Option (Json × Text) :=
  (w.toList.isPrefixOf? t).map fun rest => (x, rest)

mutual

def readValue : Nat → Text → Option (Json × Text)
  | 0, _ => none
  | n + 1, t =>
    match skip t with
    | '"' :: t => (readString (t.length + 1) [] t).map fun (s, rest) => (.text s, rest)
    | '[' :: t =>
      match skip t with
      | ']' :: rest => some (.array [], rest)
      | t => readItems n [] t
    | '\x7b' :: t =>
      match skip t with
      | '\x7d' :: rest => some (.object [], rest)
      | t => readFields n [] t
    | '-' :: t => readNumber true t
    | 't' :: t => word? "rue" (.bool true) t
    | 'f' :: t => word? "alse" (.bool false) t
    | 'n' :: t => word? "ull" .null t
    | t => readNumber false t

def readItems : Nat → List Json → Text → Option (Json × Text)
  | 0, _, _ => none
  | n + 1, read, t =>
    match readValue n t with
    | none => none
    | some (x, rest) =>
      match skip rest with
      | ',' :: rest => readItems n (x :: read) rest
      | ']' :: rest => some (.array (x :: read).reverse, rest)
      | _ => none

def readFields : Nat → List (Text × Json) → Text → Option (Json × Text)
  | 0, _, _ => none
  | n + 1, read, t =>
    match skip t with
    | '"' :: t =>
      match readString (t.length + 1) [] t with
      | none => none
      | some (key, rest) =>
        match skip rest with
        | ':' :: rest =>
          match readValue n rest with
          | none => none
          | some (x, rest) =>
            let read := (key, x) :: read
            match skip rest with
            | ',' :: rest => readFields n read rest
            | '\x7d' :: rest => some (Json.ofEntries read.reverse, rest)
            | _ => none
        | _ => none
    | _ => none

end

end JsonReader

def Json.depthLimit : Nat := 127

def Json.read (t : Text) : Option Json :=
  match JsonReader.readValue (2 * t.length + 2) t with
  | some (x, rest) => if JsonReader.skip rest = [] ∧ x.depth ≤ depthLimit then some x else none
  | none => none

end FilterQuery
