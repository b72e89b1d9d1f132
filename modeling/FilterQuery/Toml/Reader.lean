import FilterQuery.Toml
import FilterQuery.Number.Numeral
import FilterQuery.Time.Timestamp
set_option autoImplicit false

/-!
Reading TOML. Numbers, dates and words are runs of the characters that may stand in them, each read
as a whole. `Toml.read` is the object of a document, none if it is malformed.
-/

namespace FilterQuery.Toml

def isPlain (c : Char) : Bool := c = '\t' || (32 ≤ c.toNat && c.toNat ≠ 127)

def isSpace (c : Char) : Bool := c = ' ' || c = '\t'

def skipSpaces (t : Text) : Text := t.dropWhile isSpace

def skipBlank (inComment : Bool) : Text → Text
  | [] => []
  | '\n' :: t => skipBlank false t
  | '\r' :: '\n' :: t => skipBlank false t
  | c :: t =>
    if inComment then (if isPlain c then skipBlank true t else c :: t)
    else if c = '#' then skipBlank true t
    else if isSpace c then skipBlank false t
    else c :: t

def lineEnd (t : Text) : Option Text :=
  let t := match skipSpaces t with
    | '#' :: t => t.dropWhile isPlain
    | t => t
  match t with
  | [] => some []
  | '\n' :: t => some t
  | '\r' :: '\n' :: t => some t
  | _ => none

/-! Strings. -/

def escapeLetter? (c : Char) : Option Char :=
  if c = '"' ∨ c = '\\' then some c
  else if c = 'b' then some '\x08'
  else if c = 't' then some '\t'
  else if c = 'n' then some '\n'
  else if c = 'f' then some '\x0c'
  else if c = 'r' then some '\r'
  else none

def readEscape : Text → Option (Char × Text)
  | 'u' :: t => (code 4 t).map fun c => (c, t.drop 4)
  | 'U' :: t => (code 8 t).map fun c => (c, t.drop 8)
  | c :: t => (escapeLetter? c).map fun c => (c, t)
  | [] => none
where
  code (n : Nat) (t : Text) : Option Char :=
    if t.length < n then none else (Text.ofHex? (t.take n)).bind Text.char?

/-- Reads behind the opening mark of a string with escapes. The number bounds the steps. -/
def readBasic : Nat → Text → Option (Text × Text)
  | 0, _ => none
  | _ + 1, [] => none
  | _ + 1, '"' :: t => some ([], t)
  | n + 1, '\\' :: t =>
    match readEscape t with
    | some (c, t) => (readBasic n t).map fun (s, rest) => (c :: s, rest)
    | none => none
  | n + 1, c :: t =>
    if isPlain c then (readBasic n t).map fun (s, rest) => (c :: s, rest) else none

def readLiteral : Text → Option (Text × Text)
  | [] => none
  | '\'' :: t => some ([], t)
  | c :: t => if isPlain c then (readLiteral t).map fun (s, rest) => (c :: s, rest) else none

/-- At most two marks that belong to the string, in front of the three that close it. -/
def closingMarks (mark : Char) : Text → Text × Text
  | c :: d :: t =>
    if c = mark ∧ d = mark then ([mark, mark], t)
    else if c = mark then ([mark], d :: t)
    else ([], c :: d :: t)
  | [c] => if c = mark then ([mark], []) else ([], [c])
  | [] => ([], [])

/-- What follows a backslash at the end of a line: the first character that is not blank. -/
def joinedLine? (t : Text) : Option Text :=
  match skipSpaces t with
  | '\n' :: t => some (t.dropWhile fun c => isSpace c || c = '\n' || c = '\r')
  | '\r' :: '\n' :: t => some (t.dropWhile fun c => isSpace c || c = '\n' || c = '\r')
  | _ => none

def readLines (mark : Char) : Nat → Text → Option (Text × Text)
  | 0, _ => none
  | _ + 1, [] => none
  | n + 1, '\r' :: '\n' :: t => (readLines mark n t).map fun (s, rest) => ('\n' :: s, rest)
  | n + 1, '\n' :: t => (readLines mark n t).map fun (s, rest) => ('\n' :: s, rest)
  | n + 1, c :: t =>
    if [mark, mark, mark].isPrefixOf (c :: t) then some (closingMarks mark (t.drop 2))
    else if c = '\\' ∧ mark = '"' then
      match joinedLine? t with
      | some t => readLines mark n t
      | none =>
        match readEscape t with
        | some (c, t) => (readLines mark n t).map fun (s, rest) => (c :: s, rest)
        | none => none
    else if isPlain c then (readLines mark n t).map fun (s, rest) => (c :: s, rest)
    else none

def dropFirstLineEnd : Text → Text
  | '\n' :: t => t
  | '\r' :: '\n' :: t => t
  | t => t

def readString : Text → Option (Text × Text)
  | '"' :: '"' :: '"' :: t => readLines '"' (t.length + 1) (dropFirstLineEnd t)
  | '\'' :: '\'' :: '\'' :: t => readLines '\'' (t.length + 1) (dropFirstLineEnd t)
  | '"' :: t => readBasic (t.length + 1) t
  | '\'' :: t => readLiteral t
  | _ => none

/-! Keys. -/

def isBare (c : Char) : Bool := Text.isLetterOrDigit c || c = '_' || c = '-'

def readSimpleKey : Text → Option (Text × Text)
  | '"' :: t => readBasic (t.length + 1) t
  | '\'' :: t => readLiteral t
  | t =>
    let key := t.takeWhile isBare
    if key = [] then none else some (key, t.dropWhile isBare)

def readKey : Nat → Text → Option (List Text × Text)
  | 0, _ => none
  | n + 1, t =>
    match readSimpleKey (skipSpaces t) with
    | none => none
    | some (key, rest) =>
      match skipSpaces rest with
      | '.' :: rest => (readKey n rest).map fun (keys, rest) => (key :: keys, rest)
      | rest => some ([key], rest)

/-! Words. -/

def isWordChar (c : Char) : Bool :=
  Text.isLetterOrDigit c || c = '_' || c = '+' || c = '-' || c = '.' || c = ':'

def digits? (isDigit : Char → Bool) (t : Text) : Option Text :=
  let runs := t.splitOn '_'
  if runs.all fun r => r ≠ [] ∧ r.all isDigit then some runs.flatten else none

def decimal? (t : Text) : Option Text :=
  (digits? Text.isDigit t).filter fun d => d.length = 1 ∨ d.head? ≠ some '0'

def int64? (n : Int) : Option Json :=
  if -9223372036854775808 ≤ n ∧ n ≤ 9223372036854775807 then some (.int n) else none

def based? (base : Nat) (t : Text) : Option Json :=
  match digits? (fun c => ((Text.hexValue? c).getD 16) < base) t with
  | some ds => int64? (ds.foldl (fun n c => n * base + (Text.hexValue? c).getD 0) 0 : Nat)
  | none => none

def number? (negative : Bool) (t : Text) : Option Json :=
  let whole := t.takeWhile fun c => Text.isDigit c || c = '_'
  let rest := t.dropWhile fun c => Text.isDigit c || c = '_'
  let signed := fun t : Text => if negative then '-' :: t else t
  match decimal? whole, rest with
  | none, _ => none
  | some ds, [] => (Text.toInt? (signed ds)).bind int64?
  | some ds, rest => do
    let (fraction, rest) ← match rest with
      | '.' :: r =>
        (digits? Text.isDigit (r.takeWhile fun c => Text.isDigit c || c = '_')).map fun f =>
          ('.' :: f, r.dropWhile fun c => Text.isDigit c || c = '_')
      | r => some ([], r)
    let exponent ← match rest with
      | [] => some []
      | c :: r =>
        if c = 'e' ∨ c = 'E' then
          match r with
          | '-' :: r => (digits? Text.isDigit r).map ("e-".toList ++ ·)
          | '+' :: r => (digits? Text.isDigit r).map ('e' :: ·)
          | r => (digits? Text.isDigit r).map ('e' :: ·)
        else none
    let x ← readBinary64 (signed (ds ++ fraction ++ exponent))
    if x.isFinite || negative then some (.float x) else none

def specialFloat? (negative : Bool) (t : Text) : Option Json :=
  if t = "inf".toList then some (.float (.infinite negative))
  else if t = "nan".toList then some (.float .nan)
  else none

def isTwoDigits (most : Nat) (t : Text) : Bool :=
  t.length == 2 && (Text.toNat? t).any (· ≤ most)

def isDate (t : Text) : Bool :=
  match t.splitOn '-' with
  | [y, m, d] =>
    y.length == 4 && m.length == 2 && d.length == 2 &&
      match Text.toNat? y, Text.toNat? m, Text.toNat? d with
      | some y, some m, some d => Date.isValid ⟨y, m, d⟩
      | _, _, _ => false
  | _ => false

def isTime (t : Text) : Bool :=
  match t.splitOn ':' with
  | [h, m, s] =>
    let (s, fraction) := (s.take 2, s.drop 2)
    isTwoDigits 23 h && isTwoDigits 59 m && isTwoDigits 60 s &&
      (match fraction with
        | [] => true
        | '.' :: f => (Text.toNat? f).isSome
        | _ => false)
  | _ => false

def isOffsetTime (t : Text) : Bool :=
  let clock := t.takeWhile fun c => Text.isDigit c || c = ':' || c = '.'
  isTime clock &&
    match t.drop clock.length with
    | [] => true
    | [c] => c = 'Z' || c = 'z'
    | c :: r =>
      (c = '+' || c = '-') &&
        match r.splitOn ':' with
        | [h, m] => isTwoDigits 23 h && isTwoDigits 59 m
        | _ => false

def isInstant (t : Text) : Bool :=
  isDate t || isTime t ||
    (isDate (t.take 10) &&
      match t.drop 10 with
      | c :: r => (c = 'T' || c = 't' || c = ' ') && isOffsetTime r
      | [] => false)

/-- A date or time as an object that holds its text under no name. -/
def instantJson (t : Text) : Json := .single [] (.text t)

def word? (t : Text) : Option Json :=
  if t = "true".toList then some (.bool true)
  else if t = "false".toList then some (.bool false)
  else if isInstant t then some (instantJson t)
  else
    match t with
    | '+' :: t => (specialFloat? false t).or (number? false t)
    | '-' :: t => (specialFloat? true t).or (number? true t)
    | '0' :: 'x' :: t => based? 16 t
    | '0' :: 'o' :: t => based? 8 t
    | '0' :: 'b' :: t => based? 2 t
    | t => (specialFloat? false t).or (number? false t)

def readWord (t : Text) : Option (Json × Text) :=
  let word := t.takeWhile isWordChar
  let rest := t.dropWhile isWordChar
  let longer := match rest with
    | ' ' :: r =>
      let both := word ++ ' ' :: r.takeWhile isWordChar
      if isDate word ∧ isInstant both then some (instantJson both, r.dropWhile isWordChar) else none
    | _ => none
  longer.or ((word? word).map fun x => (x, rest))

/-! Values and documents. -/

mutual

def readValue : Nat → Text → Option (Json × Text)
  | 0, _ => none
  | n + 1, t =>
    match t with
    | '[' :: t => readArray n [] (skipBlank false t)
    | '\x7b' :: t =>
      match skipSpaces t with
      | '\x7d' :: rest => some (.object [], rest)
      | t => readInline n [] t
    | t =>
      if t.head? = some '"' ∨ t.head? = some '\'' then
        (readString t).map fun (s, rest) => (.text s, rest)
      else readWord t

def readArray : Nat → List Json → Text → Option (Json × Text)
  | 0, _, _ => none
  | n + 1, read, t =>
    match t with
    | ']' :: rest => some (.array read.reverse, rest)
    | t =>
      match readValue n t with
      | none => none
      | some (x, rest) =>
        match skipBlank false rest with
        | ',' :: rest => readArray n (x :: read) (skipBlank false rest)
        | ']' :: rest => some (.array (x :: read).reverse, rest)
        | _ => none

def readInline : Nat → Items → Text → Option (Json × Text)
  | 0, _, _ => none
  | n + 1, read, t =>
    match readKey (t.length + 1) t with
    | some (keys, '=' :: rest) =>
      match readValue n (skipSpaces rest) with
      | none => none
      | some (x, rest) =>
        match Items.addDotted keys x read with
        | none => none
        | some read =>
          match skipSpaces rest with
          | ',' :: rest => readInline n read rest
          | '\x7d' :: rest => some (.object (itemsJson read), rest)
          | _ => none
    | _ => none

end

def readEntry (header : List Text) (doc : Items) (t : Text) : Option (Items × Text) :=
  match readKey (t.length + 1) t with
  | some (keys, '=' :: rest) =>
    match readValue (2 * rest.length + 2) (skipSpaces rest) with
    | some (x, rest) =>
      (Items.descend false (Items.addDotted keys x) header doc).map fun doc => (doc, rest)
    | none => none
  | _ => none

def readHeader (doc : Items) (t : Text) : Option (Items × List Text × Text) :=
  match t with
  | '[' :: t =>
    match readKey (t.length + 1) t with
    | some (keys, ']' :: ']' :: rest) =>
      (Items.atHeader Items.openRow keys doc).map fun doc => (doc, keys, rest)
    | _ => none
  | t =>
    match readKey (t.length + 1) t with
    | some (keys, ']' :: rest) =>
      (Items.atHeader Items.openTable keys doc).map fun doc => (doc, keys, rest)
    | _ => none

def readLinesBelow : Nat → List Text → Items → Text → Option Items
  | 0, _, _, _ => none
  | n + 1, header, doc, t =>
    match skipBlank false t with
    | [] => some doc
    | '[' :: t =>
      match readHeader doc t with
      | some (doc, keys, rest) =>
        (lineEnd rest).bind fun rest => readLinesBelow n keys doc rest
      | none => none
    | t =>
      match readEntry header doc t with
      | some (doc, rest) => (lineEnd rest).bind fun rest => readLinesBelow n header doc rest
      | none => none

/-- The object of a document; a byte order mark in front does not count. -/
def read (t : Text) : Option Json :=
  let t := match t with
    | '\ufeff' :: t => t
    | t => t
  (readLinesBelow (t.length + 1) [] [] t).map fun doc => .object (itemsJson doc)

end FilterQuery.Toml
