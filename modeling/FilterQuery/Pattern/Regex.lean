import FilterQuery.Text.Letter
import FilterQuery.Pattern.Property
set_option autoImplicit false

/-!
An estimate of which patterns a regex engine accepts, for running the program without one: regexes
with Unicode classes, class set operations, named groups, inline flags and counted repetition, but
without look-around and back references. Nesting is limited, and so is the memory that an automaton
for the regex would take, which is guessed piece by piece. No statement depends on the estimate.
-/

namespace FilterQuery.Regex

/-- The flags that change how a regex is read. -/
structure Mode where
  spaced : Bool
  unicode : Bool
  deriving DecidableEq, Repr

/-- What is kept of a piece that has been read: how deep it nests, the memory for one copy of it,
whether it matches the empty text only, and whether a repetition may follow it. -/
structure Piece where
  depth : Nat
  weight : Nat
  blank : Bool
  repeatable : Bool
  deriving DecidableEq, Repr

def depthLimit : Nat := 250

def weightLimit : Nat := 10485760

def stateWeight : Nat := 32

/-- What a class weighs that holds characters beyond ASCII; the numbers grow with the count of
its ranges. -/
def wideWeight : Nat := 30000

def perlWeight (c : Char) : Nat :=
  if c = 'w' then 48168 else if c = 'W' then 45028 else if c = 'd' then 4640
  else if c = 'D' then 11620 else if c = 's' then 680 else 1888

def skipSpace (inComment : Bool) : Text → Text
  | [] => []
  | c :: t =>
    if inComment then skipSpace (c != '\n') t
    else if Text.isBlank c then skipSpace false t
    else if c = '#' then skipSpace true t
    else c :: t

def skip (m : Mode) (t : Text) : Text := if m.spaced then skipSpace false t else t

/-- The characters before the first one that stops, which has to exist; what does not count is
skipped between them. -/
def collect (m : Mode) (stops : Char → Bool) : Nat → Text → Option (Text × Text)
  | 0, _ => none
  | n + 1, t =>
    match skip m t with
    | [] => none
    | c :: r =>
      if stops c then some ([], c :: r)
      else (collect m stops n r).map fun (cs, rest) => (c :: cs, rest)

def collectAll (m : Mode) (stops : Char → Bool) (t : Text) : Option (Text × Text) :=
  collect m stops (t.length + 1) t

def isHex (c : Char) : Bool := (Text.hexValue? c).isSome

/-- What a primitive of a regex is. -/
inductive Primitive where
  | literal (c : Char) (byte : Bool)
  | dot
  | look
  | set (weight : Nat)
  deriving DecidableEq, Repr

def hexDigits (m : Mode) : Nat → Text → Option (Text × Text)
  | 0, t => some ([], t)
  | _ + 1, [] => none
  | n + 1, c :: t =>
    if isHex c then (hexDigits m n (skip m t)).map fun (ds, r) => (c :: ds, r) else none

def hexCharacter (digits : Text) (byte : Bool) : Option Primitive :=
  ((Text.ofHex? digits).bind Text.char?).map fun c => .literal c byte

def readHex (m : Mode) (letter : Char) (t : Text) : Option (Primitive × Text) :=
  match skip m t with
  | [] => none
  | '{' :: t => do
    let (digits, rest) ← collectAll m (· = '}') t
    if digits ≠ [] ∧ digits.all isHex then
      some (← hexCharacter digits false, skip m (rest.drop 1))
    else none
  | t => do
    let count := if letter = 'x' then 2 else if letter = 'u' then 4 else 8
    let (digits, rest) ← hexDigits m count t
    some (← hexCharacter digits (letter = 'x'), rest)

def readProperty (m : Mode) (t : Text) : Option (Primitive × Text) :=
  match skip m t with
  | [] => none
  | '{' :: t => do
    let (name, rest) ← collectAll m (· = '}') t
    if m.unicode ∧ isClassText name then some (.set wideWeight, rest.drop 1) else none
  | c :: t =>
    if c ≠ '\\' ∧ m.unicode ∧ isClassName [c] then some (.set wideWeight, skip m t) else none

def boundaryNames : List Text :=
  ["start".toList, "end".toList, "start-half".toList, "end-half".toList]

def readBoundary (m : Mode) (t : Text) : Option (Primitive × Text) :=
  match t with
  | '{' :: r =>
    match skip m r with
    | [] => none
    | c :: _ =>
      let named := fun c => Text.isLetter c || c = '-'
      if named c then do
        let (name, rest) ← collectAll m (fun c => !named c) r
        match rest with
        | '}' :: rest => if boundaryNames.contains name then some (.look, rest) else none
        | _ => none
      else some (.look, t)
  | _ => some (.look, t)

def isEscapable (c : Char) : Bool :=
  c.toNat < 128 && !Text.isLetterOrDigit c && c != '<' && c != '>'

def readEscape (m : Mode) : Text → Option (Primitive × Text)
  | [] => none
  | c :: t =>
    if c = 'x' ∨ c = 'u' ∨ c = 'U' then readHex m c t
    else if c = 'p' ∨ c = 'P' then readProperty m t
    else if c = 'd' ∨ c = 's' ∨ c = 'w' then
      some (.set (if m.unicode then perlWeight c else stateWeight * 3), t)
    else if c = 'D' ∨ c = 'S' ∨ c = 'W' then
      if m.unicode then some (.set (perlWeight c), t) else none
    else if isEscapable c then some (.literal c false, t)
    else if c = 'a' then some (.literal '\x07' false, t)
    else if c = 'f' then some (.literal '\x0c' false, t)
    else if c = 't' then some (.literal '\t' false, t)
    else if c = 'n' then some (.literal '\n' false, t)
    else if c = 'r' then some (.literal '\r' false, t)
    else if c = 'v' then some (.literal '\x0b' false, t)
    else if c = 'b' then readBoundary m t
    else if c = 'A' ∨ c = 'z' ∨ c = 'B' ∨ c = '<' ∨ c = '>' then some (.look, t)
    else none

def Primitive.piece (m : Mode) : Primitive → Option Piece
  | .literal c byte =>
    if byte ∧ !m.unicode ∧ 128 ≤ c.toNat then none
    else some ⟨0, stateWeight * c.utf8Size, false, true⟩
  | .dot => if m.unicode then some ⟨0, 700, false, true⟩ else none
  | .look => some ⟨0, stateWeight, true, true⟩
  | .set weight => some ⟨0, weight, false, true⟩

/-! Classes in brackets. -/

/-- A class being read: how deep the finished operand of a set operation nests, the items since
then, and what has to be known of all items. -/
structure ClassState where
  operand : Option Nat
  count : Nat
  depth : Nat
  weight : Nat
  negated : Bool
  deriving DecidableEq, Repr

namespace ClassState

def opened (negated : Bool) : ClassState := ⟨none, 0, 0, stateWeight * 2, negated⟩

def addItem (s : ClassState) (depth weight : Nat) : ClassState :=
  { s with count := s.count + 1, depth := max s.depth depth, weight := s.weight + weight }

def level (s : ClassState) : Nat :=
  let items := if 2 ≤ s.count then s.depth + 1 else s.depth
  match s.operand with
  | none => items
  | some d => max d items + 1

def addOperator (s : ClassState) : ClassState :=
  { s with operand := some s.level, count := 0, depth := 0 }

end ClassState

def asciiClassNames : List Text :=
  names "alnum alpha ascii blank cntrl digit graph lower print punct space upper word xdigit"

def readAsciiClass : Text → Option (Bool × Text)
  | ':' :: t =>
    let (negated, t) := match t with
      | '^' :: t => (true, t)
      | t => (false, t)
    let name := t.takeWhile (· ≠ ':')
    match t.dropWhile (· ≠ ':') with
    | ':' :: ']' :: rest => if asciiClassNames.contains name then some (negated, rest) else none
    | _ => none
  | _ => none

def readHyphens (m : Mode) : Nat → ClassState → Text → ClassState × Text
  | n + 1, s, '-' :: t => readHyphens m n (s.addItem 0 0) (skip m t)
  | _, s, t => (s, t)

/-- What may follow an opening bracket: a negation, hyphens, and a bracket that stands for
itself. Negation takes a class beyond ASCII. -/
def openClass (m : Mode) (t : Text) : Option (ClassState × Text) :=
  let t := skip m t
  let (negated, t) := match t with
    | '^' :: t => (true, skip m t)
    | t => (false, t)
  if negated ∧ !m.unicode then none
  else
    let (s, t) := readHyphens m t.length (ClassState.opened negated) t
    match t with
    | [] => none
    | ']' :: r => if s.count = 0 then some (s.addItem 0 0, skip m r) else some (s, t)
    | _ => some (s, t)

def readMember (m : Mode) : Text → Option (Primitive × Text)
  | [] => none
  | '\\' :: t => readEscape m t
  | c :: t => some (.literal c false, t)

def memberNumber? (m : Mode) : Primitive → Option Nat
  | .literal c _ => if m.unicode ∨ c.toNat < 128 then some c.toNat else none
  | _ => none

def readRange (m : Mode) (t : Text) : Option (Nat × Text) := do
  let (first, t) ← readMember m t
  match skip m t with
  | [] => none
  | c :: r =>
    let next := (skip m r).head?
    if c ≠ '-' ∨ next = some ']' ∨ next = some '-' then
      match first with
      | .set weight => some (weight, c :: r)
      | .literal .. => do
        let n ← memberNumber? m first
        some (if n < 128 then 8 else 100, c :: r)
      | _ => none
    else
      let (last, rest) ← readMember m (skip m r)
      let low ← memberNumber? m first
      let high ← memberNumber? m last
      if low ≤ high then some (if high < 128 then 8 else 300, rest) else none

/-- Reads a class to the bracket that closes it; the list holds the classes open around it. -/
def readClass (m : Mode) : Nat → List ClassState → ClassState → Text → Option (Piece × Text)
  | 0, _, _, _ => none
  | n + 1, outer, s, t =>
    match skip m t with
    | [] => none
    | ']' :: rest =>
      let depth := s.level + 1
      let weight := if s.negated then s.weight + 700 else s.weight
      match outer with
      | [] => some (⟨depth, weight, false, true⟩, rest)
      | o :: outer => readClass m n outer (o.addItem depth weight) rest
    | '&' :: '&' :: rest => readClass m n outer s.addOperator rest
    | '~' :: '~' :: rest => readClass m n outer s.addOperator rest
    | '-' :: '-' :: rest => readClass m n outer s.addOperator rest
    | '[' :: rest =>
      match readAsciiClass rest with
      | some (negated, rest) =>
        if negated ∧ !m.unicode then none
        else readClass m n outer (s.addItem 0 (if negated then 700 else 16)) rest
      | none =>
        match openClass m rest with
        | some (inner, rest) => readClass m n (s :: outer) inner rest
        | none => none
    | t =>
      match readRange m t with
      | some (weight, rest) => readClass m n outer (s.addItem 0 weight) rest
      | none => none

/-! Repetition. -/

/-- How often a piece is repeated. -/
structure Count where
  least : Nat
  most : Option Nat
  deriving DecidableEq, Repr

def Count.isValid (c : Count) : Bool :=
  match c.most with
  | none => true
  | some n => c.least ≤ n

def Piece.repeated (p : Piece) (c : Count) : Piece :=
  let least := if p.blank then min c.least 1 else c.least
  let most := if p.blank then c.most.map (min · 1) else c.most
  let weight := match most with
    | none => max least 1 * p.weight + 40
    | some n => least * p.weight + (n - least) * (p.weight + 40) + stateWeight
  ⟨p.depth + 1, weight, p.blank || most == some 0, true⟩

def readNumber (m : Mode) (t : Text) : Option (Option Nat × Text) := do
  let (digits, rest) ← collectAll m (fun c => !Text.isDigit c) (t.dropWhile Text.isBlank)
  let rest := if m.spaced then skip m rest else rest.dropWhile Text.isBlank
  if digits = [] then some (none, rest)
  else
    let n := Nat.ofDigitChars 10 digits 0
    if n < 4294967296 then some (some n, rest) else none

def readCounts (m : Mode) (t : Text) : Option (Count × Text) := do
  let (first, t) ← readNumber m (skip m t)
  match t with
  | '}' :: rest => do
    let n ← first
    some (⟨n, some n⟩, rest)
  | ',' :: t =>
    match skip m t with
    | [] => none
    | '}' :: rest => do
      let n ← first
      some (⟨n, none⟩, rest)
    | t => do
      let n ← first
      let (last, t) ← readNumber m t
      match t with
      | '}' :: rest => do
        let k ← last
        some (⟨n, some k⟩, rest)
      | _ => none
  | _ => none

/-! Groups. -/

/-- Reads flags up to a colon or a closing parenthesis; `seen` holds those read so far. -/
def readFlags : List Char → Text → Option (Text × Char × Text)
  | _, [] => none
  | seen, c :: t =>
    if c = ':' ∨ c = ')' then
      if seen.head? = some '-' then none else some (seen.reverse, c, t)
    else if "imsUuRx-".toList.contains c ∧ !seen.contains c then readFlags (c :: seen) t
    else none

def flagState? (flags : Text) (flag : Char) : Option Bool :=
  let before := flags.takeWhile (· ≠ flag)
  if flags.contains flag then some (!before.contains '-') else none

def Mode.with (m : Mode) (flags : Text) : Mode :=
  ⟨(flagState? flags 'x').getD m.spaced, (flagState? flags 'u').getD m.unicode⟩

def inGroupName (c : Char) : Bool :=
  c = '_' || c = '.' || c = '[' || c = ']' || Letter.isAlphanumeric c

def readGroupName (t : Text) : Option (Text × Text) :=
  let name := t.takeWhile inGroupName
  match name, t.dropWhile inGroupName with
  | c :: _, '>' :: rest => if c = '_' ∨ Letter.isAlphabetic c then some (name, rest) else none
  | _, _ => none

/-- How a parenthesis opens. -/
inductive Opening where
  | flags (m : Mode)
  | group (m : Mode)
  | capture
  | named (name : Text)
  deriving DecidableEq, Repr

def readOpening (m : Mode) (t : Text) : Option (Opening × Text) :=
  match skip m t with
  | '?' :: '=' :: _ | '?' :: '!' :: _ | '?' :: '<' :: '=' :: _ | '?' :: '<' :: '!' :: _ => none
  | '?' :: 'P' :: '<' :: t | '?' :: '<' :: t =>
    (readGroupName t).map fun (name, rest) => (.named name, rest)
  | '?' :: t => do
    let (flags, close, rest) ← readFlags [] t
    if close = ':' then some (.group (m.with flags), rest)
    else if flags = [] then none
    else some (.flags (m.with flags), rest)
  | t => some (.capture, t)

/-- The pieces of the alternative being read, last first, and the alternatives before it. -/
structure Level where
  pieces : List Piece
  alternatives : List Piece
  deriving DecidableEq, Repr

namespace Level

def empty : Level := ⟨[], []⟩

def sequence (ps : List Piece) : Piece :=
  match ps with
  | [] => ⟨0, stateWeight, true, true⟩
  | [p] => p
  | ps =>
    ⟨(ps.map Piece.depth).foldl max 0 + 1, (ps.map Piece.weight).foldl (· + ·) 0,
      ps.all Piece.blank, true⟩

def close (l : Level) : Piece :=
  match l.alternatives with
  | [] => sequence l.pieces
  | as =>
    let ps := sequence l.pieces :: as
    ⟨(ps.map Piece.depth).foldl max 0 + 1,
      (ps.map Piece.weight).foldl (· + ·) 0 + stateWeight * 2 + 4 * ps.length,
      ps.all Piece.blank, true⟩

def add (l : Level) (p : Piece) : Level := { l with pieces := p :: l.pieces }

def alternate (l : Level) : Level := ⟨[], sequence l.pieces :: l.alternatives⟩

end Level

def Level.repeated (l : Level) (c : Count) : Option Level :=
  match l.pieces with
  | p :: ps =>
    if p.repeatable ∧ c.isValid then some { l with pieces := p.repeated c :: ps } else none
  | [] => none

/-- What surrounds an open group: the level it stands in, the mode to return to, and the memory
that the group itself takes. -/
structure Frame where
  level : Level
  mode : Mode
  weight : Nat
  deriving DecidableEq, Repr

def dropLazy : Text → Text
  | '?' :: t => t
  | t => t

def readAll : Nat → Mode → List Text → List Frame → Level → Text → Option Piece
  | 0, _, _, _, _, _ => none
  | n + 1, m, groups, frames, l, t =>
    match skip m t with
    | [] => if frames.isEmpty then some l.close else none
    | '(' :: t =>
      match readOpening m t with
      | none => none
      | some (.flags m, t) => readAll n m groups frames (l.add ⟨0, 0, true, false⟩) t
      | some (.group inner, t) => readAll n inner groups (⟨l, m, 0⟩ :: frames) .empty t
      | some (.capture, t) => readAll n m groups (⟨l, m, stateWeight * 2⟩ :: frames) .empty t
      | some (.named name, t) =>
        if groups.contains name then none
        else readAll n m (name :: groups) (⟨l, m, stateWeight * 2⟩ :: frames) .empty t
    | ')' :: t =>
      match frames with
      | [] => none
      | f :: frames =>
        let p := l.close
        let piece : Piece := ⟨p.depth + 1, p.weight + f.weight, p.blank, true⟩
        readAll n f.mode groups frames (f.level.add piece) t
    | '|' :: t => readAll n m groups frames l.alternate t
    | '[' :: t =>
      match (openClass m t).bind fun (s, r) => readClass m (r.length + 1) [] s r with
      | some (p, t) => readAll n m groups frames (l.add p) t
      | none => none
    | '?' :: t => next n m groups frames (l.repeated ⟨0, some 1⟩) (dropLazy t)
    | '*' :: t => next n m groups frames (l.repeated ⟨0, none⟩) (dropLazy t)
    | '+' :: t => next n m groups frames (l.repeated ⟨1, none⟩) (dropLazy t)
    | '{' :: t =>
      match readCounts m t with
      | some (c, t) => next n m groups frames (l.repeated c) (dropLazy (skip m t))
      | none => none
    | '\\' :: t =>
      match readEscape m t with
      | some (p, t) => next n m groups frames ((p.piece m).map l.add) t
      | none => none
    | '.' :: t => next n m groups frames ((Primitive.dot.piece m).map l.add) t
    | c :: t =>
      let p : Primitive := if c = '^' ∨ c = '$' then .look else .literal c false
      next n m groups frames ((p.piece m).map l.add) t
where
  next (n : Nat) (m : Mode) (groups : List Text) (frames : List Frame) (l : Option Level)
      (t : Text) : Option Piece :=
    match l with
    | some l => readAll n m groups frames l t
    | none => none

def isValid (t : Text) : Bool :=
  match readAll (t.length + 1) ⟨false, true⟩ [] [] .empty t with
  | some p => p.depth ≤ depthLimit && p.weight + stateWeight * 8 ≤ weightLimit
  | none => false

end FilterQuery.Regex
