import FilterQuery.Expr
import FilterQuery.Number.Numeral
import FilterQuery.Time.Reader
set_option autoImplicit false

/-!
The right-hand sides of comparisons: typed scalars, pattern texts, sets and ranges. A quoted
literal is text unless it reads as an instant; a bare word is typed by its form.
-/

namespace FilterQuery

inductive Literal where
  | quoted (t : Text)
  | bare (t : Text)
  deriving DecidableEq, Repr

namespace Literal

def textValue (t : Text) : Value :=
  match Timestamp.read t with
  | some i => .time i
  | none => .text t

def bareNumber? (t : Text) : Option Value :=
  match readInt64 t with
  | some n => some (.int n)
  | none =>
    match readBinary64 t with
    | some x => if x.isFinite then some (.float x) else none
    | none => none

def bareValue (t : Text) : Value :=
  if t = "true".toList then .bool true
  else if t = "false".toList then .bool false
  else if t = "null".toList ∨ t = "NULL".toList then .null
  else (bareNumber? t).getD (textValue t)

def value : Literal → Value
  | quoted t => textValue t
  | bare t => bareValue t

def content : Literal → Text
  | quoted t => t
  | bare t => t

/-- Reads a text that is one literal; one that starts with a quote mark has to be quoted. -/
def read (t : Text) : Option Literal :=
  match Text.trim t with
  | [] => none
  | c :: r => if c = '"' then (Quoted.read (c :: r)).map .quoted else some (.bare (c :: r))

def inWord (c : Char) : Bool :=
  !Text.isBlank c && c != '"' && c != ',' && c != '[' && c != ']'

def readWord (t : Text) : Option (Literal × Text) :=
  let word := t.takeWhile inWord
  if word = [] then none else some (.bare word, t.dropWhile inWord)

def readItem (t : Text) : Option (Literal × Text) :=
  let start := Text.trimStart t
  match (match Quoted.readFront start with
    | some (body, rest) => some (.quoted body, rest)
    | none => readWord start) with
  | some (item, rest) => some (item, Text.trimStart rest)
  | none => none

theorem length_trimStart_le (t : Text) : (Text.trimStart t).length ≤ t.length := by
  simpa [Text.trimStart] using (List.dropWhile_suffix Text.isBlank).length_le

theorem length_readFront_lt {t body rest : Text} (h : Quoted.readFront t = some (body, rest)) :
    rest.length < t.length := by
  unfold Quoted.readFront at h
  split at h
  · have := Quoted.readBody_length h
    simp only [List.length_cons]
    omega
  · simp at h

theorem length_readWord_lt {t rest : Text} {item : Literal}
    (h : readWord t = some (item, rest)) : rest.length < t.length := by
  simp only [readWord] at h
  split at h
  · simp at h
  · rename_i hne
    cases h
    have hsplit := congrArg List.length (List.takeWhile_append_dropWhile (p := inWord) (l := t))
    have := List.length_pos_iff.2 hne
    simp only [List.length_append] at hsplit
    omega

theorem length_readItem_lt {t rest : Text} {item : Literal}
    (h : readItem t = some (item, rest)) : rest.length < t.length := by
  simp only [readItem] at h
  have hstart := length_trimStart_le t
  split at h
  · rename_i a b hb
    cases h
    have hrest := length_trimStart_le b
    split at hb
    · rename_i hf
      cases hb
      have := length_readFront_lt hf
      omega
    · have := length_readWord_lt hb
      omega
  · simp at h

/-- Reads items with commas between them; one more comma may follow the last. -/
def readItems (t : Text) : List Literal × Text :=
  match h : readItem t with
  | some (item, ',' :: rest) =>
    have : rest.length < t.length := by
      have := length_readItem_lt h
      simp only [List.length_cons] at this
      omega
    let (items, end_) := readItems rest
    (item :: items, end_)
  | some (item, rest) => ([item], rest)
  | none => ([], t)
termination_by t.length

def readList (t : Text) : Option (List Literal) :=
  match t with
  | '[' :: t =>
    match readItems t with
    | (items, ']' :: rest) => if rest.all Text.isBlank then some items else none
    | _ => none
  | t =>
    let (items, rest) := readItems t
    if rest.all Text.isBlank then some items else none

/-- Removes one pair of parentheses around a text and the white space on either side of each. -/
def stripGroup (t : Text) : Text :=
  let t := Text.trim t
  match t with
  | '(' :: inner =>
    match inner.reverse with
    | ')' :: inner => Text.trim inner.reverse
    | _ => t
  | _ => t

def scalar? (t : Text) : Option Value := (read t).map value

def pattern? (t : Text) : Option Text := (read t).map content

def set? (t : Text) : Option (List Value) :=
  match stripGroup t with
  | [] => none
  | t => (readList t).map (List.map value)

def range? (t : Text) : Option (Value × Value) := do
  let (low, high) ← findUnquoted rangeMark .outside (stripGroup t)
  some (← scalar? low, ← scalar? high)

end Literal

end FilterQuery
