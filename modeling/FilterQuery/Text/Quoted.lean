import FilterQuery.Text
set_option autoImplicit false

/-!
Double-quoted literals. `QuoteState` says where a scan stands with respect to them, `Quoted.write`
writes any text as a literal and `Quoted.read` reads a literal back. A character outside every
literal, and no quote mark itself, is called structural.
-/

namespace FilterQuery

/-- Where a scan stands: outside literals, inside one, or behind a backslash inside one. -/
inductive QuoteState where
  | outside
  | inside
  | escaped
  deriving DecidableEq, Repr

namespace QuoteState

def next : QuoteState → Char → QuoteState
  | outside, c => if c = '"' then inside else outside
  | inside, c => if c = '\\' then escaped else if c = '"' then outside else inside
  | escaped, _ => inside

def after (q : QuoteState) (t : Text) : QuoteState := t.foldl next q

@[simp] theorem after_nil (q : QuoteState) : q.after [] = q := rfl

@[simp] theorem after_cons (q : QuoteState) (c : Char) (t : Text) :
    q.after (c :: t) = (q.next c).after t := rfl

@[simp] theorem after_append (q : QuoteState) (t u : Text) :
    q.after (t ++ u) = (q.after t).after u := by simp [after]

def structural (q : QuoteState) (c : Char) : Bool := q == outside && c != '"'

def marks : QuoteState → Text → List (Char × Bool)
  | _, [] => []
  | q, c :: t => (c, q.structural c) :: marks (q.next c) t

end QuoteState

/-- The text before and after the first structural place where `pattern` starts. -/
def findUnquoted (pattern : Text) (q : QuoteState) : Text → Option (Text × Text)
  | [] => none
  | c :: t =>
    match (if q.structural c then pattern.isPrefixOf? (c :: t) else none) with
    | some rest => some ([], rest)
    | none => (findUnquoted pattern (q.next c) t).map fun (before, rest) => (c :: before, rest)

namespace Quoted

def writeChar (c : Char) : Text :=
  if c = '"' ∨ c = '\\' then ['\\', c]
  else if c = '\n' then ['\\', 'n']
  else if c = '\r' then ['\\', 'r']
  else if c = '\t' then ['\\', 't']
  else [c]

def write (t : Text) : Text := '"' :: t.flatMap writeChar ++ ['"']

def escapeLetter? (c : Char) : Option Char :=
  if c = '\\' ∨ c = '/' ∨ c = '"' then some c
  else if c = 'b' then some '\x08'
  else if c = 'f' then some '\x0c'
  else if c = 'n' then some '\n'
  else if c = 'r' then some '\r'
  else if c = 't' then some '\t'
  else none

def unicode? (a b c d : Char) : Option Char := (Text.ofHex? [a, b, c, d]).bind Text.char?

/-- Reads behind an opening quote mark, up to the closing one: the content and the rest. -/
def readBody : Text → Option (Text × Text)
  | [] => none
  | '"' :: t => some ([], t)
  | '\\' :: 'u' :: a :: b :: c :: d :: t =>
    match unicode? a b c d with
    | some e => (readBody t).map fun (body, rest) => (e :: body, rest)
    | none => none
  | '\\' :: e :: t =>
    match escapeLetter? e with
    | some c => (readBody t).map fun (body, rest) => (c :: body, rest)
    | none => none
  | c :: t => if c = '\\' then none else (readBody t).map fun (body, rest) => (c :: body, rest)

def readFront : Text → Option (Text × Text)
  | '"' :: t => readBody t
  | _ => none

/-- Reads a text that is one literal, white space around it allowed. -/
def read (t : Text) : Option Text :=
  match readFront (Text.trimStart t) with
  | some (body, rest) => if rest.all Text.isBlank then some body else none
  | none => none

theorem readBody_length {t body rest : Text} (h : readBody t = some (body, rest)) :
    rest.length < t.length := by
  fun_induction readBody t generalizing body <;> simp_all <;> grind

end Quoted

end FilterQuery
