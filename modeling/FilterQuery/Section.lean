import FilterQuery.Request
import FilterQuery.Number.Numeral
set_option autoImplicit false

/-!
The sections of filter text beside the filter: `sort=` and `page=` with entries `key` or
`key:value`, and `load=[...]` with relations and filter texts.
-/

namespace FilterQuery

/-- An entry of a `sort=` or `page=` section. -/
structure Entry where
  key : Text
  value : Option Text
  deriving DecidableEq, Repr

namespace Entry

def inWord (c : Char) : Bool := !Text.isBlank c && c != '"' && c != ':' && c != ','

def readWord (t : Text) : Option (Text × Text) :=
  let word := t.takeWhile inWord
  if word = [] then none else some (word, t.dropWhile inWord)

def readValue : Text → Option Text × Text
  | ':' :: t =>
    match readWord t with
    | some (value, rest) => (some value, rest)
    | none => (none, ':' :: t)
  | t => (none, t)

def read (t : Text) : Option Entry :=
  match readWord (Text.trimStart t) with
  | some (key, rest) =>
    let (value, rest) := readValue rest
    if rest.all Text.isBlank then some ⟨key, value⟩ else none
  | none => none

def readAll (body : Text) : List Entry :=
  ((body.splitOn ',').filter fun t => !t.all Text.isBlank).filterMap read

def sortKey? (e : Entry) : Option SortKey :=
  match e.value with
  | none => some ⟨e.key, .asc⟩
  | some word => (Direction.ofWord? word).map fun d => ⟨e.key, d⟩

def apply (p : Page) (e : Entry) : Page :=
  match e.value.bind readInt64 with
  | none => p
  | some n =>
    if Text.sameLetters e.key "skip".toList then { p with skip := n.toInt.toNat }
    else if Text.sameLetters e.key "take".toList then { p with take := n.toInt.toNat }
    else p

end Entry

def readSort (body : Text) : List SortKey := (Entry.readAll body).filterMap Entry.sortKey?

/-- Puts the entries of a `page=` section into a page; keys that are absent keep their numbers. -/
def applyPage (p : Page) (body : Text) : Page := (Entry.readAll body).foldl Entry.apply p

structure LoadSection where
  relation : Text
  filter : Option Text
  deriving DecidableEq, Repr

namespace LoadSection

def nesting (q : QuoteState) (depth : Nat) (c : Char) : Nat :=
  if q.structural c ∧ (c = '[' ∨ c = '(') then depth + 1
  else if q.structural c ∧ (c = ']' ∨ c = ')') then depth - 1
  else depth

/-- The parts of a text between structural separators outside all brackets and parentheses. -/
def splitTop (separator : Char) : QuoteState → Nat → Text → List Text
  | _, _, [] => [[]]
  | q, depth, c :: t =>
    if q.structural c ∧ c = separator ∧ depth = 0 then
      [] :: splitTop separator (q.next c) depth t
    else
      (splitTop separator (q.next c) (nesting q depth c) t).modifyHead (c :: ·)

def read (t : Text) : Option LoadSection :=
  let t := Text.trim t
  let (relation, filter) :=
    match findUnquoted [':'] .outside t with
    | some (relation, filter) => (Text.trim relation, some (Text.trim filter))
    | none => (t, none)
  if relation = [] then none else some ⟨relation, filter.filter (· ≠ [])⟩

def readAll (body : Text) : List LoadSection := (splitTop '|' .outside 0 body).filterMap read

/-- The nesting of brackets alone behind a character. -/
def bracketNesting (q : QuoteState) (depth : Nat) (c : Char) : Nat :=
  if q.structural c ∧ c = '[' then depth + 1
  else if q.structural c ∧ c = ']' then depth - 1
  else depth

/-- Cuts a text inside `depth` open brackets behind the one that closes the outermost of them:
the text before that bracket and the rest. -/
def cutBlock (q : QuoteState) (depth : Nat) : Text → Option (Text × Text)
  | [] => none
  | c :: t =>
    if q.structural c ∧ c = ']' ∧ depth ≤ 1 then some ([], t)
    else
      (cutBlock (q.next c) (bracketNesting q depth c) t).map fun (body, rest) => (c :: body, rest)

def cut (t : Text) : Option (Text × Text) := cutBlock .outside 1 t

theorem length_cutBlock_le {q : QuoteState} {depth : Nat} {t body rest : Text}
    (h : cutBlock q depth t = some (body, rest)) : rest.length < t.length := by
  induction t generalizing q depth body with
  | nil => simp [cutBlock] at h
  | cons c t ih =>
    rw [cutBlock] at h
    split at h
    · cases h
      simp
    · obtain ⟨⟨b, r⟩, hb, he⟩ := Option.map_eq_some_iff.1 h
      cases he
      exact Nat.lt_succ_of_lt (ih hb)

end LoadSection

end FilterQuery
