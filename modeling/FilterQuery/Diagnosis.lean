import FilterQuery.Problem
import FilterQuery.Outline
set_option autoImplicit false

/-!
The structural faults of filter text: literals and brackets that are not closed or do not match,
and operators with nothing before or behind them. `Diagnosis.faults` lists all of them by place;
`Diagnosis.problems` words them.
-/

namespace FilterQuery

/-- The first token of a text, where a load block with its brackets counts as one token. -/
def Lexeme.nextClause? (t : Text) : Option Lexeme :=
  match Lexeme.next? t with
  | none => none
  | some l =>
    match loadMark.isPrefixOf? l.text with
    | none => some l
    | some body =>
      match LoadSection.cut (body ++ l.rest) with
      | some (block, rest) => some ⟨l.gap, loadMark ++ block ++ [']'], rest⟩
      | none => some ⟨l.gap, l.text ++ l.rest, []⟩

/-- What a clause can be that a token starts: the token, the load block that the token opens, or
all that is behind the token where nothing closes the block. -/
inductive Lexeme.Starts (k : Lexeme) : Lexeme → Prop where
  | token (hmark : loadMark.isPrefixOf? k.text = none) : Starts k k
  | block {body block rest : Text} (hmark : loadMark.isPrefixOf? k.text = some body)
      (hcut : LoadSection.cut (body ++ k.rest) = some (block, rest)) :
      Starts k ⟨k.gap, loadMark ++ block ++ [']'], rest⟩
  | unclosed {body : Text} (hmark : loadMark.isPrefixOf? k.text = some body)
      (hcut : LoadSection.cut (body ++ k.rest) = none) : Starts k ⟨k.gap, k.text ++ k.rest, []⟩

namespace LoadSection

theorem append_of_cutBlock {q : QuoteState} {depth : Nat} {t body rest : Text}
    (h : cutBlock q depth t = some (body, rest)) : body ++ ']' :: rest = t := by
  induction t generalizing q depth body with
  | nil => simp [cutBlock] at h
  | cons c t ih =>
    simp only [cutBlock] at h
    split at h
    · rename_i hc
      cases h
      simp [hc.2.1]
    · obtain ⟨⟨b, r⟩, hb, he⟩ := Option.map_eq_some_iff.1 h
      cases he
      simp [ih hb]

end LoadSection

namespace Lexeme

theorem starts_of_nextClause? {t : Text} {l : Lexeme} (h : nextClause? t = some l) :
    ∃ k, next? t = some k ∧ k.Starts l := by
  simp only [nextClause?] at h
  split at h
  · cases h
  · rename_i k hk
    refine ⟨k, hk, ?_⟩
    split at h
    · rename_i hmark
      cases h
      exact .token hmark
    · rename_i body hmark
      split at h
      · rename_i hcut
        cases h
        exact .block hmark hcut
      · rename_i hcut
        cases h
        exact .unclosed hmark hcut

/-- Nothing is lost between a text and its first clause. -/
theorem append_of_nextClause? {t : Text} {l : Lexeme} (h : nextClause? t = some l) :
    l.gap ++ l.text ++ l.rest = t := by
  obtain ⟨k, hk, hstarts⟩ := starts_of_nextClause? h
  rw [← append_of_next? hk]
  cases hstarts with
  | token _ => rfl
  | block hmark hcut =>
    rw [← Text.append_of_isPrefixOf? hmark]
    simp [← LoadSection.append_of_cutBlock hcut]
  | unclosed _ _ => simp

theorem nextClause?_text_ne_nil {t : Text} {l : Lexeme} (h : nextClause? t = some l) :
    l.text ≠ [] := by
  obtain ⟨k, hk, hstarts⟩ := starts_of_nextClause? h
  have hne := text_ne_nil hk
  cases hstarts with
  | token _ => exact hne
  | block _ _ => simp
  | unclosed _ _ => simp [hne]

theorem length_nextClause?_rest_lt {t : Text} {l : Lexeme} (h : nextClause? t = some l) :
    l.rest.length < t.length := by
  have happ := congrArg List.length (append_of_nextClause? h)
  have := List.length_pos_iff.2 (nextClause?_text_ne_nil h)
  simp only [List.length_append] at happ
  omega

def clauses (t : Text) : List Lexeme :=
  match h : nextClause? t with
  | none => []
  | some l =>
    have := length_nextClause?_rest_lt h
    l :: clauses l.rest
termination_by t.length

def tokens (offset : Nat) : List Lexeme → List Token
  | [] => []
  | l :: ls => l.token offset :: tokens (l.token offset).stop ls

def junction? (l : Lexeme) : Option Junction :=
  match Keyword.ofText? l.text with
  | some (.join j) => some j
  | _ => none

def isDanglingNot (l : Lexeme) (next : Option Lexeme) : Bool :=
  l.text == notWord &&
    match next with
    | none => true
    | some n => n.junction?.isSome || n.isGroupClose

/-- The symbol a token ends with that still lacks its operand. -/
def trailingSymbol? (l : Lexeme) : Option Text :=
  if (Keyword.ofText? l.text).isSome then some l.text
  else
    match Operator.find? l.text with
    | some (_, o, []) => if o.takesValue then some o.symbol else none
    | _ => none

def leadingFault? : List Lexeme → Option Fault
  | [] => none
  | l :: ls =>
    match l.junction? with
    | some j => some (.leadingJunction j)
    | none => if l.isDanglingNot ls.head? then some .danglingNot else none

def trailingFault? (l : Lexeme) : Option Fault :=
  l.trailingSymbol?.map fun s =>
    if l.text = sortMark ∨ l.text = pageMark then .emptySection l.text else .trailingOperator s

end Lexeme

namespace Diagnosis

/-- The literals and brackets of a text that are not closed or do not match. Carried along are
the offset, the open brackets and the place where the open literal starts. -/
def delimiterFaults (q : QuoteState) (offset : Nat) (opened : List (Bracket × Nat))
    (literal : Nat) : Text → List (Nat × Fault)
  | [] =>
    (if q = .outside then [] else [(literal, .openLiteral)]) ++
      opened.reverse.map fun (b, place) => (place, .unclosed b)
  | c :: t =>
    let next := fun opened' literal' =>
      delimiterFaults (q.next c) (offset + c.utf8Size) opened' literal' t
    if q = .outside ∧ c = '"' then next opened offset
    else if q.structural c then
      match Bracket.ofOpening? c, Bracket.ofClosing? c with
      | some b, _ => next ((b, offset) :: opened) literal
      | none, none => next opened literal
      | none, some b =>
        match opened with
        | [] => (offset, .unmatchedClose b) :: next opened literal
        | (o, _) :: outer =>
          if o = b then next outer literal
          else (offset, .mismatchedClose o b) :: next opened literal
    else next opened literal

def operatorFaults (t : Text) : List (Nat × Fault) :=
  let clauses := Lexeme.clauses t
  let tokens := Lexeme.tokens 0 clauses
  let leading := Lexeme.leadingFault? clauses
  let trailing :=
    if clauses.length = 1 ∧ leading.isSome then none
    else clauses.getLast?.bind Lexeme.trailingFault?
  let place := fun (l : Option Token) => (l.map Token.start).getD 0
  (leading.map fun f => (place tokens.head?, f)).toList ++
    (trailing.map fun f => (place tokens.getLast?, f)).toList

def faults (t : Text) : List (Nat × Fault) :=
  (delimiterFaults .outside 0 [] 0 t ++ operatorFaults t).mergeSort fun a b => a.1 ≤ b.1

def problems (t : Text) : List Problem := (faults t).map fun (place, f) => .ofFault t place f

def first? (t : Text) : Option Problem := (problems t).head?

def isValid (t : Text) : Bool := (faults t).isEmpty

end Diagnosis

end FilterQuery
