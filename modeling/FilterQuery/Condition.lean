import FilterQuery.Literal
import FilterQuery.Operator
import FilterQuery.Token
import FilterQuery.Node
import FilterQuery.Pattern.Engine
set_option autoImplicit false

/-!
Reading one comparison: a field, an operator and what the operator takes. White space may stand on
either side of the operator, so that up to three tokens, and more for sets and ranges, make one
comparison. `Condition.read` says which expression it is, if it is one, and what is left behind.
-/

namespace FilterQuery

namespace Condition

/-- The field named by the text before an operator; one that starts with a quote mark has to be
a quoted literal. -/
def fieldName? (t : Text) : Option Text :=
  match Text.trim t with
  | [] => none
  | c :: r => if c = '"' then (Quoted.read (c :: r)).filter (· ≠ []) else some (c :: r)

def regex? [Regex.Engine] (operand : Text) : Option Text :=
  (Literal.pattern? operand).filter Regex.Engine.accepts

/-- The expression of a comparison, none when the operand does not fit the operator. -/
def build [Regex.Engine] (o : Operator) (field operand : Text) : Option Expr :=
  match o with
  | .null n => some (.leaf field (.null n))
  | .pattern .regex => (regex? operand).map fun p => .leaf field (.pattern .regex p)
  | .pattern k => (Literal.pattern? operand).map fun p => .leaf field (.pattern k p)
  | .notLike => (Literal.pattern? operand).map fun p => .not (.leaf field (.pattern .like p))
  | .notRegex => (regex? operand).map fun p => .not (.leaf field (.pattern .regex p))
  | .member n => (Literal.set? operand).map fun vs => .leaf field (.member n vs)
  | .between => (Literal.range? operand).map fun (low, high) => .leaf field (.between low high)
  | .compare c => (Literal.scalar? operand).map fun v => .leaf field (.compare c v)

def bracketBalance (q : QuoteState) : Text → Int
  | [] => 0
  | c :: t =>
    (if q.structural c ∧ c = '[' then 1 else if q.structural c ∧ c = ']' then -1 else 0) +
      bracketBalance (q.next c) t

/-- Takes further tokens into a set until its brackets balance or a parenthesis stands in the
way. -/
def gatherList (taken rest : Text) : Text × Text :=
  if 0 < bracketBalance .outside taken then
    match h : Lexeme.next? rest with
    | none => (taken, rest)
    | some l =>
      if l.isGroupOpen || l.isGroupClose then (taken, rest)
      else
        have := Lexeme.length_rest_lt h
        gatherList (taken ++ l.gap ++ l.text) l.rest
  else (taken, rest)
termination_by rest.length

/-- The operand that starts with the given text: further tokens belong to it only in a set. -/
def operand (o : Operator) (taken rest : Text) : Text × Text :=
  if o.isSet then gatherList taken rest else (taken, rest)

def gatherGroup (depth : Nat) (taken rest : Text) : Text × Text :=
  match h : Lexeme.next? rest with
  | none => (taken, rest)
  | some l =>
    have := Lexeme.length_rest_lt h
    let depth :=
      if l.isGroupOpen then depth + 1 else if l.isGroupClose then depth - 1 else depth
    let taken := taken ++ l.gap ++ l.text
    if depth = 0 then (taken, l.rest) else gatherGroup depth taken l.rest
termination_by rest.length

def operandBehind (o : Operator) (rest : Text) : Option (Text × Text) :=
  match Lexeme.next? rest with
  | none => none
  | some l =>
    if l.isGroupOpen then
      if o.isSet || o == .between then some (gatherGroup 1 l.text l.rest) else none
    else if l.isGroupClose || (Keyword.ofText? l.text).isSome then none
    else some (operand o l.text l.rest)

/-- Reads a comparison whose operator has been found: the text before it, the text behind it in
the same token, and the text after that token. -/
def readAt [Regex.Engine] (o : Operator) (before after rest : Text) : Option Expr × Text :=
  match fieldName? before with
  | none => (none, rest)
  | some field =>
    if !o.takesValue then (build o field [], rest)
    else if after ≠ [] then
      let (operand, rest) := operand o after rest
      (build o field operand, rest)
    else
      match operandBehind o rest with
      | none => (none, rest)
      | some (operand, rest) => (build o field operand, rest)

/-- Reads the comparison that a token starts. The operator stands in the token or at the start of
the next one. -/
def read [Regex.Engine] (token rest : Text) : Option Expr × Text :=
  match Operator.find? token with
  | some (before, o, after) => readAt o before after rest
  | none =>
    match Lexeme.next? rest with
    | none => (none, rest)
    | some l =>
      match Operator.leadingSplit? l.text with
      | some (o, after) => readAt o token after l.rest
      | none => (none, rest)

theorem length_gatherList_le (taken rest : Text) :
    (gatherList taken rest).2.length ≤ rest.length := by
  fun_induction gatherList taken rest with
  | case1 => simp
  | case2 => simp
  | case3 taken rest _ l h _ hlt ih => exact Nat.le_trans ih (Nat.le_of_lt hlt)
  | case4 => simp

theorem length_operand_le (o : Operator) (taken rest : Text) :
    (operand o taken rest).2.length ≤ rest.length := by
  unfold operand
  split
  · exact length_gatherList_le taken rest
  · simp

theorem length_gatherGroup_le (depth : Nat) (taken rest : Text) :
    (gatherGroup depth taken rest).2.length ≤ rest.length := by
  fun_induction gatherGroup depth taken rest with
  | case1 => simp
  | case2 _ _ _ _ _ hlt => exact Nat.le_of_lt hlt
  | case3 _ _ _ _ _ hlt _ _ _ ih => exact Nat.le_trans ih (Nat.le_of_lt hlt)

theorem length_operandBehind_le {o : Operator} {rest operand left : Text}
    (h : operandBehind o rest = some (operand, left)) : left.length ≤ rest.length := by
  unfold operandBehind at h
  split at h
  · simp at h
  · rename_i l hl
    have hlt := Lexeme.length_rest_lt hl
    split at h
    · split at h
      · have := length_gatherGroup_le 1 l.text l.rest
        simp only [Option.some.injEq] at h
        rw [h] at this
        exact Nat.le_trans this (Nat.le_of_lt hlt)
      · simp at h
    · split at h
      · simp at h
      · have := length_operand_le o l.text l.rest
        simp only [Option.some.injEq] at h
        rw [h] at this
        exact Nat.le_trans this (Nat.le_of_lt hlt)

theorem length_readAt_le [Regex.Engine] (o : Operator) (before after rest : Text) :
    (readAt o before after rest).2.length ≤ rest.length := by
  unfold readAt
  split
  · simp
  · split
    · simp
    · split
      · exact length_operand_le o after rest
      · split
        · simp
        · rename_i h
          exact length_operandBehind_le h

theorem length_read_le [Regex.Engine] (token rest : Text) :
    (read token rest).2.length ≤ rest.length := by
  unfold read
  split
  · exact length_readAt_le ..
  · split
    · simp
    · rename_i l hl
      split
      · exact Nat.le_trans (length_readAt_le ..) (Nat.le_of_lt (Lexeme.length_rest_lt hl))
      · simp

end Condition

end FilterQuery
