import FilterQuery.Expr
set_option autoImplicit false

/-!
What one parenthesised level of filter text holds, and its meaning as an expression: `not` binds
tighter than `and`, and `and` tighter than `or`. Two operands with nothing between them are joined
by `and`; a keyword with nothing to combine is left out.
-/

namespace FilterQuery

inductive Keyword where
  | join (j : Junction)
  | not
  deriving DecidableEq, Repr

def Keyword.ofText? (t : Text) : Option Keyword :=
  if t = Junction.and.word then some (.join .and)
  else if t = Junction.or.word then some (.join .or)
  else if t = notWord then some .not
  else none

inductive Node where
  | leaf (e : Expr)
  | word (k : Keyword)
  | group (nodes : List Node)

/-- A node whose group has been assembled. -/
inductive Item where
  | operand (e : Expr)
  | word (k : Keyword)

namespace Item

/-- Wraps the operand behind each `not`, from right to left; one without operand goes. -/
def applyNot : List Item → List Item
  | [] => []
  | .word .not :: items =>
    match applyNot items with
    | .operand e :: rest => .operand (.not e) :: rest
    | rest => rest
  | item :: items => item :: applyNot items

/-- The operands, each with the first junction word since the operand before it. -/
def links (pending : Option Junction) : List Item → List (Junction × Expr)
  | [] => []
  | .operand e :: items => (pending.getD .and, e) :: links none items
  | .word (.join j) :: items => links (pending.or (some j)) items
  | .word .not :: items => links pending items

def runs (current : Expr) : List (Junction × Expr) → List Expr
  | [] => [current]
  | (.and, e) :: rest => runs (.junction .and [current, e]) rest
  | (.or, e) :: rest => current :: runs e rest

def joinOr : List Expr → Option Expr
  | [] => none
  | e :: es => some (es.foldl (fun l r => .junction .or [l, r]) e)

def assemble (items : List Item) : Option Expr :=
  match links none (applyNot items) with
  | [] => none
  | (_, e) :: rest => joinOr (runs e rest)

end Item

namespace Node

mutual

def item? : Node → Option Item
  | .leaf e => some (.operand e)
  | .word k => some (.word k)
  | .group nodes => (Item.assemble (items nodes)).map .operand

def items : List Node → List Item
  | [] => []
  | n :: nodes =>
    match item? n with
    | some i => i :: items nodes
    | none => items nodes

end

def assemble (nodes : List Node) : Option Expr := Item.assemble (items nodes)

end Node

end FilterQuery
