import FilterQuery.Expr
set_option autoImplicit false

/-!
The comparison operators of filter text and where a text holds the first of them: at the least
structural place where any symbol starts, and there the first in the table.
-/

namespace FilterQuery

/-- An operator. The negated patterns stand for a negation of the plain ones. -/
inductive Operator where
  | compare (c : Comparison)
  | pattern (k : PatternKind)
  | notLike
  | notRegex
  | member (negated : Bool)
  | between
  | null (negated : Bool)
  deriving DecidableEq, Repr

namespace Operator

def symbol : Operator → Text
  | .compare c => c.symbol
  | .pattern k => k.symbol
  | .notLike => "!=^".toList
  | .notRegex => "!=~".toList
  | .member n => memberSymbol n
  | .between => betweenSymbol
  | .null n => nullSymbol n

/-- Every operator. Where two symbols start at one place, the earlier operator is meant. -/
def table : List Operator :=
  [.notRegex, .pattern .regex, .notLike, .pattern .ilike, .pattern .like, .member true,
    .member false, .between, .null true, .null false, .compare .gte, .compare .lte, .compare .neq,
    .compare .gt, .compare .lt, .compare .eq]

def takesValue : Operator → Bool
  | .null _ => false
  | _ => true

def isSet : Operator → Bool
  | .member _ => true
  | _ => false

def leading? (t : Text) : Option Operator := table.find? fun o => o.symbol.isPrefixOf t

def findFrom (q : QuoteState) : Text → Option (Text × Operator × Text)
  | [] => none
  | c :: t =>
    match (if q.structural c then leading? (c :: t) else none) with
    | some o => some ([], o, (c :: t).drop o.symbol.length)
    | none => (findFrom (q.next c) t).map fun (before, o, after) => (c :: before, o, after)

def find? (t : Text) : Option (Text × Operator × Text) := findFrom .outside t

def leadingSplit? (t : Text) : Option (Operator × Text) :=
  (leading? t).map fun o => (o, t.drop o.symbol.length)

end Operator

end FilterQuery
