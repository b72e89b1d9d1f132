import FilterQuery.Value
set_option autoImplicit false

/-!
Filter expressions: leaves that test one field, junctions of any number of operands, and
negations. `Expr.prune` removes leaves by their field and `Expr.write` writes filter text.
-/

namespace FilterQuery

inductive Comparison where
  | eq
  | neq
  | gt
  | gte
  | lt
  | lte
  deriving DecidableEq, Repr

def Comparison.symbol : Comparison → Text
  | .eq => "=".toList
  | .neq => "!=".toList
  | .gt => ">".toList
  | .gte => ">=".toList
  | .lt => "<".toList
  | .lte => "<=".toList

/-- How a pattern is read: with wildcards, the same in any letter case, or as a regex. -/
inductive PatternKind where
  | like
  | ilike
  | regex
  deriving DecidableEq, Repr

def PatternKind.symbol : PatternKind → Text
  | .like => "=^".toList
  | .ilike => ".=^".toList
  | .regex => "=~".toList

/-- What a leaf asks of its field. -/
inductive Test where
  | compare (c : Comparison) (v : Value)
  | pattern (k : PatternKind) (p : Text)
  | member (negated : Bool) (vs : List Value)
  | between (low high : Value)
  | null (negated : Bool)

def memberSymbol (negated : Bool) : Text := if negated then "<nin>".toList else "<in>".toList

def nullSymbol (negated : Bool) : Text := if negated then "<notnull>".toList else "<null>".toList

def betweenSymbol : Text := "<bet>".toList

def rangeMark : Text := "..".toList

def Test.write : Test → Text
  | .compare c v => c.symbol ++ v.write
  | .pattern k p => k.symbol ++ Quoted.write p
  | .member n vs => memberSymbol n ++ (Value.list vs).write
  | .between low high => betweenSymbol ++ low.write ++ rangeMark ++ high.write
  | .null n => nullSymbol n

def Test.same : Test → Test → Bool
  | .compare c v, .compare d w => c == d && v.same w
  | .pattern k p, .pattern l q => k == l && p == q
  | .member n vs, .member m ws => n == m && Value.sameEach vs ws
  | .between a b, .between c d => a.same c && b.same d
  | .null n, .null m => n == m
  | _, _ => false

inductive Junction where
  | and
  | or
  deriving DecidableEq, Repr

def Junction.word : Junction → Text
  | .and => "and".toList
  | .or => "or".toList

def notWord : Text := "not".toList

inductive Expr where
  | leaf (field : Text) (test : Test)
  | junction (j : Junction) (operands : List Expr)
  | not (operand : Expr)

namespace Expr

/-- A junction of the operands; fewer than two need none. -/
def combine (j : Junction) : List Expr → Option Expr
  | [] => none
  | [e] => some e
  | es => some (.junction j es)

def field? : Expr → Option Text
  | .leaf f _ => some f
  | _ => none

mutual

def leaves : Expr → List (Text × Test)
  | .leaf f t => [(f, t)]
  | .junction _ es => leavesEach es
  | .not e => leaves e

def leavesEach : List Expr → List (Text × Test)
  | [] => []
  | e :: es => leaves e ++ leavesEach es

end

def fields (e : Expr) : List Text := e.leaves.map Prod.fst

def leafCount (e : Expr) : Nat := e.leaves.length

mutual

/-- Keeps the leaves whose field passes. Junctions left with no operand and negations of nothing
go, and a junction left with one operand becomes that operand. -/
def prune (keep : Text → Bool) : Expr → Option Expr
  | .leaf f t => if keep f then some (.leaf f t) else none
  | .junction j es => combine j (pruneEach keep es)
  | .not e => (prune keep e).map .not

def pruneEach (keep : Text → Bool) : List Expr → List Expr
  | [] => []
  | e :: es =>
    match prune keep e with
    | some e => e :: pruneEach keep es
    | none => pruneEach keep es

end

mutual

def rename (name : Text → Text) : Expr → Expr
  | .leaf f t => .leaf (name f) t
  | .junction j es => .junction j (renameEach name es)
  | .not e => .not (rename name e)

def renameEach (name : Text → Text) : List Expr → List Expr
  | [] => []
  | e :: es => rename name e :: renameEach name es

end

mutual

def write : Expr → Text
  | .leaf f t => f ++ t.write
  | .junction j es => '(' :: Text.join (' ' :: j.word ++ [' ']) (writeEach es) ++ [')']
  | .not e => notWord ++ " (".toList ++ write e ++ [')']

def writeEach : List Expr → List Text
  | [] => []
  | e :: es => write e :: writeEach es

end

mutual

def same : Expr → Expr → Bool
  | .leaf f t, .leaf g u => f == g && t.same u
  | .junction j es, .junction k fs => j == k && sameEach es fs
  | .not e, .not f => same e f
  | _, _ => false

def sameEach : List Expr → List Expr → Bool
  | [], [] => true
  | e :: es, f :: fs => same e f && sameEach es fs
  | _, _ => false

end

theorem writeEach_eq_map (es : List Expr) : writeEach es = es.map write := by
  induction es with
  | nil => rfl
  | cons e es ih => simp [writeEach, ih]

theorem renameEach_eq_map (name : Text → Text) (es : List Expr) :
    renameEach name es = es.map (rename name) := by
  induction es with
  | nil => rfl
  | cons e es ih => simp [renameEach, ih]

theorem pruneEach_eq_filterMap (keep : Text → Bool) (es : List Expr) :
    pruneEach keep es = es.filterMap (prune keep) := by
  induction es with
  | nil => rfl
  | cons e es ih => cases h : prune keep e <;> simp [pruneEach, ih, h]

theorem leavesEach_eq_flatMap (es : List Expr) : leavesEach es = es.flatMap leaves := by
  induction es with
  | nil => rfl
  | cons e es ih => simp [leavesEach, ih]

end Expr

end FilterQuery
