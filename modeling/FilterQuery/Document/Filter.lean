import FilterQuery.Expr
import FilterQuery.Json
set_option autoImplicit false

/-!
Expressions as filters of a document store. A value keeps its JSON type; an instant is an object
with its text.
-/

namespace FilterQuery.Document

mutual

def ofValue : Value → Json
  | .int n => .int n.toInt
  | .float x => if x.isFinite then .float x else .null
  | .bool b => .bool b
  | .text t => .text t
  | .time t => .single "$date".toList (.text t.write)
  | .null => .null
  | .list vs => .array (ofValueEach vs)

def ofValueEach : List Value → List Json
  | [] => []
  | v :: vs => ofValue v :: ofValueEach vs

end

def isSpecial (c : Char) : Bool := "\\.+*?()|[]\x7b\x7d^$#&-~".toList.contains c

def wildcardPiece (c : Char) : Text :=
  if c = '%' then ".*".toList
  else if c = '_' then ['.']
  else if isSpecial c then ['\\', c]
  else [c]

/-- A regex for the whole text that matches what a pattern with wildcards matches. -/
def wildcardRegex (pattern : Text) : Text := '^' :: pattern.flatMap wildcardPiece ++ ['$']

def comparisonKey : Comparison → Text
  | .eq => "$eq".toList
  | .neq => "$ne".toList
  | .gt => "$gt".toList
  | .gte => "$gte".toList
  | .lt => "$lt".toList
  | .lte => "$lte".toList

def regexKey : Text := "$regex".toList

def ofTest : Test → Json
  | .compare c v => .single (comparisonKey c) (ofValue v)
  | .pattern .like p => .single regexKey (.text (wildcardRegex p))
  | .pattern .ilike p =>
    .object [(regexKey, .text (wildcardRegex p)), ("$options".toList, .text ['i'])]
  | .pattern .regex p => .single regexKey (.text p)
  | .member n vs => .single (if n then "$nin".toList else "$in".toList) (.array (vs.map ofValue))
  | .between low high =>
    .object [("$gte".toList, ofValue low), ("$lte".toList, ofValue high)]
  | .null n => .single (comparisonKey (if n then .neq else .eq)) .null

def junctionKey : Junction → Text
  | .and => "$and".toList
  | .or => "$or".toList

mutual

def ofExpr : Expr → Json
  | .leaf f t => .single f (ofTest t)
  | .junction j es => .single (junctionKey j) (.array (ofExprEach es))
  | .not e => .single "$nor".toList (.array [ofExpr e])

def ofExprEach : List Expr → List Json
  | [] => []
  | e :: es => ofExpr e :: ofExprEach es

end

def conjunction? : List Expr → Option Json
  | [] => none
  | [e] => some (ofExpr e)
  | es => some (.single (junctionKey .and) (.array (es.map ofExpr)))

theorem ofExprEach_eq_map (es : List Expr) : ofExprEach es = es.map ofExpr := by
  induction es with
  | nil => rfl
  | cons e es ih => simp [ofExprEach, ih]

end FilterQuery.Document
