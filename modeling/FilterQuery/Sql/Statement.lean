import FilterQuery.Sql.Fragment
import FilterQuery.Sql.Dialect
import FilterQuery.Part
import FilterQuery.Policy
set_option autoImplicit false

/-!
Plans as SQL statements: the condition of an expression, and each part of a `SELECT` statement
over a table.
-/

namespace FilterQuery.Sql

def comparisonOperator : Comparison → Text
  | .eq => "=".toList
  | .neq => "<>".toList
  | .gt => ">".toList
  | .gte => ">=".toList
  | .lt => "<".toList
  | .lte => "<=".toList

def likeOperator : Text := "LIKE".toList

/-- How conditions are written: the dialect, the operator for regex matches, and the relation
that qualifies every field. -/
structure Style where
  dialect : Dialect
  regexOperator : Text
  relation : Option Text

def Style.field (s : Style) (name : Text) : Fragment :=
  .atom (match s.relation with
    | some r => s.dialect.column r name
    | none => s.dialect.field name)

def Style.leaf (s : Style) (field : Text) : Test → Fragment
  | .compare .eq .null => (s.field field).null false
  | .compare .neq .null => (s.field field).null true
  | .compare c v => (s.field field).comparison (comparisonOperator c) (.placeholder v)
  | .pattern .like p => (s.field field).comparison likeOperator (.placeholder (.text p))
  | .pattern .ilike p =>
    (s.field field).lower.comparison likeOperator (Fragment.placeholder (.text p)).lower
  | .pattern .regex p => (s.field field).comparison s.regexOperator (.placeholder (.text p))
  | .member n vs => (s.field field).member n vs
  | .between low high => (s.field field).between (.placeholder low) (.placeholder high)
  | .null n => (s.field field).null n

def junctionWord : Junction → Text
  | .and => Fragment.andWord
  | .or => Fragment.orWord

mutual

def Style.condition (s : Style) : Expr → Fragment
  | .leaf f t => s.leaf f t
  | .junction j es => Fragment.conditions (junctionWord j) (Style.conditionEach s es)
  | .not e => (Style.condition s e).not

def Style.conditionEach (s : Style) : List Expr → List Fragment
  | [] => []
  | e :: es => Style.condition s e :: Style.conditionEach s es

end

def Style.preload (s : Style) (relation : Text) (es : List Expr) : Fragment :=
  Fragment.conditions Fragment.andWord (Style.conditionEach { s with relation := some relation } es)

def Style.joinOf (s : Style) (relation : Text) (es : List Expr) : Fragment :=
  let condition := s.preload relation es
  .spaced [.atom ("JOIN ".toList ++ s.dialect.identifier relation ++ " ON".toList),
    if condition.isEmpty then .always else condition]

def Style.fields (s : Style) (names : List Text) : Text :=
  Text.join ", ".toList (names.map s.dialect.field)

def directionWord : Direction → Text
  | .asc => "ASC".toList
  | .desc => "DESC".toList

def Style.sortKey (s : Style) (k : SortKey) : Text :=
  s.dialect.field k.field ++ ' ' :: directionWord k.direction

/-- A keyword and what it governs, unless there is nothing. -/
def clause (word : String) (present : Bool) (body : Text) : Fragment :=
  if present then .atom (word.toList ++ ' ' :: body) else .empty

def Style.part (s : Style) (table : Text) (p : Plan) : Part → Fragment
  | .columns =>
    if p.selected.isEmpty then .atom "SELECT *".toList
    else .atom ("SELECT ".toList ++ s.fields p.selected)
  | .source => .atom ("FROM ".toList ++ s.dialect.identifier table)
  | .joins => .spaced (p.request.preloads.map fun (r, es) => s.joinOf r es)
  | .filter =>
    match p.request.filter.map s.condition with
    | some f => if f.isEmpty then .empty else .spaced [.atom "WHERE".toList, f]
    | none => .empty
  | .groups => clause "GROUP BY" (!p.groupBy.isEmpty) (s.fields p.groupBy)
  | .order =>
    clause "ORDER BY" (!p.request.sort.isEmpty)
      (Text.join ", ".toList (p.request.sort.map s.sortKey))
  | .limit => clause "LIMIT" (0 < p.request.page.take) (Text.ofNat p.request.page.take)
  | .offset => clause "OFFSET" (0 < p.request.page.skip) (Text.ofNat p.request.page.skip)
  | .find => .empty
  | .aggregate => .empty
  | .unknown _ => .empty

def Style.statement (s : Style) (table : Text) (p : Plan) (parts : List Part) : Fragment :=
  .spaced (parts.map (s.part table p))

theorem Style.conditionEach_eq_map (s : Style) (es : List Expr) :
    Style.conditionEach s es = es.map s.condition := by
  induction es with
  | nil => rfl
  | cons e es ih => simp [Style.conditionEach, ih]

end FilterQuery.Sql
