import FilterQuery.Json
import FilterQuery.Request
import FilterQuery.Time.Reader
set_option autoImplicit false

/-!
Values, expressions and requests as JSON: every variant is an object whose only key is its tag.
-/

namespace FilterQuery

def tag (name : String) (x : Json) : Json := .single name.toList x

mutual

def Value.toJson : Value → Json
  | .int n => tag "Int" (.int n.toInt)
  | .float x => tag "Float" (.float x)
  | .bool b => tag "Bool" (.bool b)
  | .text t => tag "String" (.text t)
  | .time t => tag "Timestamp" (.text t.write)
  | .null => .text "Null".toList
  | .list vs => tag "List" (.array (Value.toJsonEach vs))

def Value.toJsonEach : List Value → List Json
  | [] => []
  | v :: vs => v.toJson :: Value.toJsonEach vs

end

def Comparison.tagName : Comparison → String
  | .eq => "Eq"
  | .neq => "Neq"
  | .gt => "Gt"
  | .gte => "Gte"
  | .lt => "Lt"
  | .lte => "Lte"

def PatternKind.tagName : PatternKind → String
  | .like => "Like"
  | .ilike => "ILike"
  | .regex => "Regex"

def leafJson (field : Text) : Test → Json
  | .compare c v => entry c.tagName [("value", v.toJson)]
  | .pattern k p => entry k.tagName [("pattern", .text p)]
  | .member n vs => entry (if n then "NotIn" else "In") [("values", .array (vs.map Value.toJson))]
  | .between low high => entry "Between" [("low", low.toJson), ("high", high.toJson)]
  | .null n => entry (if n then "NotNull" else "IsNull") []
where
  entry (name : String) (parts : List (String × Json)) : Json :=
    tag name (.object (("field".toList, .text field) :: parts.map fun (k, x) => (k.toList, x)))

mutual

def Expr.toJson : Expr → Json
  | .leaf f t => leafJson f t
  | .junction .and es => tag "And" (.array (Expr.toJsonEach es))
  | .junction .or es => tag "Or" (.array (Expr.toJsonEach es))
  | .not e => tag "Not" (Expr.toJson e)

def Expr.toJsonEach : List Expr → List Json
  | [] => []
  | e :: es => Expr.toJson e :: Expr.toJsonEach es

end

def SortKey.toJson (k : SortKey) : Json :=
  .object [("field".toList, .text k.field),
    ("direction".toList, .text (match k.direction with
      | .asc => "Asc".toList
      | .desc => "Desc".toList))]

def Page.toJson (p : Page) : Json :=
  .object [("skip".toList, .int p.skip), ("take".toList, .int p.take)]

def filterJson : Option Expr → Json
  | some e => e.toJson
  | none => .null

def Preloads.toJson (ps : Preloads) : Json :=
  .object (ps.map fun (r, es) => (r, .array (es.map Expr.toJson)))

def Request.toFields (r : Request) : List (Text × Json) :=
  [("filter".toList, filterJson r.filter), ("sort".toList, .array (r.sort.map SortKey.toJson)),
    ("page".toList, r.page.toJson), ("preloads".toList, r.preloads.toJson)]

def Request.toJson (r : Request) : Json := .object r.toFields

/-! Reading. -/

namespace TreeReader

/-- The tag of a variant and what it carries; a bare text is a tag that carries null. -/
def variant? : Json → Option (Text × Json)
  | .text t => some (t, .null)
  | .object [(k, x)] => some (k, x)
  | _ => none

/-- The parts of a record by name, or by place in a list of just these. -/
def parts? (names : List String) : Json → Option (List Json)
  | .array xs => if xs.length = names.length then some xs else none
  | .object fields => names.mapM fun n => fields.lookup n.toList
  | _ => none

def int64? : Json → Option Int64
  | .int n => if -9223372036854775808 ≤ n ∧ n < 9223372036854775808 then some (Int64.ofInt n) else none
  | _ => none

def natural? : Json → Option Nat
  | .int n => if 0 ≤ n ∧ n < 18446744073709551616 then some n.toNat else none
  | _ => none

/-- A float; `words` admits the names of numbers that are not finite. -/
def float? (words : Bool) : Json → Option Binary64
  | .float x => some x
  | .int n => some (Binary64.ofRatio (n < 0) n.natAbs 1)
  | .text t =>
    if words ∧ t = "NaN".toList then some .nan
    else if words ∧ t = "inf".toList then some (.infinite false)
    else if words ∧ t = "-inf".toList then some (.infinite true)
    else none
  | _ => none

mutual

def value? (words : Bool) : Json → Option Value
  | .text t => if t = "Null".toList then some .null else none
  | .object [(k, x)] =>
    match x with
    | .array xs => if k = "List".toList then (valueEach? words xs).map .list else none
    | x =>
      if k = "Int".toList then (int64? x).map .int
      else if k = "Float".toList then (float? words x).map .float
      else if k = "Bool".toList then x.bool?.map .bool
      else if k = "String".toList then x.text?.map .text
      else if k = "Timestamp".toList then (x.text?.bind Timestamp.readLoose).map .time
      else if k = "Null".toList ∧ x.isNull then some .null
      else none
  | _ => none

def valueEach? (words : Bool) : List Json → Option (List Value)
  | [] => some []
  | x :: xs => do
    let v ← value? words x
    some (v :: (← valueEach? words xs))

end

def values? (x : Json) : Option (List Value) := x.array?.bind (valueEach? false)

def comparison? (t : Text) : Option Comparison :=
  [Comparison.eq, .neq, .gt, .gte, .lt, .lte].find? fun c => c.tagName.toList == t

def patternKind? (t : Text) : Option PatternKind :=
  [PatternKind.like, .ilike, .regex].find? fun k => k.tagName.toList == t

def leaf? (k : Text) (x : Json) : Option Expr :=
  match comparison? k with
  | some c => do
    match ← parts? ["field", "value"] x with
    | [f, v] => some (.leaf (← f.text?) (.compare c (← value? false v)))
    | _ => none
  | none =>
    match patternKind? k with
    | some p => do
      match ← parts? ["field", "pattern"] x with
      | [f, t] => some (.leaf (← f.text?) (.pattern p (← t.text?)))
      | _ => none
    | none =>
      if k = "In".toList ∨ k = "NotIn".toList then do
        match ← parts? ["field", "values"] x with
        | [f, vs] => some (.leaf (← f.text?) (.member (k == "NotIn".toList) (← values? vs)))
        | _ => none
      else if k = "Between".toList then do
        match ← parts? ["field", "low", "high"] x with
        | [f, low, high] =>
          some (.leaf (← f.text?) (.between (← value? false low) (← value? false high)))
        | _ => none
      else if k = "IsNull".toList ∨ k = "NotNull".toList then do
        match ← parts? ["field"] x with
        | [f] => some (.leaf (← f.text?) (.null (k == "NotNull".toList)))
        | _ => none
      else none

mutual

def expr? : Json → Option Expr
  | .object [(k, x)] =>
    if k = "Not".toList then (expr? x).map .not
    else
      match x with
      | .array xs =>
        if k = "And".toList then (exprEach? xs).map (.junction .and)
        else if k = "Or".toList then (exprEach? xs).map (.junction .or)
        else leaf? k (.array xs)
      | x => leaf? k x
  | _ => none

def exprEach? : List Json → Option (List Expr)
  | [] => some []
  | x :: xs => do
    let e ← expr? x
    some (e :: (← exprEach? xs))

end

def direction? (x : Json) : Option Direction :=
  match variant? x with
  | some (k, .null) =>
    if k = "Asc".toList then some .asc else if k = "Desc".toList then some .desc else none
  | _ => none

def sortKey? (x : Json) : Option SortKey := do
  match ← parts? ["field", "direction"] x with
  | [f, d] => some ⟨← f.text?, ← direction? d⟩
  | _ => none

def page? (x : Json) : Option Page := do
  match ← parts? ["skip", "take"] x with
  | [s, t] => some ⟨← natural? s, ← natural? t⟩
  | _ => none

end TreeReader

end FilterQuery
