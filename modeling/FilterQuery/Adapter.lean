import FilterQuery.Failure
import FilterQuery.Sql.Statement
import FilterQuery.Sql.Explain
import FilterQuery.Document.Query
set_option autoImplicit false

/-!
Adapters render plans against a target. Whatever answers may be one; those at hand render SQL with
placeholders in one of the dialects, or a query of a document store, and fail only for want of a
table or collection.
-/

namespace FilterQuery

/-- A rendered query. The parts of a document query are one object, keyed by their tags. -/
inductive Query where
  | sql (text : Text) (args : List Value)
  | document (collection : Text) (parts : Json)

namespace Query

def text : Query → Text
  | sql t _ => t
  | document _ parts => parts.write

def explained (d : Sql.Dialect) : Query → Text
  | sql t args => Sql.inline d t args
  | document _ parts => parts.write

end Query

/-- The table or collection to query, and the collections of relations that have another name. -/
structure Target where
  table : Option Text
  collections : List (Text × Text)
  deriving DecidableEq, Repr

def Target.collectionOf (t : Target) (relation : Text) : Text :=
  (t.collections.lookup relation).getD relation

/-- What comes of the shared regex operator, a plan, a target, and the parts that are asked for, the
usual ones if there is no list of them. -/
abbrev Renderer (α : Type) := Text → Plan → Target → Option (List Part) → Except Failure α

structure Adapter where
  name : Text
  text : Renderer Text
  query : Renderer Query
  explanation : Renderer Text := text

namespace Adapter

def style (d : Sql.Dialect) (own : Option Text) (shared : Text) : Sql.Style :=
  ⟨d, own.getD (d.regexOperator shared), none⟩

def table? (t : Target) : Option Text := t.table.filter (· ≠ [])

def statement (d : Sql.Dialect) (own : Option Text) : Renderer Query :=
  fun shared p target parts =>
    match table? target with
    | some table =>
      let f := (style d own shared).statement table p (parts.getD Part.statement)
      .ok (.sql f.content f.args)
    | none => .error .noTable

def sql (name : Text) (d : Sql.Dialect) (own : Option Text) : Adapter where
  name := name
  text shared p target parts := (statement d own shared p target parts).map Query.text
  query := statement d own
  explanation shared p target parts :=
    (statement d own shared p target parts).map (Query.explained d)

def ofDialect (d : Sql.Dialect) (own : Option Text) : Adapter := sql d.name d own

def documents : Renderer Query :=
  fun _ p target parts =>
    match table? target with
    | some collection =>
      .ok (.document collection (Document.parts target.collectionOf p (parts.getD [.find])))
    | none => .error .noCollection

def document : Adapter where
  name := "document".toList
  text shared p target parts := (documents shared p target parts).map Query.text
  query := documents

theorem table?_eq_some {target : Target} {table : Text} :
    table? target = some table ↔ target.table = some table ∧ table ≠ [] := by
  simp [table?, Option.filter_eq_some_iff]

section

variable {target : Target} {table : Text} (h : table? target = some table)
include h

theorem sql_query_of_table (name : Text) (d : Sql.Dialect) (own : Option Text) (shared : Text)
    (p : Plan) (parts : Option (List Part)) :
    (sql name d own).query shared p target parts =
      .ok (.sql ((style d own shared).statement table p (parts.getD Part.statement)).content
        ((style d own shared).statement table p (parts.getD Part.statement)).args) := by
  change statement d own shared p target parts = _
  rw [statement, h]

theorem document_query_of_table (shared : Text) (p : Plan) (parts : Option (List Part)) :
    document.query shared p target parts =
      .ok (.document table (Document.parts target.collectionOf p (parts.getD [.find]))) := by
  change documents shared p target parts = _
  rw [documents, h]

end

theorem sql_explanation_of_query {name : Text} {d : Sql.Dialect} {own : Option Text} {shared : Text}
    {p : Plan} {target : Target} {parts : Option (List Part)} {q : Query}
    (h : (sql name d own).query shared p target parts = .ok q) :
    (sql name d own).explanation shared p target parts = .ok (q.explained d) :=
  congrArg (Except.map (Query.explained d)) h

theorem sql_query_of_no_table {target : Target} (h : table? target = none) (name : Text)
    (d : Sql.Dialect) (own : Option Text) (shared : Text) (p : Plan) (parts : Option (List Part)) :
    (sql name d own).query shared p target parts = .error .noTable := by
  change statement d own shared p target parts = _
  rw [statement, h]

end Adapter

mutual

def Value.toPlain : Value → Json
  | .int n => .int n.toInt
  | .float x => if x.isFinite then .float x else .null
  | .bool b => .bool b
  | .text t => .text t
  | .time t => .text t.write
  | .null => .null
  | .list vs => .array (Value.toPlainEach vs)

def Value.toPlainEach : List Value → List Json
  | [] => []
  | v :: vs => v.toPlain :: Value.toPlainEach vs

end

end FilterQuery
