import FilterQuery.Adapter
import FilterQuery.Proofs.Sql.Alike
import FilterQuery.Proofs.Sql.Arguments
import FilterQuery.Proofs.Sql.Span
set_option autoImplicit false

/-!
Placeholders and arguments of rendered statements. There are as many question marks outside quoted
names as there are arguments, and these are the arguments of the parts in the order of the parts.
-/

namespace FilterQuery

namespace Sql

theorem Fixed.unmarked {t : Text} (h : Fixed t) : Unmarked t := fun c hc => (h c hc).1

/-- A piece of SQL with a placeholder outside its names for every argument. -/
def Fragment.Matched (d : Dialect) (f : Fragment) : Prop :=
  ∃ b, Outside d f.content b ∧ b.count '?' = f.args.length

namespace Fragment

variable {d : Dialect}

theorem Matched.append {f g : Fragment} (hf : f.Matched d) (hg : g.Matched d) :
    (f ++ g).Matched d := by
  obtain ⟨b, hb, hcount⟩ := hf
  obtain ⟨b', hb', hcount'⟩ := hg
  refine ⟨b ++ b', hb.append hb', ?_⟩
  rw [List.count_append, hcount, hcount', args_append, List.length_append]

theorem matched_fixed {t : Text} (h : Fixed t) : (atom t).Matched d :=
  ⟨t, .of_unmarked h.unmarked, List.count_eq_zero.2 fun hmem => (h _ hmem).2 rfl⟩

theorem matched_placeholder (v : Value) : (placeholder v).Matched d :=
  ⟨['?'], (.of_unmarked (by decide) : Outside d ['?'] ['?']), rfl⟩

theorem matched_field (f : Text) : (atom (d.field f)).Matched d :=
  ⟨_, .field f, List.count_eq_zero.2 (by simp)⟩

theorem matched_identifier (t : Text) : (atom (d.identifier t)).Matched d := ⟨_, .identifier t, rfl⟩

theorem Matched.length_placeholders {f : Fragment} (h : f.Matched d) :
    (placeholders f.content).length = f.args.length := by
  obtain ⟨b, hb, hcount⟩ := h
  rw [hb.length_placeholders, hcount]

end Fragment

theorem Style.matched_congruence {s : Style} (hoperator : Fixed s.regexOperator) :
    s.Congruence Eq Eq fun f g =>
      f.isEmpty = g.isEmpty ∧ f.Matched s.dialect ∧ g.Matched s.dialect where
  fixed h := ⟨rfl, Fragment.matched_fixed h, Fragment.matched_fixed h⟩
  placeholder v w := ⟨rfl, Fragment.matched_placeholder v, Fragment.matched_placeholder w⟩
  append h h' := ⟨by rw [Fragment.isEmpty_append, Fragment.isEmpty_append, h.1, h'.1],
    h.2.1.append h'.2.1, h.2.2.append h'.2.2⟩
  isEmpty h := h.1
  field h := h ▸ ⟨rfl, Fragment.matched_field _, Fragment.matched_field _⟩
  name h := h ▸ ⟨rfl, Fragment.matched_identifier _, Fragment.matched_identifier _⟩
  operator := ⟨rfl, Fragment.matched_fixed hoperator, Fragment.matched_fixed hoperator⟩

theorem Style.matched_statement {s : Style} (hoperator : Fixed s.regexOperator)
    (hs : s.relation = none) (table : Text) (p : Plan) (parts : List Part) :
    (s.statement table p parts).Matched s.dialect :=
  ((matched_congruence hoperator).statement hs rfl
    (p.alike_refl (fun _ => rfl) fun _ => rfl) parts).2.1

end Sql

namespace Adapter

/-- An adapter for SQL renders a plan exactly if the target has a table with a name. Then there are
as many placeholders as arguments, and these are those of the parts in their order. -/
theorem query_arguments (name : Text) (d : Sql.Dialect) (own : Option Text) (shared : Text)
    (p : Plan) (target : Target) (parts : Option (List Part))
    (hoperator : Sql.Fixed (style d own shared).regexOperator) :
    ((∃ q, (sql name d own).query shared p target parts = .ok q) ↔
      ∃ table, target.table = some table ∧ table ≠ []) ∧
    ∀ q, (sql name d own).query shared p target parts = .ok q →
      ∃ text args, q = .sql text args ∧
        args = (parts.getD Part.statement).flatMap p.arguments ∧
        (Sql.placeholders text).length = args.length := by
  simp only [← table?_eq_some]
  cases htable : table? target with
  | none =>
    simp [sql_query_of_no_table htable]
  | some table =>
    have hmatched := Sql.Style.matched_statement hoperator rfl table p (parts.getD Part.statement)
    have hargs := (style d own shared).args_statement table p (parts.getD Part.statement)
    rw [sql_query_of_table htable]
    refine ⟨⟨fun _ => ⟨table, rfl⟩, fun _ => ⟨_, rfl⟩⟩, ?_⟩
    rintro q ⟨⟩
    exact ⟨_, _, rfl, hargs, hmatched.length_placeholders⟩

theorem query_arguments_marks :
    ∃ text, (sql "pg".toList .postgres none).query Sql.defaultRegexOperator
        ⟨⟨some (.junction .or [.leaf "a?\"b".toList (.between (.int 1) (.int 2)),
            .not (.leaf "c.d".toList (.pattern .regex "x?".toList)),
            .leaf "e".toList (.member true [])]),
          [⟨"?".toList, .asc⟩], ⟨3, 7⟩,
          [("r\"?".toList, [.leaf "f".toList (.member false [.int 4, .null])])]⟩, [], []⟩
        ⟨some "t?".toList, []⟩ (some [.filter, .joins, .unknown "?".toList, .order, .filter]) =
      .ok (.sql text [.int 1, .int 2, .text "x?".toList, .int 4, .null, .int 1, .int 2,
        .text "x?".toList]) ∧ (Sql.placeholders text).length = 8 := by
  obtain ⟨hrenders, hargs⟩ := query_arguments "pg".toList .postgres none Sql.defaultRegexOperator
    ⟨⟨some (.junction .or [.leaf "a?\"b".toList (.between (.int 1) (.int 2)),
        .not (.leaf "c.d".toList (.pattern .regex "x?".toList)),
        .leaf "e".toList (.member true [])]),
      [⟨"?".toList, .asc⟩], ⟨3, 7⟩,
      [("r\"?".toList, [.leaf "f".toList (.member false [.int 4, .null])])]⟩, [], []⟩
    ⟨some "t?".toList, []⟩ (some [.filter, .joins, .unknown "?".toList, .order, .filter])
    (by decide)
  obtain ⟨q, hq⟩ := hrenders.2 ⟨_, rfl, by decide⟩
  obtain ⟨text, args, rfl, rfl, hcount⟩ := hargs q hq
  exact ⟨text, hq, hcount⟩

end Adapter

end FilterQuery
