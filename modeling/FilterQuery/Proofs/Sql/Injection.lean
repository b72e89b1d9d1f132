import FilterQuery.Proofs.Sql.Placeholders
set_option autoImplicit false

/-!
No name and no value shows in the text of a statement outside quoted names. Statements of plans of
one shape have the same text outside them, whatever their names and values are, and the same text
altogether if only their values differ.
-/

namespace FilterQuery

def SameSegments (f g : Text) : Prop := (f.splitOn '.').length = (g.splitOn '.').length

namespace Plan

/-- Plans of one shape: names and values may differ, but not the number of segments of a field. -/
def SameShape (p q : Plan) : Prop := p.Alike SameSegments (fun _ _ => True) q

def SameNames (p q : Plan) : Prop := p.Alike Eq Eq q

theorem SameNames.sameShape {p q : Plan} (h : p.SameNames q) : p.SameShape q :=
  h.mono (fun hfg => hfg ▸ rfl) fun _ => trivial

end Plan

namespace Sql.Style

theorem outside_congruence {s : Style} (hoperator : Unmarked s.regexOperator) :
    s.Congruence SameSegments (fun _ _ => True) fun f g =>
      f.isEmpty = g.isEmpty ∧
        ∃ b, Outside s.dialect f.content b ∧ Outside s.dialect g.content b where
  fixed h := ⟨rfl, _, .of_unmarked h.unmarked, .of_unmarked h.unmarked⟩
  placeholder _ _ :=
    have h : Outside s.dialect ['?'] ['?'] := .of_unmarked (by decide)
    ⟨rfl, ['?'], h, h⟩
  append h h' := by
    obtain ⟨hempty, b, hb, hb'⟩ := h
    obtain ⟨hempty', c, hc, hc'⟩ := h'
    refine ⟨?_, b ++ c, hb.append hc, hb'.append hc'⟩
    rw [Fragment.isEmpty_append, Fragment.isEmpty_append, hempty, hempty']
  isEmpty h := h.1
  field {f g} h := by
    -- how many segments a field has is all that is seen of it outside its names
    have hempty (t : Text) : (Fragment.atom (s.dialect.field t)).isEmpty = false :=
      isEmpty_field { s with relation := none } t
    have hbare := Outside.field (d := s.dialect) g
    rw [← (h : (f.splitOn '.').length = (g.splitOn '.').length)] at hbare
    exact ⟨(hempty f).trans (hempty g).symm, _, .field f, hbare⟩
  name _ := ⟨rfl, _, .identifier _, .identifier _⟩
  operator := ⟨rfl, _, .of_unmarked hoperator, .of_unmarked hoperator⟩

theorem content_congruence (s : Style) : s.Congruence Eq Eq fun f g => f.content = g.content where
  fixed _ := rfl
  placeholder _ _ := rfl
  append h h' := by rw [Fragment.content_append, Fragment.content_append, h, h']
  isEmpty h := by rw [Fragment.isEmpty, Fragment.isEmpty, h]
  field h := by rw [h]
  name h := by rw [h]
  operator := rfl

end Sql.Style

namespace Adapter

/-- Rendered for tables with names, plans of one shape give texts whose spans of quoted names all
end and that agree outside of them, where there is no quote mark; and plans that differ in their
values only give the same text. -/
theorem query_of_sameShape (name : Text) (d : Sql.Dialect) (own : Option Text) (shared : Text)
    (parts : Option (List Part)) {p q : Plan} {a b : Target} {x y : Text}
    (hoperator : Sql.Unmarked (style d own shared).regexOperator) (hshape : p.SameShape q)
    (ha : table? a = some x) (hb : table? b = some y) :
    ∃ t vs u ws, (sql name d own).query shared p a parts = .ok (.sql t vs) ∧
      (sql name d own).query shared q b parts = .ok (.sql u ws) ∧
      (∃ bare, Sql.Outside d t bare ∧ Sql.Outside d u bare) ∧
      (p.SameNames q → x = y → t = u) := by
  refine ⟨_, _, _, _, sql_query_of_table ha .., sql_query_of_table hb .., ?_, ?_⟩
  · exact And.right ((Sql.Style.outside_congruence hoperator).statement rfl trivial hshape _)
  · rintro hnames rfl
    exact (style d own shared).content_congruence.statement rfl rfl hnames _

theorem query_of_sameShape_marks :
    (∃ t vs u ws bare,
      (sql "pg".toList .postgres none).query Sql.defaultRegexOperator
          ⟨⟨some (.leaf "a.b".toList (.compare .eq (.int 1))), [⟨"c".toList, .desc⟩], .none,
            [("r".toList, [.leaf "d".toList (.null true)])]⟩, ["e".toList], []⟩
          ⟨some "t".toList, []⟩ none = .ok (.sql t vs) ∧
        (sql "pg".toList .postgres none).query Sql.defaultRegexOperator
          ⟨⟨some (.leaf "\"=0 OR \".1=1--".toList (.compare .eq (.text "\"".toList))),
            [⟨"\",\"?".toList, .desc⟩], .none,
            [("\" ON 1=1 --".toList, [.leaf "\"".toList (.null true)])]⟩, ["'*\x60".toList], []⟩
          ⟨some "\"\"\"".toList, []⟩ none = .ok (.sql u ws) ∧
        Sql.Outside .postgres t bare ∧ Sql.Outside .postgres u bare) ∧
    ∃ t vs ws,
      (sql "std".toList .standard none).query Sql.defaultRegexOperator
          ⟨⟨some (.leaf "\x60".toList (.member false [.int 1, .int 2])), [], .none, []⟩, [], []⟩
          ⟨some "t".toList, []⟩ none = .ok (.sql t vs) ∧
        (sql "std".toList .standard none).query Sql.defaultRegexOperator
          ⟨⟨some (.leaf "\x60".toList (.member false [.null, .text "\x60".toList])), [], .none, []⟩,
            [], []⟩
          ⟨some "t".toList, []⟩ none = .ok (.sql t ws) := by
  constructor
  · have hshape : Plan.SameShape
        ⟨⟨some (.leaf "a.b".toList (.compare .eq (.int 1))), [⟨"c".toList, .desc⟩], .none,
          [("r".toList, [.leaf "d".toList (.null true)])]⟩, ["e".toList], []⟩
        ⟨⟨some (.leaf "\"=0 OR \".1=1--".toList (.compare .eq (.text "\"".toList))),
          [⟨"\",\"?".toList, .desc⟩], .none,
          [("\" ON 1=1 --".toList, [.leaf "\"".toList (.null true)])]⟩, ["'*\x60".toList], []⟩ :=
      ⟨.some ⟨rfl, rfl, fun _ => rfl⟩, .cons ⟨rfl, rfl⟩ .nil, rfl,
        .cons ⟨trivial, ⟨rfl, rfl⟩, trivial⟩ .nil, .cons rfl .nil, .nil⟩
    obtain ⟨t, vs, u, ws, hp, hq, ⟨bare, hbare⟩, -⟩ := query_of_sameShape "pg".toList .postgres none
      Sql.defaultRegexOperator none (by decide) hshape (rfl : table? ⟨some "t".toList, []⟩ = _)
      (rfl : table? ⟨some "\"\"\"".toList, []⟩ = _)
    exact ⟨t, vs, u, ws, bare, hp, hq, hbare⟩
  · have hnames : Plan.SameNames
        ⟨⟨some (.leaf "\x60".toList (.member false [.int 1, .int 2])), [], .none, []⟩, [], []⟩
        ⟨⟨some (.leaf "\x60".toList (.member false [.null, .text "\x60".toList])), [], .none, []⟩,
          [], []⟩ := ⟨.some ⟨rfl, rfl, rfl⟩, .nil, rfl, .nil, .nil, .nil⟩
    have htable : table? ⟨some "t".toList, []⟩ = some "t".toList := rfl
    obtain ⟨t, vs, u, ws, hp, hq, -, hsame⟩ := query_of_sameShape "std".toList .standard none
      Sql.defaultRegexOperator none (by decide)
      hnames.sameShape htable htable
    obtain rfl := hsame hnames rfl
    exact ⟨t, vs, ws, hp, hq⟩

end Adapter

end FilterQuery
