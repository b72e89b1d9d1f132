import FilterQuery.Proofs.Sql.Readable
set_option autoImplicit false

/-!
Conditions that are qualified. Styles with one regex operator write a condition alike but for its
columns, so the condition on which a relation is joined is the condition of its filters with the
relation in front of every column.
-/

namespace FilterQuery

namespace Expr

def shown (e : Expr) : List Text := (e.leaves.filter fun l => l.2.canonical.isSome).map Prod.fst

theorem fields_junction (j : Junction) (es : List Expr) :
    (junction j es).fields = es.flatMap fields := by
  rw [fields, leaves, leavesEach_eq_flatMap, List.map_flatMap]
  rfl

theorem fields_combine (j : Junction) (es : List Expr) :
    (combine j es).toList.flatMap fields = es.flatMap fields := by
  obtain _ | ⟨e, _ | ⟨f, es⟩⟩ := es
  · rfl
  · rfl
  · exact (List.append_nil _).trans (fields_junction j (e :: f :: es))

mutual

theorem fields_canonical : ∀ e : Expr, e.canonical.toList.flatMap fields = e.shown
  | .leaf f t => by cases h : t.canonical <;> simp [canonical, shown, leaves, fields, h]
  | .junction j es => by
    rw [canonical, fields_combine, fieldsEach_canonicalEach es, shown, leaves]
  | .not e => by
    have ih := fields_canonical e
    cases h : e.canonical with
    | none => simpa [canonical, shown, leaves, h] using ih
    | some c => simpa [canonical, shown, leaves, fields, h] using ih

theorem fieldsEach_canonicalEach : ∀ es : List Expr, (canonicalEach es).flatMap fields =
    ((leavesEach es).filter fun l => l.2.canonical.isSome).map Prod.fst
  | [] => rfl
  | e :: es => by
    rw [canonicalEach, List.flatMap_append, fields_canonical e, fieldsEach_canonicalEach es,
      leavesEach, List.filter_append, List.map_append, shown]

end

theorem shown_junction (j : Junction) (es : List Expr) :
    (junction j es).shown = es.flatMap shown := by
  rw [← fields_canonical, canonical, fields_combine]
  induction es with
  | nil => rfl
  | cons e es ih => rw [canonicalEach, List.flatMap_append, fields_canonical, ih, List.flatMap_cons]

end Expr

namespace Sql

inductive Piece where
  | text (t : Text)
  | column (f : Text)

namespace Piece

def columns (ps : List Piece) : List Text :=
  ps.filterMap fun
    | text _ => none
    | column f => some f

def fill (write : Text → Text) (ps : List Piece) : Text :=
  ps.flatMap fun
    | text t => t
    | column f => write f

end Piece

open Piece

/-- What styles with a regex operator write alike but for the columns, which are of these fields. -/
def Spells (operator : Text) (content : Style → Text) (fields : List Text) : Prop :=
  ∃ ps, columns ps = fields ∧ ∀ s : Style, s.regexOperator = operator →
    content s = fill (fun f => (s.field f).content) ps

namespace Spells

variable {operator : Text}

theorem text (t : Text) : Spells operator (fun _ => t) [] :=
  ⟨[.text t], rfl, fun _ _ => (List.append_nil t).symm⟩

theorem field (f : Text) : Spells operator (fun s => (s.field f).content) [f] :=
  ⟨[.column f], rfl, fun _ _ => (List.append_nil _).symm⟩

theorem append {a b : Style → Text} {fs gs : List Text} (ha : Spells operator a fs)
    (hb : Spells operator b gs) : Spells operator (fun s => a s ++ b s) (fs ++ gs) := by
  obtain ⟨ps, rfl, ha⟩ := ha
  obtain ⟨qs, rfl, hb⟩ := hb
  refine ⟨ps ++ qs, List.filterMap_append, fun s hs => ?_⟩
  change a s ++ b s = _
  rw [ha s hs, hb s hs, fill, fill, fill, List.flatMap_append]

theorem around (t u : Text) {a : Style → Text} {fs : List Text} (ha : Spells operator a fs) :
    Spells operator (fun s => t ++ (a s ++ u)) fs := by
  simpa using (text t).append (ha.append (text u))

theorem congr {a b : Style → Text} {fs : List Text} (ha : Spells operator a fs)
    (h : ∀ s, s.regexOperator = operator → b s = a s) : Spells operator b fs := by
  obtain ⟨ps, hfs, ha⟩ := ha
  exact ⟨ps, hfs, fun s hs => (h s hs).trans (ha s hs)⟩

theorem leaf (f : Text) {t : Test} (h : t.canonical = some t) :
    Spells operator (fun s => (s.leaf f t).content) [f] := by
  obtain ⟨rest, hrest⟩ := Style.exists_content_leaf operator h
  exact ((field f).around t.form.opening rest).congr fun s hs => hrest s f hs

mutual

theorem condition : ∀ {e : Expr}, e.IsCanonical →
    Spells operator (fun s => (s.condition e).content) e.fields
  | .leaf f _, h => leaf f h
  | .junction j (e :: f :: es), h => by
    -- in a canonical form every operand leaves text, so the words stand between all of them
    rw [Expr.fields_junction]
    refine ((text ['(']).append ((condition h.2.1).append (behindFirst j h.2.2))).congr fun s _ => ?_
    rw [s.condition_junction h]
    rfl
  | .not e, h => by
    have he : e.IsCanonical := h
    exact ((condition he).around "NOT (".toList [')']).congr fun s _ => by
      rw [s.condition_not he]
      rfl

theorem behindFirst (j : Junction) : ∀ {es : List Expr}, Expr.IsCanonicalEach es →
    Spells operator (fun s => (s.behindFirst j es).content) (es.flatMap Expr.fields)
  | [], _ => text [')']
  | e :: es, h => by
    have hword : Spells operator _ [] := text (' ' :: junctionWord j ++ [' '])
    exact hword.append ((condition h.1).append (behindFirst j h.2))

end

theorem condition_shown (e : Expr) :
    Spells operator (fun s => (s.condition e).content) e.shown := by
  rw [← Expr.fields_canonical]
  cases h : e.canonical with
  | none =>
    refine (text []).congr fun s _ => ?_
    rw [s.condition_eq_empty ((s.isEmpty_condition_iff e).2 h)]
    rfl
  | some c =>
    have hfields : (some c).toList.flatMap Expr.fields = c.fields := List.append_nil _
    rw [hfields]
    refine (condition (Expr.isCanonical_canonical h)).congr fun s _ => ?_
    rw [s.condition_canonical e, h]
    rfl

end Spells

namespace Style

open Fragment

theorem lead_ne_one (s : Style) (e : Expr) : s.lead e ≠ '1' := by
  cases e with
  | leaf f t =>
    rw [lead]
    rcases t.form.opening_eq with h | h <;> rw [h] <;> cases s.dialect <;> decide
  | junction j es => exact (by decide : '(' ≠ '1')
  | not e => exact (by decide : 'N' ≠ '1')

theorem condition_ne_always (s : Style) (e : Expr) : (s.condition e).content ≠ always.content := by
  intro heq
  rw [s.condition_canonical e] at heq
  cases h : e.canonical with
  | none =>
    rw [h] at heq
    cases heq
  | some c =>
    rw [h] at heq
    have hhead : some (s.lead c) = some '1' :=
      (s.head?_condition (Expr.isCanonical_canonical h)).symm.trans (congrArg List.head? heq)
    exact s.lead_ne_one c (Option.some.inj hhead)

def on (s : Style) (r : Text) (es : List Expr) : Fragment :=
  if (s.preload r es).isEmpty then always else s.preload r es

/-- A text is the condition of a relation with some filters: it is always true exactly if the
filters have nothing to say together, and is what they say with the relation in front of each column
otherwise. -/
structure JoinsOn (s : Style) (r : Text) (es : List Expr) (t : Text) : Prop where
  always_iff : t = "1=1".toList ↔ (s.condition (.junction .and es)).content = []
  qualified : (s.condition (.junction .and es)).content ≠ [] →
    ∃ ps, columns ps = es.flatMap Expr.shown ∧
      (s.condition (.junction .and es)).content = fill s.dialect.field ps ∧
      t = fill (fun f => s.dialect.identifier r ++ '.' :: s.dialect.field f) ps

theorem content_joinOf (s : Style) (r : Text) (es : List Expr) :
    (s.joinOf r es).content =
      "JOIN ".toList ++ s.dialect.identifier r ++ " ON ".toList ++ (s.on r es).content := by
  have hhead : (atom ("JOIN ".toList ++ s.dialect.identifier r ++ " ON".toList)).isEmpty = false :=
    rfl
  have hon : (s.on r es).isEmpty = false := by
    unfold on
    split
    · rfl
    · next h => simpa using h
  change (spaced [_, s.on r es]).content = _
  rw [spaced, join_pair _ hhead hon, join_single _ hon]
  simp

theorem content_joins (s : Style) (table : Text) (p : Plan) :
    (s.statement table p [.joins]).content =
      Text.join [' '] (p.request.preloads.map fun q =>
        "JOIN ".toList ++ s.dialect.identifier q.1 ++ " ON ".toList ++ (s.on q.1 q.2).content) := by
  let joins := p.request.preloads.map fun q => s.joinOf q.1 q.2
  have hkept : joins.filter (fun f => !f.isEmpty) = joins := by
    rw [List.filter_eq_self]
    intro f hf
    obtain ⟨q, -, rfl⟩ := List.mem_map.1 hf
    rw [isEmpty, content_joinOf]
    rfl
  have hjoins : (spaced joins).content = Text.join [' '] (joins.map content) := by
    rw [spaced, join, hkept]
  have hsingle : (spaced [spaced joins]).content = (spaced joins).content := by
    cases hempty : (spaced joins).isEmpty with
    | true =>
      rw [spaced, join_cons, if_pos hempty, join_nil]
      exact (List.isEmpty_iff.1 hempty).symm
    | false => exact congrArg content (join_single [' '] hempty)
  refine hsingle.trans (hjoins.trans (congrArg (Text.join [' ']) ?_))
  rw [List.map_map]
  exact List.map_congr_left fun q _ => s.content_joinOf q.1 q.2

theorem joinsOn_on {s : Style} (hs : s.relation = none) (r : Text) (es : List Expr) :
    s.JoinsOn r es (s.on r es).content := by
  have hshown : Spells s.regexOperator _ _ := Spells.condition_shown (.junction .and es)
  obtain ⟨ps, hcolumns, hfill⟩ := hshown
  rw [Expr.shown_junction] at hcolumns
  have hqualified : (s.preload r es).content =
      fill (fun f => s.dialect.identifier r ++ '.' :: s.dialect.field f) ps :=
    hfill { s with relation := some r } rfl
  have hplain : (s.condition (.junction .and es)).content = fill s.dialect.field ps := by
    have hfield : (fun f => (s.field f).content) = s.dialect.field := by
      funext f
      rw [Style.field, hs]
      rfl
    exact (hfill s rfl).trans (congrArg (fill · ps) hfield)
  have hempty : (s.preload r es).isEmpty = (s.condition (.junction .and es)).isEmpty := by
    rw [Bool.eq_iff_iff, preload_eq_condition, isEmpty_condition_iff, isEmpty_condition_iff]
  by_cases hnone : (s.condition (.junction .and es)).content = []
  · have hon : s.on r es = always := if_pos (hempty.trans (List.isEmpty_iff.2 hnone))
    exact ⟨by simp [hon, hnone, always], fun h => absurd hnone h⟩
  · have hon : s.on r es = s.preload r es := by
      refine if_neg ?_
      rw [hempty]
      simpa [isEmpty] using hnone
    have halways : (s.preload r es).content ≠ "1=1".toList := by
      rw [preload_eq_condition]
      exact condition_ne_always _ _
    rw [hon]
    refine ⟨⟨fun h => absurd h halways, fun h => absurd h hnone⟩, fun _ => ?_⟩
    exact ⟨ps, hcolumns, hplain, hqualified⟩

end Style

end Sql

end FilterQuery
