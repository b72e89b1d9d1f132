import FilterQuery.Proofs.Sql.Identifier
import FilterQuery.Proofs.Sql.Fragment
import FilterQuery.Proofs.Number.Numeral
import Mathlib.Data.List.Forall2
set_option autoImplicit false

/-!
Plans of one shape. Tests are alike that differ in their values only; expressions and plans that
also differ in their names, as far as a relation between names admits it. A relation between
pieces of SQL that appending respects, and that holds between the quoted forms of related names,
holds between the statements of plans that are alike.
-/

namespace FilterQuery

/-- Tests that differ in their values only. Equality with null is a test of its own. -/
def Test.Alike : Test → Test → Prop
  | .compare c v, .compare c' w => c = c' ∧ (c = .eq ∨ c = .neq → v.isNull = w.isNull)
  | .pattern k _, .pattern k' _ => k = k'
  | .member n vs, .member n' ws => n = n' ∧ vs.length = ws.length
  | .between _ _, .between _ _ => True
  | .null n, .null n' => n = n'
  | _, _ => False

namespace Expr

mutual

def Alike (R : Text → Text → Prop) : Expr → Expr → Prop
  | .leaf f t, .leaf g u => R f g ∧ t.Alike u
  | .junction j es, .junction k fs => j = k ∧ AlikeEach R es fs
  | .not e, .not f => Alike R e f
  | _, _ => False

def AlikeEach (R : Text → Text → Prop) : List Expr → List Expr → Prop
  | [], [] => True
  | e :: es, f :: fs => Alike R e f ∧ AlikeEach R es fs
  | _, _ => False

end

end Expr

theorem forall₂_isEmpty {α β : Type} {P : α → β → Prop} {xs : List α} {ys : List β}
    (h : List.Forall₂ P xs ys) : xs.isEmpty = ys.isEmpty := by cases h <;> rfl

theorem Test.alike_refl (t : Test) : t.Alike t := by
  cases t with
  | compare c v => exact ⟨rfl, fun _ => rfl⟩
  | member n vs => exact ⟨rfl, rfl⟩
  | between => trivial
  | pattern | null => rfl

mutual

theorem Expr.alike_refl {R : Text → Text → Prop} (hR : ∀ f, R f f) : ∀ e : Expr, e.Alike R e
  | .leaf f t => ⟨hR f, t.alike_refl⟩
  | .junction _ es => ⟨rfl, Expr.alikeEach_refl hR es⟩
  | .not e => Expr.alike_refl hR e

theorem Expr.alikeEach_refl {R : Text → Text → Prop} (hR : ∀ f, R f f) :
    ∀ es : List Expr, AlikeEach R es es
  | [] => trivial
  | e :: es => ⟨Expr.alike_refl hR e, Expr.alikeEach_refl hR es⟩

end

mutual

theorem Expr.Alike.mono {R R' : Text → Text → Prop} (hR : ∀ {f g}, R f g → R' f g) :
    ∀ {e f : Expr}, e.Alike R f → e.Alike R' f
  | .leaf _ _, .leaf _ _, ⟨hfg, h⟩ => ⟨hR hfg, h⟩
  | .junction _ _, .junction _ _, ⟨hj, h⟩ => ⟨hj, AlikeEach.mono hR h⟩
  | .not e, .not f, h => Alike.mono (e := e) (f := f) hR h

theorem Expr.AlikeEach.mono {R R' : Text → Text → Prop} (hR : ∀ {f g}, R f g → R' f g) :
    ∀ {es fs : List Expr}, AlikeEach R es fs → AlikeEach R' es fs
  | [], [], _ => trivial
  | _ :: _, _ :: _, h => ⟨Alike.mono hR h.1, AlikeEach.mono hR h.2⟩

end

structure Plan.Alike (R S : Text → Text → Prop) (p q : Plan) : Prop where
  filter : Option.Rel (Expr.Alike R) p.request.filter q.request.filter
  sort : List.Forall₂ (fun k l => R k.field l.field ∧ k.direction = l.direction)
    p.request.sort q.request.sort
  page : p.request.page = q.request.page
  preloads : List.Forall₂ (fun x y => S x.1 y.1 ∧ Expr.AlikeEach R x.2 y.2)
    p.request.preloads q.request.preloads
  selected : List.Forall₂ R p.selected q.selected
  groupBy : List.Forall₂ R p.groupBy q.groupBy

theorem Plan.alike_refl {R S : Text → Text → Prop} (hR : ∀ f, R f f) (hS : ∀ r, S r r)
    (p : Plan) : p.Alike R S p where
  filter := by
    cases p.request.filter with
    | none => exact .none
    | some e => exact .some (e.alike_refl hR)
  sort := List.forall₂_same.2 fun _ _ => ⟨hR _, rfl⟩
  page := rfl
  preloads := List.forall₂_same.2 fun x _ => ⟨hS _, Expr.alikeEach_refl hR x.2⟩
  selected := List.forall₂_same.2 fun _ _ => hR _
  groupBy := List.forall₂_same.2 fun _ _ => hR _

theorem Plan.Alike.mono {R R' S S' : Text → Text → Prop} (hR : ∀ {f g}, R f g → R' f g)
    (hS : ∀ {r q}, S r q → S' r q) {p q : Plan} (h : p.Alike R S q) : p.Alike R' S' q where
  filter := by
    have hfilter := h.filter
    generalize p.request.filter = x at hfilter ⊢
    generalize q.request.filter = y at hfilter ⊢
    cases hfilter with
    | none => exact .none
    | some hef => exact .some (hef.mono hR)
  sort := h.sort.imp fun _ _ hkl => ⟨hR hkl.1, hkl.2⟩
  page := h.page
  preloads := h.preloads.imp fun _ _ hxy => ⟨hS hxy.1, hxy.2.mono hR⟩
  selected := h.selected.imp fun _ _ => hR
  groupBy := h.groupBy.imp fun _ _ => hR

namespace Sql

def Fixed (t : Text) : Prop := ∀ c ∈ t, isMark c = false ∧ c ≠ '?'

instance (t : Text) : Decidable (Fixed t) := List.decidableBAll _ t

theorem Fixed.append {t u : Text} (ht : Fixed t) (hu : Fixed u) : Fixed (t ++ u) :=
  fun c hc => (List.mem_append.1 hc).elim (ht c) (hu c)

theorem fixed_ofNat (n : Nat) : Fixed (Text.ofNat n) := by
  intro c hc
  have hdigit := Text.isDigit_of_mem_ofNat hc
  refine ⟨?_, ?_⟩
  · cases hmark : isMark c with
    | false => rfl
    | true =>
      simp only [isMark, Bool.or_eq_true, decide_eq_true_eq] at hmark
      rcases hmark with (rfl | rfl) | rfl <;> cases hdigit
  · rintro rfl
    cases hdigit

/-- A relation between pieces of SQL that holds for fixed texts and placeholders, passes through
appending, and sees whether a piece is empty. -/
structure Congruence (K : Fragment → Fragment → Prop) : Prop where
  fixed {t : Text} : Fixed t → K (.atom t) (.atom t)
  placeholder (v w : Value) : K (.placeholder v) (.placeholder w)
  append {f g f' g' : Fragment} : K f g → K f' g' → K (f ++ f') (g ++ g')
  isEmpty {f g : Fragment} : K f g → f.isEmpty = g.isEmpty

namespace Congruence

open Fragment

variable {K : Fragment → Fragment → Prop} (hK : Congruence K)
include hK

theorem empty : K .empty .empty := hK.fixed (List.forall_mem_nil _)

theorem all_isEmpty {fs gs : List Fragment} (h : List.Forall₂ K fs gs) :
    fs.all Fragment.isEmpty = gs.all Fragment.isEmpty := by
  induction h with
  | nil => rfl
  | cons hfg _ ih => rw [List.all_cons, List.all_cons, hK.isEmpty hfg, ih]

theorem join {separator : Text} (hseparator : Fixed separator) {fs gs : List Fragment}
    (h : List.Forall₂ K fs gs) : K (join separator fs) (join separator gs) := by
  induction h with
  | nil => exact hK.empty
  | @cons f g fs gs hfg hrest ih =>
    -- whether a piece goes and whether a separator stands is the same on both sides
    rw [join_cons, join_cons, hK.isEmpty hfg, hK.all_isEmpty hrest]
    split
    · exact ih
    · split
      · exact hK.append hfg ih
      · exact hK.append hfg (hK.append (hK.fixed hseparator) ih)

theorem spaced {fs gs : List Fragment} (h : List.Forall₂ K fs gs) : K (spaced fs) (spaced gs) :=
  hK.join (by decide) h

theorem parenthesize {f g : Fragment} (h : K f g) : K f.parenthesize g.parenthesize := by
  rw [parenthesize_eq, parenthesize_eq]
  exact hK.append (hK.append (hK.fixed (by decide)) h) (hK.fixed (by decide))

theorem comparison {f g f' g' : Fragment} {o o' : Text} (h : K f g) (ho : K (.atom o) (.atom o'))
    (h' : K f' g') : K (f.comparison o f') (g.comparison o' g') :=
  hK.spaced (.cons h (.cons ho (.cons h' .nil)))

theorem conditions (j : Junction) {fs gs : List Fragment} (h : List.Forall₂ K fs gs) :
    K (conditions (junctionWord j) fs) (conditions (junctionWord j) gs) := by
  have hfilter : List.Forall₂ K (fs.filter fun f => !f.isEmpty) (gs.filter fun g => !g.isEmpty) :=
    List.rel_filter (fun f g hfg => by simp [hK.isEmpty hfg]) h
  have hword : Fixed (' ' :: junctionWord j ++ [' ']) := by cases j <;> decide
  have hjoin := hK.join hword h
  rw [conditions_eq, conditions_eq, hfilter.length_eq]
  split
  · exact hK.parenthesize hjoin
  · exact hjoin

theorem not {f g : Fragment} (h : K f g) : K f.not g.not := by
  rw [Fragment.not, Fragment.not, hK.isEmpty h]
  split
  · exact h
  · exact hK.append (hK.fixed (t := "NOT ".toList) (by decide)) (hK.parenthesize h)

theorem lower {f g : Fragment} (h : K f g) : K f.lower g.lower :=
  hK.append (hK.fixed (t := "LOWER".toList) (by decide)) (hK.parenthesize h)

theorem null (n : Bool) {f g : Fragment} (h : K f g) : K (f.null n) (g.null n) :=
  hK.spaced (.cons h (.cons (hK.fixed (by cases n <;> decide)) .nil))

theorem between {f g : Fragment} (h : K f g) (low high low' high' : Value) :
    K (f.between (.placeholder low) (.placeholder high))
      (g.between (.placeholder low') (.placeholder high')) :=
  hK.spaced (.cons h (.cons (hK.fixed (by decide)) (.cons (hK.placeholder _ _)
    (.cons (hK.fixed (by decide)) (.cons (hK.placeholder _ _) .nil)))))

theorem placeholders {vs ws : List Value} (h : vs.length = ws.length) :
    List.Forall₂ K (vs.map .placeholder) (ws.map .placeholder) := by
  induction vs generalizing ws with
  | nil =>
    cases ws with
    | nil => exact .nil
    | cons w ws => cases h
  | cons v vs ih =>
    cases ws with
    | nil => cases h
    | cons w ws => exact .cons (hK.placeholder v w) (ih (Nat.succ.inj h))

theorem member (n : Bool) {f g : Fragment} (h : K f g) {vs ws : List Value}
    (hlength : vs.length = ws.length) : K (f.member n vs) (g.member n ws) := by
  have hcomma : Fixed ", ".toList := by decide
  have hplaceholders := hK.parenthesize (hK.join hcomma (hK.placeholders hlength))
  have hnone : vs.isEmpty = ws.isEmpty := by
    rw [Bool.eq_iff_iff, List.isEmpty_iff_length_eq_zero, List.isEmpty_iff_length_eq_zero, hlength]
  rw [Fragment.member, Fragment.member, hnone]
  split
  · exact hK.empty
  · exact hK.comparison h (hK.fixed (by cases n <;> decide)) hplaceholders

theorem atom_join {separator : Text} (hseparator : Fixed separator) {ts us : List Text}
    (h : List.Forall₂ (fun t u => K (.atom t) (.atom u)) ts us) :
    K (.atom (Text.join separator ts)) (.atom (Text.join separator us)) := by
  induction h with
  | nil => exact hK.empty
  | cons htu hrest ih =>
    cases hrest with
    | nil => simpa using htu
    | cons _ _ =>
      rw [Text.join_cons_cons, Text.join_cons_cons]
      exact hK.append htu (hK.append (hK.fixed hseparator) ih)

theorem clause (word : String) (hword : Fixed word.toList) {present present' : Bool}
    (hpresent : present = present') {t u : Text} (h : K (.atom t) (.atom u)) :
    K (clause word present t) (clause word present' u) := by
  have hblank : K (.atom [' ']) (.atom [' ']) := hK.fixed (by decide)
  rw [Sql.clause, Sql.clause, hpresent]
  split
  · exact hK.append (hK.fixed hword) (hK.append hblank h)
  · exact hK.empty

end Congruence

namespace Style

theorem leaf_compare (s : Style) (f : Text) {c : Comparison} {v : Value}
    (h : c = .eq ∨ c = .neq → v.isNull = false) :
    s.leaf f (.compare c v) =
      (s.field f).comparison (comparisonOperator c) (.placeholder v) := by
  rw [leaf]
  · rintro rfl rfl
    cases h (.inl rfl)
  · rintro rfl rfl
    cases h (.inr rfl)

theorem leaf_null (s : Style) (f : Text) {c : Comparison} {v : Value} (hc : c = .eq ∨ c = .neq)
    (hv : v.isNull = true) : s.leaf f (.compare c v) = (s.field f).null (c = .neq) := by
  cases v <;> cases hv
  rcases hc with rfl | rfl <;> rfl

/-- A congruence for the statements of a style: it holds between the quoted forms of fields related
by `R` and of names related by `S`, and for the regex operator. -/
structure Congruence (s : Style) (R S : Text → Text → Prop)
    (K : Fragment → Fragment → Prop) : Prop extends Sql.Congruence K where
  field {f g : Text} : R f g → K (.atom (s.dialect.field f)) (.atom (s.dialect.field g))
  name {r q : Text} : S r q → K (.atom (s.dialect.identifier r)) (.atom (s.dialect.identifier q))
  operator : K (.atom s.regexOperator) (.atom s.regexOperator)

namespace Congruence

variable {s : Style} {R S : Text → Text → Prop} {K : Fragment → Fragment → Prop}
  (hK : s.Congruence R S K)
include hK

theorem qualified {relation relation' : Option Text} (hrelation : Option.Rel S relation relation')
    {f g : Text} (h : R f g) :
    K ({ s with relation := relation }.field f) ({ s with relation := relation' }.field g) := by
  cases hrelation with
  | none => exact hK.field h
  | some hname =>
    have hpoint : K (.atom ['.']) (.atom ['.']) := hK.fixed (by decide)
    exact hK.append (hK.name hname) (hK.append hpoint (hK.field h))

theorem leaf {relation relation' : Option Text} (hrelation : Option.Rel S relation relation')
    {f g : Text} (hfg : R f g) {t u : Test} (h : t.Alike u) :
    K ({ s with relation := relation }.leaf f t) ({ s with relation := relation' }.leaf g u) := by
  have hfield := hK.qualified hrelation hfg
  match t, u, h with
  | .compare c v, .compare _ w, ⟨rfl, hnull⟩ =>
    -- both are tests for null, or neither is
    by_cases hc : (c = .eq ∨ c = .neq) ∧ v.isNull = true
    · rw [leaf_null _ _ hc.1 hc.2, leaf_null _ _ hc.1 ((hnull hc.1).symm.trans hc.2)]
      exact hK.null _ hfield
    · have hv : c = .eq ∨ c = .neq → v.isNull = false := by simpa using hc
      have hw : c = .eq ∨ c = .neq → w.isNull = false := fun h => (hnull h).symm.trans (hv h)
      rw [leaf_compare _ _ hv, leaf_compare _ _ hw]
      exact hK.comparison hfield (hK.fixed (by cases c <;> decide)) (hK.placeholder v w)
  | .pattern .like p, .pattern _ q, rfl =>
    exact hK.comparison hfield (hK.fixed (by decide)) (hK.placeholder _ _)
  | .pattern .ilike p, .pattern _ q, rfl =>
    exact hK.comparison (hK.lower hfield) (hK.fixed (by decide)) (hK.lower (hK.placeholder _ _))
  | .pattern .regex p, .pattern _ q, rfl =>
    exact hK.comparison hfield hK.operator (hK.placeholder _ _)
  | .member n vs, .member _ ws, ⟨rfl, hlength⟩ => exact hK.member n hfield hlength
  | .between low high, .between low' high', _ => exact hK.between hfield low high low' high'
  | .null n, .null _, rfl => exact hK.null n hfield

omit hK in
mutual

theorem condition (hK : s.Congruence R S K) {relation relation' : Option Text}
    (hrelation : Option.Rel S relation relation') : ∀ {e f : Expr}, e.Alike R f →
      K ({ s with relation := relation }.condition e) ({ s with relation := relation' }.condition f)
  | .leaf _ _, .leaf _ _, ⟨hfg, h⟩ => hK.leaf hrelation hfg h
  | .junction j _, .junction _ _, ⟨rfl, h⟩ => hK.conditions j (conditionEach hK hrelation h)
  | .not _, .not _, h => hK.not (condition hK hrelation h)

theorem conditionEach (hK : s.Congruence R S K) {relation relation' : Option Text}
    (hrelation : Option.Rel S relation relation') : ∀ {es fs : List Expr}, Expr.AlikeEach R es fs →
      List.Forall₂ K ({ s with relation := relation }.conditionEach es)
        ({ s with relation := relation' }.conditionEach fs)
  | [], [], _ => .nil
  | _ :: _, _ :: _, h => .cons (condition hK hrelation h.1) (conditionEach hK hrelation h.2)

end

theorem joinOf {r q : Text} (hname : S r q) {es fs : List Expr} (h : Expr.AlikeEach R es fs) :
    K (s.joinOf r es) (s.joinOf q fs) := by
  have hcondition : K (s.preload r es) (s.preload q fs) :=
    hK.conditions .and (hK.conditionEach (.some hname) h)
  have hjoin : K (.atom "JOIN ".toList) (.atom "JOIN ".toList) := hK.fixed (by decide)
  have hon : K (.atom " ON".toList) (.atom " ON".toList) := hK.fixed (by decide)
  have hhead := hK.append (hK.append hjoin (hK.name hname)) hon
  refine hK.spaced (.cons hhead (.cons ?_ .nil))
  rw [hK.isEmpty hcondition]
  split
  · exact hK.fixed (by decide)
  · exact hcondition

theorem fields {names names' : List Text} (h : List.Forall₂ R names names') :
    K (.atom (s.fields names)) (.atom (s.fields names')) := by
  refine hK.atom_join (by decide) ?_
  rw [List.forall₂_map_left_iff, List.forall₂_map_right_iff]
  exact h.imp fun _ _ hfg => hK.field hfg

theorem sortKeys {keys keys' : List SortKey}
    (h : List.Forall₂ (fun k l => R k.field l.field ∧ k.direction = l.direction) keys keys') :
    K (.atom (Text.join ", ".toList (keys.map s.sortKey)))
      (.atom (Text.join ", ".toList (keys'.map s.sortKey))) := by
  refine hK.atom_join (by decide) ?_
  rw [List.forall₂_map_left_iff, List.forall₂_map_right_iff]
  refine h.imp fun k l hkl => ?_
  have hword : Fixed (' ' :: directionWord k.direction) := by cases k.direction <;> decide
  rw [sortKey, sortKey, ← hkl.2]
  exact hK.append (hK.field hkl.1) (hK.fixed hword)

theorem part (hs : s.relation = none) {table table' : Text} (htable : S table table')
    {p q : Plan} (h : p.Alike R S q) : ∀ x : Part, K (s.part table p x) (s.part table' q x)
  | .columns => by
    rw [Style.part, Style.part, forall₂_isEmpty h.selected]
    split
    · exact hK.fixed (by decide)
    · have hselect : K (.atom "SELECT ".toList) (.atom "SELECT ".toList) := hK.fixed (by decide)
      exact hK.append hselect (hK.fields h.selected)
  | .source => by
    have hfrom : K (.atom "FROM ".toList) (.atom "FROM ".toList) := hK.fixed (by decide)
    exact hK.append hfrom (hK.name htable)
  | .joins => by
    refine hK.spaced ?_
    rw [List.forall₂_map_left_iff, List.forall₂_map_right_iff]
    exact h.preloads.imp fun _ _ hentry => hK.joinOf hentry.1 hentry.2
  | .filter => by
    have hstyle : { s with relation := none } = s := by
      cases s
      cases hs
      rfl
    have hfilter := h.filter
    rw [Style.part, Style.part]
    generalize p.request.filter = x at hfilter ⊢
    generalize q.request.filter = y at hfilter ⊢
    cases hfilter with
    | none => exact hK.empty
    | some hef =>
      have hcondition := hK.condition .none hef
      rw [hstyle] at hcondition
      simp only [Option.map_some, hK.isEmpty hcondition]
      split
      · exact hK.empty
      · exact hK.spaced (.cons (hK.fixed (by decide)) (.cons hcondition .nil))
  | .groups => hK.clause _ (by decide) (by rw [forall₂_isEmpty h.groupBy]) (hK.fields h.groupBy)
  | .order => hK.clause _ (by decide) (by rw [forall₂_isEmpty h.sort]) (hK.sortKeys h.sort)
  | .limit => by
    rw [Style.part, Style.part, h.page]
    exact hK.clause _ (by decide) rfl (hK.fixed (fixed_ofNat _))
  | .offset => by
    rw [Style.part, Style.part, h.page]
    exact hK.clause _ (by decide) rfl (hK.fixed (fixed_ofNat _))
  | .find | .aggregate | .unknown _ => hK.empty

/-- Statements of plans that are alike are related, whichever parts they have. -/
theorem statement (hs : s.relation = none) {table table' : Text} (htable : S table table')
    {p q : Plan} (h : p.Alike R S q) (parts : List Part) :
    K (s.statement table p parts) (s.statement table' q parts) := by
  refine hK.spaced ?_
  rw [List.forall₂_map_left_iff, List.forall₂_map_right_iff, List.forall₂_same]
  exact fun x _ => hK.part hs htable h x

end Congruence

end Style

end Sql

end FilterQuery
