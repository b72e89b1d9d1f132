import FilterQuery.Proofs.Precedence
import Mathlib.Data.List.Forall2
set_option autoImplicit false

/-!
The keywords of an expression, and what they tell of the operands it was joined from. Joining by
precedence keeps the keywords in order, so operands with as many junction words each can be told
apart in the result, and so can the words that link them.
-/

namespace FilterQuery

namespace Expr

mutual

def keywords : Expr → List Keyword
  | .leaf _ _ => []
  | .junction j es => keywordsEach j es
  | .not e => .not :: e.keywords

def keywordsEach (j : Junction) : List Expr → List Keyword
  | [] => []
  | [e] => e.keywords
  | e :: f :: es => e.keywords ++ .join j :: keywordsEach j (f :: es)

end

theorem keywords_pair (j : Junction) (l r : Expr) :
    keywords (.junction j [l, r]) = l.keywords ++ .join j :: r.keywords := by
  rw [keywords, keywordsEach, keywordsEach]

def linkedKeywords (ops : List (Junction × Expr)) : List Keyword :=
  ops.flatMap fun op => .join op.1 :: op.2.keywords

theorem keywords_foldl (j : Junction) (e : Expr) (es : List Expr) :
    (es.foldl (fun l r => .junction j [l, r]) e).keywords =
      e.keywords ++ linkedKeywords (es.map (Prod.mk j)) := by
  induction es generalizing e with
  | nil => exact (List.append_nil _).symm
  | cons x es ih =>
    rw [List.foldl_cons, ih, keywords_pair, List.append_assoc]
    rfl

theorem keywords_runs (e : Expr) (ops : List (Junction × Expr)) :
    ∃ r rs, Item.runs e ops = r :: rs ∧
      r.keywords ++ linkedKeywords (rs.map (Prod.mk .or)) = e.keywords ++ linkedKeywords ops := by
  induction ops generalizing e with
  | nil => exact ⟨e, [], rfl, rfl⟩
  | cons op ops ih =>
    obtain ⟨j, x⟩ := op
    cases j with
    | and =>
      obtain ⟨r, rs, hruns, hwords⟩ := ih (.junction .and [e, x])
      refine ⟨r, rs, hruns, ?_⟩
      rw [hwords, keywords_pair, List.append_assoc]
      rfl
    | or =>
      obtain ⟨r, rs, hruns, hwords⟩ := ih x
      refine ⟨e, r :: rs, by rw [Item.runs, hruns], ?_⟩
      exact congrArg (fun ks => e.keywords ++ Keyword.join .or :: ks) hwords

def joined (e : Expr) (ops : List (Junction × Expr)) : Option Expr := Item.joinOr (Item.runs e ops)

theorem byPrecedence_cons (op : Junction × Expr) (ops : List (Junction × Expr)) :
    byPrecedence (op :: ops) = joined op.2 ops :=
  (Item.joinOr_runs_eq_byPrecedence op ops).symm

/-- The word that links the first operand says nothing. -/
theorem byPrecedence_congr {ops qs : List (Junction × Expr)}
    (hsnd : ops.map Prod.snd = qs.map Prod.snd) (htail : ops.tail = qs.tail) :
    byPrecedence ops = byPrecedence qs := by
  cases ops with
  | nil => rw [List.map_eq_nil_iff.1 hsnd.symm]
  | cons op ops =>
    cases qs with
    | nil => cases hsnd
    | cons q qs =>
      cases htail
      rw [byPrecedence_cons, byPrecedence_cons, (List.cons.inj hsnd).1]

theorem keywords_joined (e : Expr) (ops : List (Junction × Expr)) :
    ∃ p, joined e ops = some p ∧ p.keywords = e.keywords ++ linkedKeywords ops := by
  obtain ⟨r, rs, hruns, hwords⟩ := keywords_runs e ops
  exact ⟨_, by rw [joined, hruns, Item.joinOr], by rw [keywords_foldl, hwords]⟩

def junctions (e : Expr) : List Junction := e.keywords.filterMap Keyword.junction?

def negations (e : Expr) : Nat := e.keywords.count .not

/-- A reading with the junctions of what is meant, in number, and at least its negations. -/
structure Strays (read meant : Expr) : Prop where
  junctions : read.junctions.length = meant.junctions.length
  negations : meant.negations ≤ read.negations

namespace Strays

variable {p h : Expr}

theorem refl (e : Expr) : Strays e e := ⟨rfl, Nat.le_refl _⟩

theorem junctions_not (e : Expr) : (Expr.not e).junctions = e.junctions := by
  rw [Expr.junctions, keywords]
  rfl

theorem negations_not (e : Expr) : (Expr.not e).negations = e.negations + 1 := by
  rw [Expr.negations, keywords, List.count_cons_self]
  rfl

theorem junctions_nots (n : Nat) (e : Expr) : (Expr.not^[n] e).junctions = e.junctions := by
  induction n with
  | zero => rfl
  | succ n ih => rw [Function.iterate_succ_apply', junctions_not, ih]

theorem negations_nots (n : Nat) (e : Expr) : (Expr.not^[n] e).negations = e.negations + n := by
  induction n with
  | zero => rfl
  | succ n ih => rw [Function.iterate_succ_apply', negations_not, ih, Nat.add_assoc]

theorem not (hs : Strays p h) : Strays p.not h.not := by
  refine ⟨by rw [junctions_not, junctions_not, hs.junctions], ?_⟩
  rw [negations_not, negations_not]
  exact Nat.succ_le_succ hs.negations

theorem nots (hs : Strays p h) (n : Nat) : Strays (Expr.not^[n] p) h := by
  refine ⟨by rw [junctions_nots, hs.junctions], ?_⟩
  rw [negations_nots]
  exact Nat.le_add_right_of_le hs.negations

theorem nots_eq_iff (hs : Strays p h) (n : Nat) : Expr.not^[n] p = h ↔ n = 0 ∧ p = h := by
  constructor
  · intro heq
    have hcount := congrArg Expr.negations heq
    rw [negations_nots] at hcount
    have hn : n = 0 := by have := hs.negations; omega
    subst hn
    exact ⟨rfl, heq⟩
  · rintro ⟨rfl, rfl⟩
    rfl

end Strays

section Joined

variable {e f p h : Expr} {ops qs : List (Junction × Expr)}

abbrev StrayEach (ops qs : List (Junction × Expr)) : Prop :=
  List.Forall₂ (fun op q => Strays op.2 q.2) ops qs

theorem junctions_joined (hp : joined e ops = some p) :
    p.junctions = e.junctions ++ ops.flatMap fun op => op.1 :: op.2.junctions := by
  obtain ⟨p', hp', hwords⟩ := keywords_joined e ops
  cases hp.symm.trans hp'
  rw [junctions, hwords, List.filterMap_append, linkedKeywords, List.filterMap_flatMap]
  rfl

theorem negations_joined (hp : joined e ops = some p) :
    p.negations = e.negations + (linkedKeywords ops).count .not := by
  obtain ⟨p', hp', hwords⟩ := keywords_joined e ops
  cases hp.symm.trans hp'
  rw [negations, hwords, List.count_append, negations]

theorem negations_linked_cons (op : Junction × Expr) (ops : List (Junction × Expr)) :
    (linkedKeywords (op :: ops)).count .not =
      op.2.negations + (linkedKeywords ops).count .not := by
  rw [linkedKeywords, List.flatMap_cons, List.count_append, List.count_cons_of_ne (by simp)]
  rfl

theorem Strays.joined (hs : Strays e f) (heach : StrayEach ops qs)
    (hp : Expr.joined e ops = some p) (hh : Expr.joined f qs = some h) : Strays p h := by
  constructor
  · rw [junctions_joined hp, junctions_joined hh, List.length_append, List.length_append,
      hs.junctions, List.length_flatMap, List.length_flatMap]
    refine congrArg (f.junctions.length + List.sum ·) ?_
    clear hp hh
    induction heach with
    | nil => rfl
    | cons hop _ ih => exact congrArg₂ List.cons (congrArg Nat.succ hop.junctions) ih
  · rw [negations_joined hp, negations_joined hh]
    refine Nat.add_le_add hs.negations ?_
    clear hp hh
    induction heach with
    | nil => exact Nat.le_refl 0
    | cons hop _ ih =>
      rw [negations_linked_cons, negations_linked_cons]
      exact Nat.add_le_add hop.negations ih

/-- The junction words of a result tell which word links which operand. -/
theorem links_eq (heach : StrayEach ops qs)
    (h : (ops.flatMap fun op => op.1 :: op.2.junctions) =
      qs.flatMap fun q => q.1 :: q.2.junctions) : ops.map Prod.fst = qs.map Prod.fst := by
  induction heach with
  | nil => rfl
  | cons hop _ ih =>
    rw [List.flatMap_cons, List.flatMap_cons] at h
    obtain ⟨hhead, hrest⟩ := List.append_inj h (congrArg Nat.succ hop.junctions)
    exact congrArg₂ List.cons (List.cons.inj hhead).1 (ih hrest)

theorem foldl_inj {j : Junction} {es fs : List Expr} (hlength : es.length = fs.length)
    (h : es.foldl (fun l r => .junction j [l, r]) e = fs.foldl (fun l r => .junction j [l, r]) f) :
    e = f ∧ es = fs := by
  induction es generalizing e f fs with
  | nil =>
    cases fs with
    | nil => exact ⟨h, rfl⟩
    | cons y fs => cases hlength
  | cons x es ih =>
    cases fs with
    | nil => cases hlength
    | cons y fs =>
      obtain ⟨hpair, hrest⟩ := ih (Nat.succ.inj hlength) h
      cases hpair
      exact ⟨rfl, congrArg _ hrest⟩

theorem length_runs (hlinks : ops.map Prod.fst = qs.map Prod.fst) :
    (Item.runs e ops).length = (Item.runs f qs).length := by
  induction ops generalizing e f qs with
  | nil =>
    cases qs with
    | nil => rfl
    | cons q qs => cases hlinks
  | cons op ops ih =>
    cases qs with
    | nil => cases hlinks
    | cons q qs =>
      obtain ⟨hlink, hrest⟩ := List.cons.inj hlinks
      obtain ⟨j, x⟩ := op
      obtain ⟨k, y⟩ := q
      cases hlink
      cases j with
      | and => exact ih (e := .junction .and [e, x]) (f := .junction .and [f, y]) hrest
      | or => exact congrArg Nat.succ (ih hrest)

theorem runs_inj (hlinks : ops.map Prod.fst = qs.map Prod.fst)
    (h : Item.runs e ops = Item.runs f qs) : e = f ∧ ops = qs := by
  -- both sides go on with their open run, or both start another one
  induction ops generalizing e f qs with
  | nil =>
    cases qs with
    | nil => exact ⟨(List.cons.inj h).1, rfl⟩
    | cons q qs => cases hlinks
  | cons op ops ih =>
    cases qs with
    | nil => cases hlinks
    | cons q qs =>
      obtain ⟨hlink, hrest⟩ := List.cons.inj hlinks
      obtain ⟨j, x⟩ := op
      obtain ⟨k, y⟩ := q
      cases hlink
      cases j with
      | and =>
        obtain ⟨hpair, hops⟩ := ih hrest h
        cases hpair
        exact ⟨rfl, congrArg _ hops⟩
      | or =>
        obtain ⟨he, hruns⟩ := List.cons.inj h
        obtain ⟨hx, hops⟩ := ih hrest hruns
        exact ⟨he, by rw [hx, hops]⟩

/-- Operands that stray can be told apart in what they are joined to. -/
theorem joined_inj (hs : Strays e f) (heach : StrayEach ops qs) (h : joined e ops = joined f qs) :
    e = f ∧ ops = qs := by
  obtain ⟨p, hp, -⟩ := keywords_joined e ops
  have hjunctions := (junctions_joined hp).symm.trans (junctions_joined (h ▸ hp))
  have hlinks := links_eq heach (List.append_inj hjunctions hs.junctions).2
  refine runs_inj hlinks ?_
  have hlength := length_runs (e := e) (f := f) hlinks
  rw [joined, joined] at h
  cases hr : Item.runs e ops with
  | nil =>
    cases hq : Item.runs f qs with
    | nil => rfl
    | cons y ys =>
      rw [hr, hq] at hlength
      cases hlength
  | cons x xs =>
    cases hq : Item.runs f qs with
    | nil =>
      rw [hr, hq] at hlength
      cases hlength
    | cons y ys =>
      rw [hr, hq] at hlength h
      obtain ⟨hx, hxs⟩ := foldl_inj (Nat.succ.inj hlength) (Option.some.inj h)
      rw [hx, hxs]

end Joined

/-- Results of joining operands by precedence, of which the first has the same link, stray when the
operands do, and differ when the operands do. -/
theorem byPrecedence_strays {ops qs : List (Junction × Expr)} (heach : StrayEach ops qs)
    {j : Junction} (hops : ∀ op ∈ ops.head?, op.1 = j) (hqs : ∀ q ∈ qs.head?, q.1 = j) :
    Option.Rel Strays (byPrecedence ops) (byPrecedence qs) ∧
      (byPrecedence ops = byPrecedence qs ↔ ops = qs) := by
  cases heach with
  | nil => exact ⟨.none, by simp⟩
  | @cons op q ops qs hop heach =>
    obtain ⟨j, e⟩ := op
    obtain ⟨k, f⟩ := q
    cases (hops _ rfl).trans (hqs _ rfl).symm
    obtain ⟨p, hp, -⟩ := keywords_joined e ops
    obtain ⟨h, hh, -⟩ := keywords_joined f qs
    rw [byPrecedence_cons, byPrecedence_cons]
    refine ⟨?_, fun heq => ?_, fun heq => by cases heq; rfl⟩
    · rw [hp, hh]
      exact .some (hop.joined heach hp hh)
    · obtain ⟨rfl, rfl⟩ := joined_inj hop heach heq
      rfl

end Expr

end FilterQuery
