import FilterQuery.Node
set_option autoImplicit false

/-!
The nodes that the text of an expression holds, and the expression they are assembled to: its
normal form, in which junctions are nested to the left in pairs and nothing is empty.
-/

namespace FilterQuery

namespace Expr

def joinPairs (j : Junction) : List Expr → Option Expr
  | [] => none
  | e :: es => some (es.foldl (fun l r => .junction j [l, r]) e)

mutual

/-- The normal form: a junction of no operands and a negation of nothing go, a junction of one
operand is that operand, and one of more operands is nested to the left in pairs. -/
def paired : Expr → Option Expr
  | .leaf f t => some (.leaf f t)
  | .junction j es => joinPairs j (pairedEach es)
  | .not e => e.paired.map .not

def pairedEach : List Expr → List Expr
  | [] => []
  | e :: es => e.paired.toList ++ pairedEach es

end

theorem pairedEach_eq_filterMap (es : List Expr) : pairedEach es = es.filterMap paired := by
  induction es with
  | nil => rfl
  | cons e es ih => cases h : e.paired <;> simp [pairedEach, ih, h]

mutual

def isBinary : Expr → Bool
  | .leaf _ _ => true
  | .junction _ es => es.length == 2 && isBinaryEach es
  | .not e => e.isBinary

def isBinaryEach : List Expr → Bool
  | [] => true
  | e :: es => e.isBinary && isBinaryEach es

end

mutual

theorem paired_of_isBinary : ∀ {e : Expr}, e.isBinary = true → e.paired = some e
  | .leaf _ _, _ => rfl
  | .junction j es, h => by
    rw [isBinary, Bool.and_eq_true, beq_iff_eq] at h
    rw [paired, pairedEach_of_isBinaryEach h.2]
    match es, h.1 with
    | [l, r], _ => rfl
  | .not e, h => by
    rw [isBinary] at h
    rw [paired, paired_of_isBinary h]
    rfl

theorem pairedEach_of_isBinaryEach : ∀ {es : List Expr}, isBinaryEach es = true →
    pairedEach es = es
  | [], _ => rfl
  | e :: es, h => by
    rw [isBinaryEach, Bool.and_eq_true] at h
    rw [pairedEach, paired_of_isBinary h.1, pairedEach_of_isBinaryEach h.2]
    rfl

end

mutual

def nodes : Expr → List Node
  | .leaf f t => [.leaf (.leaf f t)]
  | .junction j es => [.group (nodesEach j es)]
  | .not e => [.word .not, .group e.nodes]

def nodesEach (j : Junction) : List Expr → List Node
  | [] => []
  | [e] => e.nodes
  | e :: f :: es => e.nodes ++ .word (.join j) :: nodesEach j (f :: es)

end

end Expr

namespace Item

theorem runs_and (e : Expr) (es : List Expr) :
    runs e (es.map (Prod.mk .and)) = [es.foldl (fun l r => .junction .and [l, r]) e] := by
  induction es generalizing e with
  | nil => rfl
  | cons f es ih => exact ih _

theorem runs_or (e : Expr) (es : List Expr) : runs e (es.map (Prod.mk .or)) = e :: es := by
  induction es generalizing e with
  | nil => rfl
  | cons f es ih => rw [List.map_cons, runs, ih]

theorem joinOr_runs (j : Junction) (e : Expr) (es : List Expr) :
    joinOr (runs e (es.map (Prod.mk j))) = Expr.joinPairs j (e :: es) := by
  cases j with
  | and =>
    rw [runs_and]
    rfl
  | or =>
    rw [runs_or]
    rfl

/-- Operands, or places where one is missing, with a junction word between every two. -/
def spaced (j : Junction) : List (Option Expr) → List Item
  | [] => []
  | [x] => (x.map operand).toList
  | x :: y :: xs => (x.map operand).toList ++ word (.join j) :: spaced j (y :: xs)

theorem links_pending (j : Junction) (xs : List (Option Expr)) :
    links (some j) (spaced j xs) = (xs.filterMap id).map (Prod.mk j) := by
  induction xs with
  | nil => rfl
  | cons x xs ih =>
    cases xs with
    | nil => cases x <;> rfl
    | cons y xs =>
      cases x with
      | none => exact ih
      | some e => exact congrArg ((j, e) :: ·) ih

/-- The word before the first operand says nothing; every later one is behind the same word. -/
theorem links_spaced (j : Junction) (xs : List (Option Expr)) :
    match xs.filterMap id with
    | [] => links none (spaced j xs) = []
    | e :: es => ∃ k, links none (spaced j xs) = (k, e) :: es.map (Prod.mk j) := by
  cases xs with
  | nil => rfl
  | cons x xs =>
    cases xs with
    | nil =>
      cases x with
      | none => rfl
      | some e => exact ⟨.and, rfl⟩
    | cons y xs =>
      have hpending := links_pending j (y :: xs)
      cases x with
      | none =>
        change match (y :: xs).filterMap id with
          | [] => links (some j) (spaced j (y :: xs)) = []
          | e :: es => ∃ k, links (some j) (spaced j (y :: xs)) = (k, e) :: es.map (Prod.mk j)
        rw [hpending]
        cases (y :: xs).filterMap id with
        | nil => rfl
        | cons e es => exact ⟨j, rfl⟩
      | some e => exact ⟨.and, congrArg (List.cons (Junction.and, e)) hpending⟩

theorem assemble_spaced {items : List Item} (j : Junction) (xs : List (Option Expr))
    (h : applyNot items = spaced j xs) :
    assemble items = Expr.joinPairs j (xs.filterMap id) := by
  have hlinks := links_spaced j xs
  rw [assemble, h]
  cases hops : xs.filterMap id with
  | nil =>
    rw [hops] at hlinks
    rw [hlinks]
    rfl
  | cons e es =>
    rw [hops] at hlinks
    obtain ⟨k, hk⟩ := hlinks
    rw [hk]
    exact joinOr_runs j e es

theorem assemble_of_applyNot {items : List Item} {x : Option Expr}
    (h : applyNot items = (x.map operand).toList) : assemble items = x := by
  rw [assemble_spaced .and [x] h]
  cases x <;> rfl

def StartsNoOperand (items : List Item) : Prop := ∀ e, items.head? ≠ some (.operand e)

theorem startsNoOperand_nil : StartsNoOperand (applyNot []) := by simp [StartsNoOperand, applyNot]

/-- A `not` before items that start with no operand negates nothing and goes. -/
theorem applyNot_not {items : List Item} (h : StartsNoOperand (applyNot items)) :
    applyNot (.word .not :: items) = applyNot items := by
  rw [applyNot]
  split
  · rename_i e rest heq
    exact absurd (congrArg List.head? heq) (h e)
  · rfl

end Item

namespace Node

open Item

theorem items_append (ns ms : List Node) : items (ns ++ ms) = items ns ++ items ms := by
  induction ns with
  | nil => rfl
  | cons n ns ih => cases h : item? n <;> simp [items, h, ih]

theorem items_word (k : Keyword) (ns : List Node) :
    items (.word k :: ns) = .word k :: items ns := rfl

theorem items_group (ns ms : List Node) :
    items (.group ns :: ms) = ((assemble ns).map Item.operand).toList ++ items ms := by
  rw [items, item?, assemble]
  cases Item.assemble (items ns) <;> rfl

mutual

theorem applyNot_nodes : ∀ (e : Expr) (rest : List Item), StartsNoOperand (applyNot rest) →
    applyNot (items e.nodes ++ rest) = (e.paired.map Item.operand).toList ++ applyNot rest
  | .leaf f t, rest, _ => rfl
  | .junction j es, rest, _ => by
    have hes : assemble (Expr.nodesEach j es) = Expr.joinPairs j (Expr.pairedEach es) := by
      rw [assemble, assemble_spaced j _ (applyNot_nodesEach j es), Expr.pairedEach_eq_filterMap]
      simp
    rw [Expr.nodes, items_group, hes, Expr.paired]
    cases Expr.joinPairs j (Expr.pairedEach es) <;> rfl
  | .not e, rest, h => by
    have hinner := applyNot_nodes e [] startsNoOperand_nil
    have he : assemble e.nodes = e.paired := by
      rw [applyNot, List.append_nil, List.append_nil] at hinner
      exact assemble_of_applyNot hinner
    rw [Expr.nodes, items_word, items_group, he, Expr.paired]
    cases e.paired with
    | none => exact applyNot_not h
    | some e => rfl

theorem applyNot_nodesEach (j : Junction) : ∀ es : List Expr,
    applyNot (items (Expr.nodesEach j es)) = spaced j (es.map Expr.paired)
  | [] => rfl
  | [e] => by
    have h := applyNot_nodes e [] startsNoOperand_nil
    rw [applyNot, List.append_nil, List.append_nil] at h
    rw [Expr.nodesEach, h]
    rfl
  | e :: f :: es => by
    have hword : ∀ rest, applyNot (.word (.join j) :: rest) = .word (.join j) :: applyNot rest :=
      fun _ => rfl
    rw [Expr.nodesEach, items_append, items_word, applyNot_nodes e, hword,
      applyNot_nodesEach j (f :: es)]
    · rfl
    · simp [StartsNoOperand, hword]

end

theorem assemble_nodes (e : Expr) : assemble e.nodes = e.paired := by
  have h := applyNot_nodes e [] startsNoOperand_nil
  rw [applyNot, List.append_nil, List.append_nil] at h
  exact assemble_of_applyNot h

end Node

end FilterQuery
