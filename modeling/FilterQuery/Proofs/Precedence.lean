import FilterQuery.Proofs.Node
import Mathlib.Data.List.DropRight
import Mathlib.Data.List.SplitBy
set_option autoImplicit false

/-!
The meaning of a list of nodes by precedence. Each operand comes behind a gap of keywords: the
`not`s at the end of the gap negate it, and the first junction word of the gap links it to the
operand before it. Runs of operands linked by `and` are joined first and the runs by `or`. The
assembler gives this meaning to every list of nodes, well formed or not.
-/

namespace FilterQuery

def Keyword.junction? : Keyword → Option Junction
  | .join j => some j
  | .not => none

/-- The keywords since the last operand. -/
abbrev Gap := List Keyword

namespace Gap

def nots (g : Gap) : Nat := (g.rtakeWhile (· = .not)).length

def junction? (g : Gap) : Option Junction := g.findSome? Keyword.junction?

def operand (g : Gap) (e : Expr) : Junction × Expr := (g.junction?.getD .and, Expr.not^[g.nots] e)

@[simp] theorem nots_not (g : Gap) : nots (g ++ [.not]) = g.nots + 1 := by
  simp [nots]

@[simp] theorem nots_join (g : Gap) (j : Junction) : nots (g ++ [.join j]) = 0 := by
  simp [nots]

@[simp] theorem junction?_not (g : Gap) : junction? (g ++ [.not]) = g.junction? := by
  simp [junction?, List.findSome?_append, Keyword.junction?]

@[simp] theorem junction?_join (g : Gap) (j : Junction) :
    junction? (g ++ [.join j]) = g.junction?.or (some j) := by
  simp [junction?, List.findSome?_append, Keyword.junction?]

end Gap

namespace Expr

/-- The longest runs of operands linked by `and`. -/
def andRuns (ops : List (Junction × Expr)) : List (List (Junction × Expr)) :=
  ops.splitBy fun _ next => next.1 = .and

/-- Operands linked by `and` are one run, whatever links the first of them. -/
theorem andRuns_linked (j : Junction) (e : Expr) (es : List Expr) :
    andRuns ((j, e) :: es.map (Prod.mk .and)) = [(j, e) :: es.map (Prod.mk .and)] := by
  refine List.splitBy_of_isChain (List.cons_ne_nil _ _) ?_
  induction es generalizing j e with
  | nil => exact List.isChain_singleton _
  | cons f es ih => exact List.isChain_cons_cons.2 ⟨rfl, ih .and f⟩

theorem andRuns_or (ops : List (Junction × Expr)) (e : Expr) (rest : List (Junction × Expr)) :
    andRuns (ops ++ (.or, e) :: rest) = andRuns ops ++ andRuns ((.or, e) :: rest) :=
  List.splitBy_append (by simp)

theorem joinPairs_andRuns_linked (j : Junction) (e : Expr) (es : List Expr) :
    (andRuns ((j, e) :: es.map (Prod.mk .and))).filterMap
        (fun run => joinPairs .and (run.map Prod.snd)) =
      [es.foldl (fun l r => .junction .and [l, r]) e] := by
  rw [andRuns_linked]
  simp [joinPairs, Function.comp_def]

/-- Joins the operands of each run to the left by `and`, and the runs by `or`. -/
def byPrecedence (ops : List (Junction × Expr)) : Option Expr :=
  joinPairs .or ((andRuns ops).filterMap fun run => joinPairs .and (run.map Prod.snd))

end Expr

namespace Node

mutual

def operand? : Node → Option Expr
  | .leaf e => some e
  | .word _ => none
  | .group ns => Expr.byPrecedence (operands [] ns)

/-- The operands of a list of nodes behind a gap, each with the word that links it to the operand
before it. -/
def operands (g : Gap) : List Node → List (Junction × Expr)
  | [] => []
  | .word k :: ns => operands (g ++ [k]) ns
  | n :: ns =>
    match operand? n with
    | some e => g.operand e :: operands [] ns
    | none => operands g ns

end

theorem operands_group (g : Gap) (ms ns : List Node) :
    operands g (.group ms :: ns) =
      (operand? (.group ms)).elim (operands g ns) fun e => g.operand e :: operands [] ns := by
  rw [operands]
  · cases operand? (.group ms) <;> rfl
  · simp

mutual

def exprs : Node → List Expr
  | .leaf e => [e]
  | .word _ => []
  | .group ns => exprsEach ns

def exprsEach : List Node → List Expr
  | [] => []
  | n :: ns => exprs n ++ exprsEach ns

end

end Node

namespace Item

def operands (g : Gap) : List Item → List (Junction × Expr)
  | [] => []
  | .operand e :: items => g.operand e :: operands [] items
  | .word k :: items => operands (g ++ [k]) items

theorem applyNot_nots_nil (n : Nat) : applyNot (List.replicate n (word .not)) = [] := by
  induction n with
  | zero => rfl
  | succ n ih => rw [List.replicate_succ, applyNot, ih]

theorem applyNot_nots_operand (n : Nat) (e : Expr) (items : List Item) :
    applyNot (List.replicate n (word .not) ++ operand e :: items) =
      operand (Expr.not^[n] e) :: applyNot items := by
  induction n with
  | zero => rfl
  | succ n ih =>
    rw [List.replicate_succ, List.cons_append, applyNot, ih, Function.iterate_succ_apply']

theorem applyNot_nots_join (n : Nat) (j : Junction) (items : List Item) :
    applyNot (List.replicate n (word .not) ++ word (.join j) :: items) =
      word (.join j) :: applyNot items := by
  induction n with
  | zero => rfl
  | succ n ih => rw [List.replicate_succ, List.cons_append, applyNot, ih]

/-- Of the gap before the items only its first junction word and the `not`s at its end count. -/
theorem links_applyNot (g : Gap) (items : List Item) :
    links g.junction? (applyNot (List.replicate g.nots (word .not) ++ items)) =
      operands g items := by
  induction items generalizing g with
  | nil => rw [List.append_nil, applyNot_nots_nil, links, operands]
  | cons item items ih =>
    cases item with
    | operand e => rw [applyNot_nots_operand, links, operands, ← ih []]; rfl
    | word k =>
      rw [operands, ← ih (g ++ [k])]
      cases k with
      | not => rw [Gap.nots_not, Gap.junction?_not, List.replicate_succ', List.append_assoc]; rfl
      | join j => rw [applyNot_nots_join, links, Gap.nots_join, Gap.junction?_join]; rfl

theorem runs_eq_andRuns (j : Junction) (e : Expr) (es : List Expr) (rest : List (Junction × Expr)) :
    runs (es.foldl (fun l r => .junction .and [l, r]) e) rest =
      (Expr.andRuns ((j, e) :: es.map (Prod.mk .and) ++ rest)).filterMap
        fun run => Expr.joinPairs .and (run.map Prod.snd) := by
  -- over the operands to come, with the operands `es` of the run that is still open
  induction rest generalizing j e es with
  | nil => rw [List.append_nil, runs, Expr.joinPairs_andRuns_linked]
  | cons op rest ih =>
    obtain ⟨k, x⟩ := op
    cases k with
    | and =>
      have h := ih j e (es ++ [x])
      rw [List.foldl_concat, List.map_append, ← List.cons_append, List.append_assoc] at h
      exact h
    | or =>
      rw [runs, Expr.andRuns_or, List.filterMap_append, Expr.joinPairs_andRuns_linked]
      exact congrArg _ (ih .or x [])

theorem joinOr_runs_eq_byPrecedence (op : Junction × Expr) (ops : List (Junction × Expr)) :
    joinOr (runs op.2 ops) = Expr.byPrecedence (op :: ops) := by
  have hjoin (es : List Expr) : joinOr es = Expr.joinPairs .or es := by cases es <;> rfl
  have hruns := runs_eq_andRuns op.1 op.2 [] ops
  simp only [List.foldl_nil, List.map_nil, List.cons_append, List.nil_append] at hruns
  rw [hjoin, hruns, Expr.byPrecedence]

theorem assemble_eq_byPrecedence (items : List Item) :
    assemble items = Expr.byPrecedence (operands [] items) := by
  have hlinks : links none (applyNot items) = operands [] items := links_applyNot [] items
  rw [assemble, hlinks]
  cases operands [] items with
  | nil => rfl
  | cons op ops => exact joinOr_runs_eq_byPrecedence op ops

end Item

namespace Node

theorem operands_items : ∀ (g : Gap) (ns : List Node),
    Item.operands g (items ns) = operands g ns
  | g, [] => rfl
  | g, .leaf e :: ns => congrArg (g.operand e :: ·) (operands_items [] ns)
  | g, .word k :: ns => operands_items (g ++ [k]) ns
  | g, .group ms :: ns => by
    have hgroup : assemble ms = operand? (.group ms) := by
      rw [assemble, Item.assemble_eq_byPrecedence, operands_items [] ms, operand?]
    rw [items_group, hgroup, operands_group]
    cases operand? (.group ms) with
    | none => exact operands_items g ns
    | some e => exact congrArg (g.operand e :: ·) (operands_items [] ns)

theorem assemble_eq_byPrecedence (ns : List Node) :
    assemble ns = Expr.byPrecedence (operands [] ns) := by
  rw [assemble, Item.assemble_eq_byPrecedence, operands_items]

end Node

namespace Expr

theorem joinPairs_eq_none {j : Junction} {es : List Expr} : joinPairs j es = none ↔ es = [] := by
  cases es <;> simp [joinPairs]

theorem byPrecedence_eq_none {ops : List (Junction × Expr)} :
    byPrecedence ops = none ↔ ops = [] := by
  rw [byPrecedence, joinPairs_eq_none, List.filterMap_eq_nil_iff]
  constructor
  · intro h
    rw [← List.splitBy_eq_nil, List.eq_nil_iff_forall_not_mem]
    intro run hrun
    have hnil := List.map_eq_nil_iff.1 (joinPairs_eq_none.1 (h run hrun))
    exact List.ne_nil_of_mem_splitBy hrun hnil
  · rintro rfl
    simp [andRuns]

def total {M : Type} (f : Expr → M) (add : M → M → M) (z : M) (es : List Expr) : M :=
  (es.map f).foldr add z

structure Additive {M : Type} (f : Expr → M) (add : M → M → M) : Prop where
  pair (j : Junction) (l r : Expr) : f (.junction j [l, r]) = add (f l) (f r)
  not (e : Expr) : f (.not e) = f e

theorem additive_leaves : Additive leaves (· ++ ·) where
  pair _ _ _ := by simp [leaves, leavesEach]
  not _ := by rw [leaves]

theorem additive_isBinary : Additive isBinary (· && ·) where
  pair _ _ _ := by simp [isBinary, isBinaryEach]
  not _ := by rw [isBinary]

theorem total_leaves (es : List Expr) : total leaves (· ++ ·) [] es = es.flatMap leaves := by
  induction es with
  | nil => rfl
  | cons e es ih => exact congrArg (e.leaves ++ ·) ih

theorem total_isBinary (es : List Expr) : total isBinary (· && ·) true es = es.all isBinary := by
  induction es with
  | nil => rfl
  | cons e es ih => exact congrArg (e.isBinary && ·) ih

namespace Additive

variable {M : Type} {f : Expr → M} {add : M → M → M} {z : M} [Std.Associative add]
  [Std.LawfulIdentity add z]

theorem total_append (es fs : List Expr) :
    total f add z (es ++ fs) = add (total f add z es) (total f add z fs) := by
  induction es with
  | nil => exact (Std.LawfulLeftIdentity.left_id _).symm
  | cons e es ih => exact (congrArg (add (f e)) ih).trans (Std.Associative.assoc _ _ _).symm

theorem joinPairs (h : Additive f add) (j : Junction) (es : List Expr) :
    (Expr.joinPairs j es).elim z f = total f add z es := by
  cases es with
  | nil => rfl
  | cons e es =>
    change f (es.foldl (fun l r => .junction j [l, r]) e) = add (f e) (total f add z es)
    induction es generalizing e with
    | nil => exact (Std.LawfulRightIdentity.right_id _).symm
    | cons x es ih =>
      rw [List.foldl_cons, ih, h.pair]
      exact Std.Associative.assoc _ _ _

omit [Std.Associative add] in
theorem operand (h : Additive f add) (g : Gap) (e : Expr) : f (g.operand e).2 = f e := by
  change f (Expr.not^[g.nots] e) = f e
  induction g.nots with
  | zero => rfl
  | succ n ih => rw [Function.iterate_succ_apply', h.not, ih]

theorem byPrecedence (h : Additive f add) (ops : List (Junction × Expr)) :
    (Expr.byPrecedence ops).elim z f = total f add z (ops.map Prod.snd) := by
  have hruns (runs : List (List (Junction × Expr))) :
      total f add z (runs.filterMap fun run => Expr.joinPairs .and (run.map Prod.snd)) =
        total f add z (runs.flatten.map Prod.snd) := by
    induction runs with
    | nil => rfl
    | cons run runs ih =>
      have hrun := h.joinPairs (z := z) .and (run.map Prod.snd)
      rw [List.flatten_cons, List.map_append, total_append, ← hrun, ← ih, List.filterMap_cons]
      cases Expr.joinPairs .and (run.map Prod.snd) with
      | none => exact (Std.LawfulLeftIdentity.left_id _).symm
      | some e => rfl
  rw [Expr.byPrecedence, h.joinPairs, hruns, andRuns, List.flatten_splitBy]

theorem operands (h : Additive f add) : ∀ (g : Gap) (ns : List Node),
    total f add z ((Node.operands g ns).map Prod.snd) = total f add z (Node.exprsEach ns)
  | g, [] => rfl
  | g, .leaf e :: ns => congrArg₂ add (h.operand g e) (operands h [] ns)
  | g, .word k :: ns => operands h (g ++ [k]) ns
  | g, .group ms :: ns => by
    have hgroup : (Node.operand? (.group ms)).elim z f = total f add z (Node.exprsEach ms) := by
      rw [Node.operand?, h.byPrecedence, operands h [] ms]
    rw [Node.exprsEach, Node.exprs, total_append, ← hgroup, Node.operands_group]
    cases Node.operand? (.group ms) with
    | none => exact (operands h g ns).trans (Std.LawfulLeftIdentity.left_id _).symm
    | some e => exact congrArg₂ add (h.operand g e) (operands h [] ns)

theorem assemble (h : Additive f add) (ns : List Node) :
    (Node.assemble ns).elim z f = total f add z (Node.exprsEach ns) := by
  rw [Node.assemble_eq_byPrecedence, h.byPrecedence, h.operands]

end Additive

end Expr

namespace Node

/-- Every list of nodes is assembled by precedence: to nothing exactly if it holds no operand, with
every leaf once and in order, and with two operands in every junction that is made. -/
theorem assemble_by_precedence (ns : List Node) :
    assemble ns = Expr.byPrecedence (operands [] ns) ∧
    (assemble ns = none ↔ operands [] ns = []) ∧
    (assemble ns).elim [] Expr.leaves = (exprsEach ns).flatMap Expr.leaves ∧
    (assemble ns).elim true Expr.isBinary = (exprsEach ns).all Expr.isBinary := by
  refine ⟨assemble_eq_byPrecedence ns, ?_, ?_, ?_⟩
  · rw [assemble_eq_byPrecedence, Expr.byPrecedence_eq_none]
  · rw [Expr.additive_leaves.assemble, Expr.total_leaves]
  · rw [Expr.additive_isBinary.assemble, Expr.total_isBinary]

/-- A `not` that an empty group parts from its operand negates it all the same; one before a
junction word negates nothing. -/
example (a b c : Expr) :
    operands [] [.leaf a, .word (.join .or), .word .not, .word (.join .and), .word .not,
      .group [.word .not], .leaf b, .leaf c] = [(.and, a), (.or, .not b), (.and, c)] := rfl

end Node

end FilterQuery
