import FilterQuery.Proofs.Nesting
import FilterQuery.Proofs.Outline
import FilterQuery.Proofs.Precedence
set_option autoImplicit false

/-!
The grammar of filter text over any kind of comparison: what a sentence holds as nodes and what it
means. A comparison may stand for nothing; it then leaves nothing of its own among the nodes, but
the keywords around it stay. What the sentence means is said by the grammar: an operand that stands
for nothing is missing, together with what joins and negates it.
-/

namespace FilterQuery

namespace Grammar

mutual

inductive Disjunction (α : Type) where
  | last (c : Conjunction α)
  | or (c : Conjunction α) (d : Disjunction α)

/-- Operands that are joined by `and`, which may be said or left out. -/
inductive Conjunction (α : Type) where
  | last (u : Unary α)
  | and (u : Unary α) (said : Bool) (c : Conjunction α)

inductive Unary (α : Type) where
  | comparison (a : α)
  | not (u : Unary α)
  | group (d : Disjunction α)

end

variable {α : Type}

mutual

def Disjunction.comparisons : Disjunction α → List α
  | .last c => c.comparisons
  | .or c d => c.comparisons ++ d.comparisons

def Conjunction.comparisons : Conjunction α → List α
  | .last u => u.comparisons
  | .and u _ c => u.comparisons ++ c.comparisons

def Unary.comparisons : Unary α → List α
  | .comparison a => [a]
  | .not u => u.comparisons
  | .group d => d.comparisons

end

mutual

def Disjunction.nodes (f : α → Option Expr) : Disjunction α → List Node
  | .last c => c.nodes f
  | .or c d => c.nodes f ++ .word (.join .or) :: d.nodes f

def Conjunction.nodes (f : α → Option Expr) : Conjunction α → List Node
  | .last u => u.nodes f
  | .and u said c => u.nodes f ++ (if said then [.word (.join .and)] else []) ++ c.nodes f

def Unary.nodes (f : α → Option Expr) : Unary α → List Node
  | .comparison a => (f a).toList.map .leaf
  | .not u => .word .not :: u.nodes f
  | .group d => [.group (d.nodes f)]

end

mutual

def Disjunction.alternatives (f : α → Option Expr) : Disjunction α → List Expr
  | .last c => (Expr.joinPairs .and (c.operands f)).toList
  | .or c d => (Expr.joinPairs .and (c.operands f)).toList ++ d.alternatives f

def Conjunction.operands (f : α → Option Expr) : Conjunction α → List Expr
  | .last u => (u.meaning f).toList
  | .and u _ c => (u.meaning f).toList ++ c.operands f

def Unary.meaning (f : α → Option Expr) : Unary α → Option Expr
  | .comparison a => f a
  | .not u => (u.meaning f).map .not
  | .group d => Expr.joinPairs .or (d.alternatives f)

end

def Disjunction.meaning (f : α → Option Expr) (d : Disjunction α) : Option Expr :=
  Expr.joinPairs .or (d.alternatives f)

variable {f : α → Option Expr}

/-- Operands of one conjunction, of which the first is linked by a word to those before. -/
def linked (j : Junction) : List Expr → List (Junction × Expr)
  | [] => []
  | e :: es => (j, e) :: es.map (Prod.mk .and)

theorem linked_and (es : List Expr) : linked .and es = es.map (Prod.mk .and) := by
  cases es <;> rfl

def Disjunction.linkedOperands (f : α → Option Expr) : Disjunction α → List (Junction × Expr)
  | .last c => linked .or (c.operands f)
  | .or c d => linked .or (c.operands f) ++ d.linkedOperands f

theorem Disjunction.head_linkedOperands (d : Disjunction α) :
    ∀ op ∈ (d.linkedOperands f).head?, op.1 = .or := by
  have hlinked : ∀ es : List Expr, ∀ op ∈ (linked .or es).head?, op.1 = .or := by
    intro es op hop
    cases es with
    | nil => cases hop
    | cons e es =>
      cases hop
      rfl
  match d with
  | .last c => exact hlinked _
  | .or c d =>
    rw [linkedOperands, List.head?_append]
    intro op hop
    cases hc : (linked .or (c.operands f)).head? with
    | none =>
      rw [hc, Option.none_or] at hop
      exact d.head_linkedOperands op hop
    | some q =>
      rw [hc, Option.some_or] at hop
      exact hlinked _ op (hc ▸ hop)

def conjunctions (ops : List (Junction × Expr)) : List Expr :=
  (Expr.andRuns ops).filterMap fun run => Expr.joinPairs .and (run.map Prod.snd)

theorem conjunctions_linked (es : List Expr) :
    conjunctions (linked .or es) = (Expr.joinPairs .and es).toList := by
  cases es with
  | nil => rfl
  | cons e es => exact Expr.joinPairs_andRuns_linked .or e es

theorem conjunctions_linked_append (es : List Expr) (ops : List (Junction × Expr))
    (hops : ∀ op ∈ ops.head?, op.1 = .or) :
    conjunctions (linked .or es ++ ops) = conjunctions (linked .or es) ++ conjunctions ops := by
  cases es with
  | nil => rfl
  | cons e es =>
    cases ops with
    | nil =>
      rw [List.append_nil]
      exact (List.append_nil _).symm
    | cons op ops =>
      obtain ⟨j, x⟩ := op
      cases hops _ rfl
      rw [conjunctions, Expr.andRuns_or, List.filterMap_append]
      rfl

theorem Disjunction.conjunctions_linkedOperands : ∀ d : Disjunction α,
    conjunctions (d.linkedOperands f) = d.alternatives f
  | .last c => by rw [linkedOperands, alternatives, conjunctions_linked]
  | .or c d => by
    rw [linkedOperands, alternatives, conjunctions_linked_append _ _ d.head_linkedOperands,
      conjunctions_linked, d.conjunctions_linkedOperands]

theorem Disjunction.byPrecedence_linkedOperands (d : Disjunction α) :
    Expr.byPrecedence (d.linkedOperands f) = d.meaning f :=
  congrArg (Expr.joinPairs .or) d.conjunctions_linkedOperands

end Grammar

theorem Node.exprsEach_append (ns ms : List Node) :
    exprsEach (ns ++ ms) = exprsEach ns ++ exprsEach ms := by
  induction ns with
  | nil => rfl
  | cons n ns ih => rw [List.cons_append, exprsEach, exprsEach, ih, List.append_assoc]

namespace Expr

theorem prune_pair (keep : Text → Bool) (j : Junction) (l r : Expr) :
    prune keep (.junction j [l, r]) =
      combine j ((prune keep l).toList ++ (prune keep r).toList) := by
  rw [prune, pruneEach_eq_filterMap]
  cases hl : prune keep l <;> cases hr : prune keep r <;> simp [hl, hr]

theorem prune_joinPairs (keep : Text → Bool) (j : Junction) (es : List Expr) :
    (joinPairs j es).bind (prune keep) = joinPairs j (es.filterMap (prune keep)) := by
  cases es with
  | nil => rfl
  | cons e es =>
    rw [joinPairs, Option.bind_some]
    induction es using List.reverseRecOn with
    | nil => cases h : prune keep e <;> simp [h, joinPairs]
    | append_singleton es x ih =>
      rw [List.foldl_concat, prune_pair, ih, ← List.cons_append, List.filterMap_append]
      cases hx : prune keep x with
      | none =>
        cases hes : (e :: es).filterMap (prune keep) <;> simp [hx, joinPairs, combine]
      | some y =>
        cases hes : (e :: es).filterMap (prune keep) <;> simp [hx, joinPairs, combine]

end Expr

namespace Grammar

variable {α : Type}

mutual

/-- Only what the comparisons of a sentence stand for counts. -/
theorem Disjunction.alternatives_congr {f g : α → Option Expr} : ∀ {d : Disjunction α},
    (∀ a ∈ d.comparisons, f a = g a) → d.alternatives f = d.alternatives g
  | .last c, h => by
    rw [Disjunction.alternatives, Disjunction.alternatives, c.operands_congr h]
  | .or c d, h => by
    rw [Disjunction.comparisons, List.forall_mem_append] at h
    rw [Disjunction.alternatives, Disjunction.alternatives, c.operands_congr h.1,
      d.alternatives_congr h.2]

theorem Conjunction.operands_congr {f g : α → Option Expr} : ∀ {c : Conjunction α},
    (∀ a ∈ c.comparisons, f a = g a) → c.operands f = c.operands g
  | .last u, h => by
    rw [Conjunction.operands, Conjunction.operands, u.meaning_congr h]
  | .and u _ c, h => by
    rw [Conjunction.comparisons, List.forall_mem_append] at h
    rw [Conjunction.operands, Conjunction.operands, u.meaning_congr h.1, c.operands_congr h.2]

theorem Unary.meaning_congr {f g : α → Option Expr} : ∀ {u : Unary α},
    (∀ a ∈ u.comparisons, f a = g a) → u.meaning f = u.meaning g
  | .comparison a, h => h a (List.mem_singleton_self a)
  | .not u, h => by rw [Unary.meaning, Unary.meaning, u.meaning_congr h]
  | .group d, h => by rw [Unary.meaning, Unary.meaning, d.alternatives_congr h]

end

mutual

theorem Disjunction.exprsEach_nodes (f : α → Option Expr) : ∀ d : Disjunction α,
    Node.exprsEach (d.nodes f) = d.comparisons.flatMap fun a => (f a).toList
  | .last c => c.exprsEach_nodes f
  | .or c d => by
    rw [Disjunction.nodes, Node.exprsEach_append, Node.exprsEach, Node.exprs, List.nil_append,
      c.exprsEach_nodes f, d.exprsEach_nodes f, Disjunction.comparisons, List.flatMap_append]

theorem Conjunction.exprsEach_nodes (f : α → Option Expr) : ∀ c : Conjunction α,
    Node.exprsEach (c.nodes f) = c.comparisons.flatMap fun a => (f a).toList
  | .last u => u.exprsEach_nodes f
  | .and u said c => by
    have hword : Node.exprsEach (if said then [.word (.join .and)] else []) = [] := by
      cases said <;> rfl
    rw [Conjunction.nodes, Node.exprsEach_append, Node.exprsEach_append, hword, List.append_nil,
      u.exprsEach_nodes f, c.exprsEach_nodes f, Conjunction.comparisons, List.flatMap_append]

theorem Unary.exprsEach_nodes (f : α → Option Expr) : ∀ u : Unary α,
    Node.exprsEach (u.nodes f) = u.comparisons.flatMap fun a => (f a).toList
  | .comparison a => by
    rw [Unary.nodes, Unary.comparisons, List.flatMap_singleton]
    cases f a <;> rfl
  | .not u => u.exprsEach_nodes f
  | .group d => by
    rw [Unary.nodes, Node.exprsEach, Node.exprs, Node.exprsEach, List.append_nil,
      d.exprsEach_nodes f, Unary.comparisons]

end

def pruned (keep : Text → Bool) (f : α → Option Expr) (a : α) : Option Expr :=
  (f a).bind (Expr.prune keep)

theorem filterMap_toList (keep : Text → Bool) (o : Option Expr) :
    o.toList.filterMap (Expr.prune keep) = (o.bind (Expr.prune keep)).toList := by
  cases o with
  | none => rfl
  | some e => cases h : Expr.prune keep e <;> simp [h]

mutual

theorem Disjunction.alternatives_pruned (keep : Text → Bool) (f : α → Option Expr) :
    ∀ d : Disjunction α,
      (d.alternatives f).filterMap (Expr.prune keep) = d.alternatives (pruned keep f)
  | .last c => by
    rw [Disjunction.alternatives, Disjunction.alternatives, ← c.operands_pruned keep f,
      filterMap_toList, Expr.prune_joinPairs]
  | .or c d => by
    rw [Disjunction.alternatives, Disjunction.alternatives, ← c.operands_pruned keep f,
      ← d.alternatives_pruned keep f, List.filterMap_append, filterMap_toList,
      Expr.prune_joinPairs]

theorem Conjunction.operands_pruned (keep : Text → Bool) (f : α → Option Expr) :
    ∀ c : Conjunction α, (c.operands f).filterMap (Expr.prune keep) = c.operands (pruned keep f)
  | .last u => by
    rw [Conjunction.operands, Conjunction.operands, ← u.meaning_pruned keep f, filterMap_toList]
  | .and u _ c => by
    rw [Conjunction.operands, Conjunction.operands, ← u.meaning_pruned keep f,
      ← c.operands_pruned keep f, List.filterMap_append, filterMap_toList]

theorem Unary.meaning_pruned (keep : Text → Bool) (f : α → Option Expr) :
    ∀ u : Unary α, (u.meaning f).bind (Expr.prune keep) = u.meaning (pruned keep f)
  | .comparison _ => rfl
  | .not u => by
    rw [Unary.meaning, Unary.meaning, ← u.meaning_pruned keep f]
    cases u.meaning f <;> rfl
  | .group d => by
    rw [Unary.meaning, Unary.meaning, ← d.alternatives_pruned keep f, Expr.prune_joinPairs]

end

theorem Disjunction.meaning_pruned (keep : Text → Bool) (f : α → Option Expr) (d : Disjunction α) :
    (d.meaning f).bind (Expr.prune keep) = d.meaning (pruned keep f) := by
  rw [meaning, meaning, Expr.prune_joinPairs, d.alternatives_pruned]

/-! What survives of a sentence, and where its keywords strike what survives. -/

mutual

def Disjunction.survives (alive : α → Bool) : Disjunction α → Bool
  | .last c => c.survives alive
  | .or c d => c.survives alive || d.survives alive

def Conjunction.survives (alive : α → Bool) : Conjunction α → Bool
  | .last u => u.survives alive
  | .and u _ c => u.survives alive || c.survives alive

def Unary.survives (alive : α → Bool) : Unary α → Bool
  | .comparison a => alive a
  | .not u => u.survives alive
  | .group d => d.survives alive

end

abbrev alive (f : α → Option Expr) (a : α) : Bool := (f a).isSome

mutual

theorem Disjunction.alternatives_eq_nil_iff {f : α → Option Expr} : ∀ d : Disjunction α,
    d.alternatives f = [] ↔ d.survives (alive f) = false
  | .last c => by
    rw [Disjunction.alternatives, Disjunction.survives, Option.toList_eq_nil_iff,
      Expr.joinPairs_eq_none, c.operands_eq_nil_iff]
  | .or c d => by
    rw [Disjunction.alternatives, Disjunction.survives, Bool.or_eq_false_iff,
      List.append_eq_nil_iff, Option.toList_eq_nil_iff, Expr.joinPairs_eq_none,
      c.operands_eq_nil_iff, d.alternatives_eq_nil_iff]

theorem Conjunction.operands_eq_nil_iff {f : α → Option Expr} : ∀ c : Conjunction α,
    c.operands f = [] ↔ c.survives (alive f) = false
  | .last u => by
    rw [Conjunction.operands, Conjunction.survives, Option.toList_eq_nil_iff,
      u.meaning_eq_none_iff]
  | .and u _ c => by
    rw [Conjunction.operands, Conjunction.survives, Bool.or_eq_false_iff, List.append_eq_nil_iff,
      Option.toList_eq_nil_iff, u.meaning_eq_none_iff, c.operands_eq_nil_iff]

theorem Unary.meaning_eq_none_iff {f : α → Option Expr} : ∀ u : Unary α,
    u.meaning f = none ↔ u.survives (alive f) = false
  | .comparison a => by
    rw [Unary.meaning, Unary.survives, Option.isSome_eq_false_iff, Option.isNone_iff_eq_none]
  | .not u => by
    rw [Unary.meaning, Unary.survives, Option.map_eq_none_iff, u.meaning_eq_none_iff]
  | .group d => by
    rw [Unary.meaning, Unary.survives, Expr.joinPairs_eq_none, d.alternatives_eq_nil_iff]

end

mutual

theorem Disjunction.survives_of_all {living : α → Bool} (h : ∀ a, living a = true) :
    ∀ d : Disjunction α, d.survives living = true
  | .last c => c.survives_of_all h
  | .or c d => by rw [Disjunction.survives, c.survives_of_all h, Bool.true_or]

theorem Conjunction.survives_of_all {living : α → Bool} (h : ∀ a, living a = true) :
    ∀ c : Conjunction α, c.survives living = true
  | .last u => u.survives_of_all h
  | .and u _ c => by rw [Conjunction.survives, u.survives_of_all h, Bool.true_or]

theorem Unary.survives_of_all {living : α → Bool} (h : ∀ a, living a = true) :
    ∀ u : Unary α, u.survives living = true
  | .comparison a => h a
  | .not u => u.survives_of_all h
  | .group d => d.survives_of_all h

end

theorem Unary.survives_of_meaning {f : α → Option Expr} (u : Unary α) {e : Expr}
    (h : u.meaning f = some e) : u.survives (alive f) = true := by
  rw [← Bool.not_eq_false, ← u.meaning_eq_none_iff, h]
  exact Option.some_ne_none e

def Unary.nots : Unary α → Nat
  | .comparison _ => 0
  | .not u => u.nots + 1
  | .group _ => 0

/-- Whether an operand survives with no `and` said before the first that does. -/
def Conjunction.leads (alive : α → Bool) : Conjunction α → Bool
  | .last u => u.survives alive
  | .and u said c => u.survives alive || (!said && c.leads alive)

def Conjunction.spoken : Conjunction α → Bool
  | .last _ => false
  | .and _ said c => said || c.spoken

/-- Whether an operand survives and an `and` is said behind the last that does. -/
def Conjunction.hangs (alive : α → Bool) : Conjunction α → Bool
  | .last _ => false
  | .and u said c =>
    if c.survives alive then c.hangs alive else u.survives alive && (said || c.spoken)

mutual

/-- Whether a keyword of an operand that is gone strikes one that survives: an `and` left hanging
comes before the `or` to a later conjunction, or the `not` of an operand that is gone has a later
operand of its conjunction behind it, with no `and` in between. -/
def Disjunction.disturbed (alive : α → Bool) : Disjunction α → Bool
  | .last c => c.disturbed alive
  | .or c d => c.disturbed alive || d.disturbed alive || (c.hangs alive && d.survives alive)

def Conjunction.disturbed (alive : α → Bool) : Conjunction α → Bool
  | .last u => u.disturbed alive
  | .and u said c =>
    u.disturbed alive || c.disturbed alive ||
      (!u.survives alive && decide (0 < u.nots) && !said && c.leads alive)

def Unary.disturbed (alive : α → Bool) : Unary α → Bool
  | .comparison _ => false
  | .not u => u.disturbed alive
  | .group d => d.disturbed alive

end

theorem Conjunction.hangs_of_all {living : α → Bool} (h : ∀ a, living a = true) :
    ∀ c : Conjunction α, c.hangs living = false
  | .last _ => rfl
  | .and _ _ c => by rw [hangs, c.survives_of_all h, if_pos rfl, c.hangs_of_all h]

mutual

theorem Disjunction.disturbed_of_all {living : α → Bool} (h : ∀ a, living a = true) :
    ∀ d : Disjunction α, d.disturbed living = false
  | .last c => c.disturbed_of_all h
  | .or c d => by
    rw [Disjunction.disturbed, c.disturbed_of_all h, d.disturbed_of_all h, c.hangs_of_all h]
    rfl

theorem Conjunction.disturbed_of_all {living : α → Bool} (h : ∀ a, living a = true) :
    ∀ c : Conjunction α, c.disturbed living = false
  | .last u => u.disturbed_of_all h
  | .and u _ c => by
    rw [Conjunction.disturbed, u.disturbed_of_all h, c.disturbed_of_all h, u.survives_of_all h]
    rfl

theorem Unary.disturbed_of_all {living : α → Bool} (h : ∀ a, living a = true) :
    ∀ u : Unary α, u.disturbed living = false
  | .comparison _ => rfl
  | .not u => u.disturbed_of_all h
  | .group d => d.disturbed_of_all h

end

end Grammar

/-! Sentences in text. -/

def Lexeme.Cuts (t token rest : Text) : Prop := ∃ gap, next? t = some ⟨gap, token, rest⟩

/-- A comparison as a text asks for it. The reader may not be able to hear it: its regex may not
compile, its list or range be malformed, its literal not be one. -/
structure Atom where
  negated : Bool
  field : Text
  test : Test
  valid : Bool

namespace Atom

def expr (a : Atom) : Expr :=
  if a.negated then .not (.leaf a.field a.test) else .leaf a.field a.test

def heard (a : Atom) : Option Expr := if a.valid then some a.expr else none

def Spells [Regex.Engine] (a : Atom) (t rest : Text) : Prop :=
  ∃ token behind, Lexeme.Cuts t token behind ∧ Start.ofText token = .comparison ∧
    Condition.read token behind = (a.heard, rest)

end Atom

variable [Regex.Engine]

namespace Grammar

open Lexeme

mutual

def Disjunction.Spells : Disjunction Atom → Text → Text → Prop
  | .last c, t, rest => c.Spells t rest
  | .or c d, t, rest => ∃ mid after, c.Spells t mid ∧ Cuts mid (Keyword.text (.join .or)) after ∧
      d.Spells after rest

def Conjunction.Spells : Conjunction Atom → Text → Text → Prop
  | .last u, t, rest => u.Spells t rest
  | .and u said c, t, rest => ∃ mid after, u.Spells t mid ∧
      (if said then Cuts mid (Keyword.text (.join .and)) after else after = mid) ∧
      c.Spells after rest

def Unary.Spells : Unary Atom → Text → Text → Prop
  | .comparison a, t, rest => a.Spells t rest
  | .not u, t, rest => ∃ after, Cuts t (Keyword.text .not) after ∧ u.Spells after rest
  | .group d, t, rest => ∃ inner close, Cuts t ['('] inner ∧ d.Spells inner close ∧
      Cuts close [')'] rest

end

end Grammar

namespace Outline

theorem readFrom_cuts {t token rest : Text} (h : Lexeme.Cuts t token rest) (o : Outline) :
    o.readFrom t = (o.begin token rest (Start.ofText token)).1.readFrom
      (o.begin token rest (Start.ofText token)).2 := by
  obtain ⟨gap, hnext⟩ := h
  rw [readFrom_next hnext, step_eq_begin]

theorem readFrom_cuts_open {t rest : Text} (h : Lexeme.Cuts t ['('] rest) (o : Outline) :
    o.readFrom t = o.openGroup.readFrom rest := readFrom_cuts h o

theorem readFrom_cuts_close {t rest : Text} (h : Lexeme.Cuts t [')'] rest) (o : Outline) :
    o.readFrom t = o.closeGroup.readFrom rest := readFrom_cuts h o

theorem readFrom_word {t rest : Text} {k : Keyword} (h : Lexeme.Cuts t k.text rest) (o : Outline) :
    o.readFrom t = (o.add (.word k)).readFrom rest := by
  have hstart : Start.ofText k.text = .keyword k := by rcases k with (_ | _) | _ <;> rfl
  rw [readFrom_cuts h, hstart]
  rfl

theorem readFrom_comparison {t token behind rest : Text} {e : Option Expr}
    (hcuts : Lexeme.Cuts t token behind) (hstart : Start.ofText token = .comparison)
    (hread : Condition.read token behind = (e, rest)) (o : Outline) :
    o.readFrom t = (o.addAll (e.toList.map .leaf)).readFrom rest := by
  rw [readFrom_cuts hcuts, hstart]
  simp only [begin, hread]
  cases e with
  | none => simp [addAll_nil]
  | some e => simp [addAll_cons, addAll_nil]

theorem readFrom_atom {t rest : Text} {a : Atom} (h : a.Spells t rest) (o : Outline) :
    o.readFrom t = (o.addAll (a.heard.toList.map .leaf)).readFrom rest := by
  obtain ⟨token, behind, hcuts, hstart, hread⟩ := h
  exact readFrom_comparison hcuts hstart hread o

end Outline

namespace Grammar

open Outline

mutual

/-- A sentence adds its nodes, in which the comparisons are those that are heard. -/
theorem Disjunction.readFrom_of_spells : ∀ {d : Disjunction Atom} {t rest : Text},
    d.Spells t rest → ∀ o : Outline,
      o.readFrom t = (o.addAll (d.nodes Atom.heard)).readFrom rest
  | .last c, _, _, h, o => Conjunction.readFrom_of_spells (c := c) h o
  | .or c d, _, _, ⟨_, _, hc, hword, hd⟩, o => by
    rw [c.readFrom_of_spells hc, readFrom_word hword, d.readFrom_of_spells hd, Disjunction.nodes,
      addAll_append, addAll_cons]

theorem Conjunction.readFrom_of_spells : ∀ {c : Conjunction Atom} {t rest : Text},
    c.Spells t rest → ∀ o : Outline,
      o.readFrom t = (o.addAll (c.nodes Atom.heard)).readFrom rest
  | .last u, _, _, h, o => Unary.readFrom_of_spells (u := u) h o
  | .and u true c, _, _, ⟨_, _, hu, hword, hc⟩, o => by
    rw [u.readFrom_of_spells hu, readFrom_word hword, c.readFrom_of_spells hc, Conjunction.nodes,
      if_pos rfl, addAll_append, addAll_append, addAll_cons, addAll_nil]
  | .and u false c, _, _, ⟨_, _, hu, hword, hc⟩, o => by
    cases hword
    rw [u.readFrom_of_spells hu, c.readFrom_of_spells hc, Conjunction.nodes,
      if_neg Bool.false_ne_true, List.append_nil, addAll_append]

theorem Unary.readFrom_of_spells : ∀ {u : Unary Atom} {t rest : Text},
    u.Spells t rest → ∀ o : Outline,
      o.readFrom t = (o.addAll (u.nodes Atom.heard)).readFrom rest
  | .comparison _, _, _, h, o => readFrom_atom h o
  | .not u, _, _, ⟨_, hword, hu⟩, o => by
    rw [readFrom_word hword, u.readFrom_of_spells hu, Unary.nodes, addAll_cons]
  | .group d, _, _, ⟨_, _, hopen, hd, hclose⟩, o => by
    rw [readFrom_cuts_open hopen, d.readFrom_of_spells hd, readFrom_cuts_close hclose,
      closeGroup_addAll, Unary.nodes, addAll_cons, addAll_nil]

end

end Grammar

end FilterQuery
