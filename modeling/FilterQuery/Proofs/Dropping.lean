import FilterQuery.Proofs.Grammar
import FilterQuery.Proofs.Keywords
import FilterQuery.Proofs.Leaves
set_option autoImplicit false

/-!
Comparisons that are dropped. A comparison that the reader cannot hear leaves its keywords behind,
which then strike the operands around it. The filter that is read is what the sentence means
without the comparison unless one of these keywords negates or links an operand that is left.
-/

namespace FilterQuery

open Grammar FilterQuery.Expr

namespace Gap

theorem nots_append_nots (g : Gap) (n : Nat) : nots (g ++ List.replicate n .not) = g.nots + n := by
  induction n with
  | zero => rw [List.replicate_zero, List.append_nil, Nat.add_zero]
  | succ n ih =>
    rw [List.replicate_succ', ← List.append_assoc, nots_not, ih, Nat.add_assoc]

theorem junction?_append_nots (g : Gap) (n : Nat) :
    junction? (g ++ List.replicate n .not) = g.junction? := by
  induction n with
  | zero => rw [List.replicate_zero, List.append_nil]
  | succ n ih => rw [List.replicate_succ', ← List.append_assoc, junction?_not, ih]

end Gap

namespace Node

theorem operands_congr {g k : Gap} (h : g.nots = k.nots) (ns : List Node) :
    (operands g ns).map Prod.snd = (operands k ns).map Prod.snd ∧
      (operands g ns).tail = (operands k ns).tail := by
  induction ns generalizing g k with
  | nil => exact ⟨rfl, rfl⟩
  | cons n ns ih =>
    have hoperand : ∀ e, (g.operand e).2 = (k.operand e).2 := fun e => by
      rw [Gap.operand, Gap.operand, h]
    cases n with
    | leaf e => exact ⟨congrArg (· :: _) (hoperand e), rfl⟩
    | word w =>
      refine ih ?_
      cases w with
      | not => rw [Gap.nots_not, Gap.nots_not, h]
      | join j => rw [Gap.nots_join, Gap.nots_join]
    | group ms =>
      rw [operands_group, operands_group]
      cases operand? (.group ms) with
      | none => exact ih h
      | some e => exact ⟨congrArg (· :: _) (hoperand e), rfl⟩

theorem head_operands {g : Gap} {j : Junction} (h : g.junction? = some j) (ns : List Node) :
    ∀ op ∈ (operands g ns).head?, op.1 = j := by
  induction ns generalizing g with
  | nil =>
    intro op hop
    cases hop
  | cons n ns ih =>
    have hoperand : ∀ e, (g.operand e).1 = j := fun e => by
      rw [Gap.operand, h, Option.getD_some]
    cases n with
    | leaf e =>
      intro op hop
      cases hop
      exact hoperand e
    | word w =>
      refine ih ?_
      cases w with
      | not => rw [Gap.junction?_not, h]
      | join k => rw [Gap.junction?_join, h, Option.some_or]
    | group ms =>
      rw [operands_group]
      cases operand? (.group ms) with
      | none => exact ih h
      | some e =>
        intro op hop
        cases hop
        exact hoperand e

end Node

namespace Grammar

variable {α : Type} {f : α → Option Expr}

/-- How a reader takes an operand. One that is gone leaves its `not`s in the gap; one that survives
is read with the negations that the gap holds. -/
inductive Unary.Taken (f : α → Option Expr) (u : Unary α) : Prop where
  | gone (meaning : u.meaning f = none) (undisturbed : u.disturbed (alive f) = false)
      (operands : ∀ g ns, Node.operands g (u.nodes f ++ ns) =
        Node.operands (g ++ List.replicate u.nots .not) ns)
  | kept (p h : Expr) (meaning : u.meaning f = some h) (strays : Strays p h)
      (eq_iff : p = h ↔ u.disturbed (alive f) = false)
      (operands : ∀ g ns, Node.operands g (u.nodes f ++ ns) = g.operand p :: Node.operands [] ns)

structure Conjunction.Taken (f : α → Option Expr) (c : Conjunction α) (g : Gap) (es : List Expr)
    (left : Gap) : Prop where
  operands : ∀ ns, Node.operands g (c.nodes f ++ ns) =
    linked (g.junction?.getD .and) es ++ Node.operands left ns
  strays : List.Forall₂ Strays es (c.operands f)
  eq_iff : es = c.operands f ↔
    c.disturbed (alive f) = false ∧ (0 < g.nots → c.leads (alive f) = false)
  gap_gone : c.survives (alive f) = false →
    left.junction? = g.junction?.or (if c.spoken then some .and else none)
  gap_kept : c.survives (alive f) = true →
    left.junction? = if c.hangs (alive f) then some .and else none

structure Disjunction.Taken (f : α → Option Expr) (d : Disjunction α) (j : Junction)
    (ops : List (Junction × Expr)) : Prop where
  strays : StrayEach ops (d.linkedOperands f)
  eq_iff : ops = d.linkedOperands f ↔
    d.disturbed (alive f) = false ∧ (j = .and → d.survives (alive f) = false)

theorem Unary.taken_not {u : Unary α} (h : u.Taken f) : (Unary.not u).Taken f := by
  cases h with
  | gone hmeaning hundisturbed hoperands =>
    refine .gone ?_ ?_ fun g ns => ?_
    · rw [meaning, hmeaning, Option.map_none]
    · rwa [disturbed]
    · rw [nodes, List.cons_append, Node.operands, hoperands, nots, List.append_assoc,
        List.replicate_succ]
      rfl
  | kept p h hmeaning hstrays heq hoperands =>
    refine .kept (.not p) (.not h) ?_ hstrays.not ?_ fun g ns => ?_
    · rw [meaning, hmeaning, Option.map_some]
    · rw [disturbed, ← heq, Expr.not.injEq]
    · rw [nodes, List.cons_append, Node.operands, hoperands, Gap.operand, Gap.operand,
        Gap.junction?_not, Gap.nots_not, Function.iterate_succ_apply]

/-- A group is read as what it means exactly if its sentence is not disturbed. -/
theorem Disjunction.Taken.operand?_group {d : Disjunction α}
    (h : d.Taken f .or (Node.operands [.join .or] (d.nodes f))) :
    Option.Rel Strays (Node.operand? (.group (d.nodes f))) (d.meaning f) ∧
      (Node.operand? (.group (d.nodes f)) = d.meaning f ↔ d.disturbed (alive f) = false) := by
  -- The link of a first operand is not read. An `or` in its place makes the first conjunction
  -- start as every later one does.
  have hread : Node.operand? (.group (d.nodes f)) =
      byPrecedence (Node.operands [.join .or] (d.nodes f)) := by
    obtain ⟨hsnd, htail⟩ :=
      Node.operands_congr (g := []) (k := [.join .or]) rfl (d.nodes f)
    rw [Node.operand?, byPrecedence_congr hsnd htail]
  obtain ⟨hrel, heq⟩ := byPrecedence_strays h.strays
    (Node.head_operands (g := [.join .or]) rfl _) d.head_linkedOperands
  rw [← hread, d.byPrecedence_linkedOperands] at hrel heq
  refine ⟨hrel, ?_⟩
  rw [heq, h.eq_iff]
  exact and_iff_left fun hj => by cases hj

theorem Unary.taken_group {d : Disjunction α}
    (h : d.Taken f .or (Node.operands [.join .or] (d.nodes f))) : (Unary.group d).Taken f := by
  obtain ⟨hrel, heq⟩ := h.operand?_group
  have hoperands : ∀ g ns, Node.operands g ((Unary.group d).nodes f ++ ns) =
      (Node.operand? (.group (d.nodes f))).elim (Node.operands g ns)
        fun e => g.operand e :: Node.operands [] ns := fun g ns => Node.operands_group g _ ns
  cases hp : Node.operand? (.group (d.nodes f)) with
  | none =>
    rw [hp] at hrel heq hoperands
    cases hh : d.meaning f with
    | some h =>
      rw [hh] at hrel
      cases hrel
    | none =>
      refine .gone hh (heq.1 hh.symm) fun g ns => ?_
      rw [hoperands, nots, List.replicate_zero, List.append_nil]
      rfl
  | some p =>
    rw [hp] at hrel heq hoperands
    cases hh : d.meaning f with
    | none =>
      rw [hh] at hrel
      cases hrel
    | some h =>
      rw [hh] at hrel heq
      cases hrel with
      | some hstrays =>
        refine .kept p h hh hstrays ?_ hoperands
        rw [disturbed, ← heq, Option.some.injEq]

def saidWord : Bool → Gap
  | true => [.join .and]
  | false => []

theorem operands_said (said : Bool) (g : Gap) (ns : List Node) :
    Node.operands g ((if said then [.word (.join .and)] else []) ++ ns) =
      Node.operands (g ++ saidWord said) ns := by
  cases said with
  | true => rfl
  | false => exact congrArg (Node.operands · ns) (List.append_nil g).symm

theorem junction?_said (said : Bool) (g : Gap) :
    Gap.junction? (g ++ saidWord said) = g.junction?.or (if said then some .and else none) := by
  cases said with
  | true => exact Gap.junction?_join g .and
  | false => rw [saidWord, List.append_nil, if_neg Bool.false_ne_true, Option.or_none]

theorem nots_said (said : Bool) (g : Gap) :
    Gap.nots (g ++ saidWord said) = if said then 0 else g.nots := by
  cases said with
  | true => exact Gap.nots_join g .and
  | false => rw [saidWord, List.append_nil, if_neg Bool.false_ne_true]

/-- Of a first operand that survives, the negations in the gap are the only ones that are not its
own. -/
theorem Unary.nots_eq_iff {u : Unary α} {p h : Expr} (hstrays : Strays p h)
    (heq : p = h ↔ u.disturbed (alive f) = false) (n : Nat) :
    Expr.not^[n] p = h ↔ u.disturbed (alive f) = false ∧ ¬ 0 < n := by
  rw [hstrays.nots_eq_iff, heq, and_comm, Nat.pos_iff_ne_zero, not_not]

theorem Conjunction.taken_last {u : Unary α} (h : u.Taken f) (g : Gap) :
    ∃ es left, (Conjunction.last u).Taken f g es left := by
  cases h with
  | gone hmeaning hundisturbed hoperands =>
    have hgone : u.survives (alive f) = false := u.meaning_eq_none_iff.1 hmeaning
    refine ⟨[], g ++ List.replicate u.nots Keyword.not, hoperands g, ?_, ?_, fun _ => ?_,
      fun hkept => ?_⟩
    · rw [Conjunction.operands, hmeaning]
      exact .nil
    · rw [Conjunction.operands, hmeaning, disturbed, leads, hundisturbed, hgone]
      simp
    · rw [Gap.junction?_append_nots, spoken]
      simp
    · rw [survives, hgone] at hkept
      cases hkept
  | kept p h hmeaning hstrays heq hoperands =>
    have hkept := u.survives_of_meaning hmeaning
    refine ⟨[Expr.not^[g.nots] p], [], hoperands g, ?_, ?_, fun hgone => ?_, fun _ => rfl⟩
    · rw [Conjunction.operands, hmeaning]
      exact .cons (hstrays.nots g.nots) .nil
    · rw [Conjunction.operands, hmeaning, disturbed, leads, hkept, Option.toList_some,
        List.cons.injEq, Unary.nots_eq_iff hstrays heq]
      simp
    · rw [survives, hkept] at hgone
      cases hgone

/-- Behind an operand that is gone, the gap goes on with its `not`s. -/
theorem Conjunction.taken_and_gone {u : Unary α} (hmeaning : u.meaning f = none)
    (hundisturbed : u.disturbed (alive f) = false)
    (hoperands : ∀ g ns, Node.operands g (u.nodes f ++ ns) =
      Node.operands (g ++ List.replicate u.nots .not) ns)
    (said : Bool) {c : Conjunction α} (hc : ∀ g, ∃ es left, c.Taken f g es left) (g : Gap) :
    ∃ es left, (Conjunction.and u said c).Taken f g es left := by
  have hgone : u.survives (alive f) = false := u.meaning_eq_none_iff.1 hmeaning
  obtain ⟨es, left, hread⟩ := hc (g ++ List.replicate u.nots .not ++ saidWord said)
  have hnots : Gap.nots (g ++ List.replicate u.nots .not ++ saidWord said) =
      if said then 0 else g.nots + u.nots := by
    rw [nots_said, Gap.nots_append_nots]
  have hjunction : Gap.junction? (g ++ List.replicate u.nots .not ++ saidWord said) =
      g.junction?.or (if said then some .and else none) := by
    rw [junction?_said, Gap.junction?_append_nots]
  refine ⟨es, left, fun ns => ?_, ?_, ?_, fun h => ?_, fun h => ?_⟩
  · rw [nodes, List.append_assoc, List.append_assoc, hoperands, operands_said, hread.operands,
      hjunction]
    cases g.junction? <;> cases said <;> rfl
  · rw [Conjunction.operands, hmeaning]
    exact hread.strays
  · rw [Conjunction.operands, hmeaning, disturbed, leads, hundisturbed, hgone]
    refine hread.eq_iff.trans ?_
    rw [hnots]
    generalize c.disturbed (alive f) = disturbed, c.leads (alive f) = leads
    cases said <;> cases disturbed <;> cases leads <;> simp [and_comm]
  · rw [survives, hgone, Bool.false_or] at h
    rw [hread.gap_gone h, hjunction, spoken]
    cases g.junction? <;> cases said <;> cases c.spoken <;> rfl
  · rw [survives, hgone, Bool.false_or] at h
    rw [hread.gap_kept h, hangs, if_pos h]

/-- Behind an operand that survives, the gap starts anew with the word that follows. -/
theorem Conjunction.taken_and_kept {u : Unary α} {p h : Expr} (hmeaning : u.meaning f = some h)
    (hstrays : Strays p h) (heq : p = h ↔ u.disturbed (alive f) = false)
    (hoperands : ∀ g ns, Node.operands g (u.nodes f ++ ns) = g.operand p :: Node.operands [] ns)
    (said : Bool) {c : Conjunction α} (hc : ∀ g, ∃ es left, c.Taken f g es left) (g : Gap) :
    ∃ es left, (Conjunction.and u said c).Taken f g es left := by
  have hkept := u.survives_of_meaning hmeaning
  obtain ⟨es, left, hread⟩ := hc (saidWord said)
  have hnots : Gap.nots (saidWord said) = 0 := by cases said <;> rfl
  refine ⟨Expr.not^[g.nots] p :: es, left, fun ns => ?_, ?_, ?_, fun h => ?_, fun _ => ?_⟩
  · have hrest := operands_said said [] (c.nodes f ++ ns)
    rw [nodes, List.append_assoc, List.append_assoc, hoperands, hrest, List.nil_append,
      hread.operands]
    have hlink : (saidWord said).junction?.getD .and = .and := by cases said <;> rfl
    rw [hlink, linked_and]
    rfl
  · rw [Conjunction.operands, hmeaning]
    exact .cons (hstrays.nots g.nots) hread.strays
  · rw [Conjunction.operands, hmeaning, disturbed, leads, hkept, Option.toList_some,
      List.singleton_append, List.cons.injEq, Unary.nots_eq_iff hstrays heq, hread.eq_iff, hnots]
    simp [and_right_comm]
  · rw [survives, hkept] at h
    cases h
  · rw [hangs]
    cases hs : c.survives (alive f) with
    | true => rw [hread.gap_kept hs, if_pos rfl]
    | false =>
      have hword := junction?_said said []
      rw [List.nil_append] at hword
      rw [hread.gap_gone hs, hword, hkept, if_neg Bool.false_ne_true]
      cases said <;> cases c.spoken <;> rfl

theorem Conjunction.taken_and {u : Unary α} (hu : u.Taken f) (said : Bool) {c : Conjunction α}
    (hc : ∀ g, ∃ es left, c.Taken f g es left) (g : Gap) :
    ∃ es left, (Conjunction.and u said c).Taken f g es left := by
  cases hu with
  | gone hmeaning hundisturbed hoperands =>
    exact taken_and_gone hmeaning hundisturbed hoperands said hc g
  | kept p h hmeaning hstrays heq hoperands =>
    exact taken_and_kept hmeaning hstrays heq hoperands said hc g

section Linked

variable {es ms : List Expr}

theorem strayEach_linked (h : List.Forall₂ Strays es ms) (j : Junction) :
    StrayEach (linked j es) (linked .or ms) := by
  cases h with
  | nil => exact .nil
  | cons hop heach =>
    refine .cons hop ?_
    rw [List.forall₂_map_left_iff, List.forall₂_map_right_iff]
    exact heach

theorem linked_eq_iff (h : List.Forall₂ Strays es ms) (j : Junction) :
    linked j es = linked .or ms ↔ es = ms ∧ (j = .and → ms = []) := by
  have hinj : Function.Injective (Prod.mk Junction.and : Expr → Junction × Expr) :=
    Prod.mk_right_injective _
  cases h with
  | nil => simp [linked]
  | cons hop heach =>
    simp only [linked, List.cons.injEq, Prod.mk.injEq, (List.map_injective_iff.2 hinj).eq_iff,
      reduceCtorEq, imp_false]
    cases j <;> simp

end Linked

theorem Disjunction.taken_last {c : Conjunction α} (hc : ∀ g, ∃ es left, c.Taken f g es left)
    {g : Gap} {j : Junction} (hlink : g.junction? = some j) (hnots : g.nots = 0) :
    (Disjunction.last c).Taken f j (Node.operands g ((Disjunction.last c).nodes f)) := by
  obtain ⟨es, left, hread⟩ := hc g
  have hoperands : Node.operands g ((Disjunction.last c).nodes f) = linked j es := by
    have hall := hread.operands []
    rw [List.append_nil, hlink, Option.getD_some] at hall
    exact hall.trans (List.append_nil _)
  rw [hoperands]
  refine ⟨strayEach_linked hread.strays j, ?_⟩
  rw [linkedOperands, linked_eq_iff hread.strays, hread.eq_iff, hnots, disturbed, survives,
    c.operands_eq_nil_iff]
  simp

theorem Conjunction.hangs_of_gone : ∀ {c : Conjunction α}, c.survives (alive f) = false →
    c.hangs (alive f) = false
  | .last _, _ => rfl
  | .and u said c, h => by
    rw [survives, Bool.or_eq_false_iff] at h
    rw [hangs, h.2, if_neg Bool.false_ne_true, h.1, Bool.false_and]

/-- Where nothing of a conjunction is left, the word before it links what comes behind. -/
theorem Disjunction.taken_or_gone {c : Conjunction α} {g left : Gap} {j : Junction} {es : List Expr}
    (hread : c.Taken f g es left) (hs : c.survives (alive f) = false) {d : Disjunction α}
    (hd : ∀ {g : Gap} {j : Junction}, g.junction? = some j → g.nots = 0 →
      d.Taken f j (Node.operands g (d.nodes f)))
    (hlink : g.junction? = some j) :
    (Disjunction.or c d).Taken f j
      (linked j es ++ Node.operands (left ++ [.join .or]) (d.nodes f)) := by
  have hmeant : c.operands f = [] := c.operands_eq_nil_iff.2 hs
  have hes : es = [] := List.forall₂_nil_right_iff.1 (hmeant ▸ hread.strays)
  have hundisturbed := (hread.eq_iff.1 (hes.trans hmeant.symm)).1
  have hlink' : Gap.junction? (left ++ [.join .or]) = some j := by
    rw [Gap.junction?_join, hread.gap_gone hs, hlink, Option.some_or, Option.some_or]
  have hrest := hd hlink' (Gap.nots_join left .or)
  subst hes
  refine ⟨?_, ?_⟩
  · rw [linkedOperands, hmeant]
    exact hrest.strays
  · rw [linkedOperands, hmeant, disturbed, survives, hundisturbed, hs,
      Conjunction.hangs_of_gone hs, Bool.false_or, Bool.false_and, Bool.or_false, Bool.false_or]
    exact hrest.eq_iff

/-- Behind a conjunction of which something is left, an `and` that hangs comes before the `or`, and
the first word links. -/
theorem Disjunction.taken_or_kept {c : Conjunction α} {g left : Gap} {es : List Expr}
    (hread : c.Taken f g es left) (hs : c.survives (alive f) = true) {d : Disjunction α}
    (hd : ∀ {g : Gap} {j : Junction}, g.junction? = some j → g.nots = 0 →
      d.Taken f j (Node.operands g (d.nodes f)))
    (j : Junction) (hnots : g.nots = 0) :
    (Disjunction.or c d).Taken f j
      (linked j es ++ Node.operands (left ++ [.join .or]) (d.nodes f)) := by
  have hmeant : c.operands f ≠ [] := fun hnil => by
    rw [c.operands_eq_nil_iff.1 hnil] at hs
    cases hs
  have hlink' : Gap.junction? (left ++ [.join .or]) =
      some (if c.hangs (alive f) then .and else .or) := by
    rw [Gap.junction?_join, hread.gap_kept hs]
    cases c.hangs (alive f) <;> rfl
  have hrest := hd hlink' (Gap.nots_join left .or)
  have hstrays := strayEach_linked hread.strays j
  refine ⟨List.rel_append hstrays hrest.strays, ?_⟩
  have hsplit : linked j es ++ Node.operands (left ++ [.join .or]) (d.nodes f) =
        linked .or (c.operands f) ++ d.linkedOperands f ↔
      linked j es = linked .or (c.operands f) ∧
        Node.operands (left ++ [.join .or]) (d.nodes f) = d.linkedOperands f :=
    ⟨fun h => List.append_inj h hstrays.length_eq, fun h => by rw [h.1, h.2]⟩
  rw [linkedOperands, hsplit, linked_eq_iff hread.strays, hread.eq_iff, hnots, hrest.eq_iff,
    disturbed, survives, hs]
  generalize c.disturbed (alive f) = first, d.disturbed (alive f) = later,
    c.hangs (alive f) = hanging, d.survives (alive f) = behind
  cases j <;> cases first <;> cases later <;> cases hanging <;> cases behind <;> simp [hmeant]

theorem Disjunction.taken_or {c : Conjunction α} (hc : ∀ g, ∃ es left, c.Taken f g es left)
    {d : Disjunction α}
    (hd : ∀ {g : Gap} {j : Junction}, g.junction? = some j → g.nots = 0 →
      d.Taken f j (Node.operands g (d.nodes f)))
    {g : Gap} {j : Junction} (hlink : g.junction? = some j) (hnots : g.nots = 0) :
    (Disjunction.or c d).Taken f j (Node.operands g ((Disjunction.or c d).nodes f)) := by
  obtain ⟨es, left, hread⟩ := hc g
  rw [nodes, hread.operands, hlink, Option.getD_some, Node.operands]
  cases hs : c.survives (alive f) with
  | false => exact taken_or_gone hread hs hd hlink
  | true => exact taken_or_kept hread hs hd j hnots

theorem Unary.taken_comparison (a : α) : (Unary.comparison a).Taken f := by
  cases ha : f a with
  | none =>
    refine .gone ha rfl fun g ns => ?_
    rw [nodes, ha, nots, List.replicate_zero, List.append_nil]
    rfl
  | some e =>
    refine .kept e e ha (.refl e) (iff_of_true rfl rfl) fun g ns => ?_
    rw [nodes, ha]
    rfl

mutual

theorem Disjunction.taken : ∀ (d : Disjunction α) {g : Gap} {j : Junction},
    g.junction? = some j → g.nots = 0 → d.Taken f j (Node.operands g (d.nodes f))
  | .last c, _, _, hlink, hnots => Disjunction.taken_last c.taken hlink hnots
  | .or c d, _, _, hlink, hnots => Disjunction.taken_or c.taken d.taken hlink hnots

theorem Conjunction.taken : ∀ (c : Conjunction α) (g : Gap), ∃ es left, c.Taken f g es left
  | .last u, g => Conjunction.taken_last u.taken g
  | .and u said c, g => Conjunction.taken_and u.taken said c.taken g

theorem Unary.taken : ∀ u : Unary α, u.Taken f
  | .comparison a => Unary.taken_comparison a
  | .not u => Unary.taken_not u.taken
  | .group d => Unary.taken_group (d.taken rfl rfl)

end

/-- A sentence is read as what it means exactly if no keyword strikes what survives of it. -/
theorem Disjunction.assemble_eq_meaning_iff (d : Disjunction α) (f : α → Option Expr) :
    Node.assemble (d.nodes f) = d.meaning f ↔ d.disturbed (alive f) = false := by
  have hgroup : Node.assemble (d.nodes f) = Node.operand? (.group (d.nodes f)) := by
    rw [Node.assemble_eq_byPrecedence, Node.operand?]
  rw [hgroup]
  exact (d.taken rfl rfl).operand?_group.2

end Grammar

namespace Atom

theorem prune_expr (keep : Text → Bool) (a : Atom) :
    prune keep a.expr = if keep a.field then some a.expr else none := by
  cases hn : a.negated <;> cases hk : keep a.field <;> simp [expr, hn, prune, hk]

theorem leaves_expr (a : Atom) : a.expr.leaves = [(a.field, a.test)] := by
  cases hn : a.negated <;> simp [expr, hn, leaves]

theorem leaves_heard (a : Atom) :
    a.heard.toList.flatMap leaves = if a.valid then [(a.field, a.test)] else [] := by
  rw [heard]
  split
  · rw [Option.toList_some, List.flatMap_singleton, a.leaves_expr]
  · rfl

theorem isSome_heard (a : Atom) : a.heard.isSome = a.valid := by
  rw [heard]
  cases a.valid <;> rfl

end Atom

namespace Grammar

theorem Disjunction.filter_read [Regex.Engine] {d : Disjunction Atom} {t rest : Text}
    (ht : d.Spells t rest) (hend : Lexeme.next? rest = none) :
    (Request.read t).filter = Node.assemble (d.nodes Atom.heard) := by
  have hread : Outline.read t = Outline.empty.addAll (d.nodes Atom.heard) := by
    rw [Outline.read, d.readFrom_of_spells ht, Outline.readFrom_end hend]
  rw [Request.read, hread]
  rfl

theorem Disjunction.leaves_assemble {α : Type} (d : Disjunction α) (f : α → Option Expr) :
    (Node.assemble (d.nodes f)).elim [] leaves =
      d.comparisons.flatMap fun a => (f a).toList.flatMap leaves := by
  rw [additive_leaves.assemble, total_leaves, d.exprsEach_nodes, List.flatMap_assoc]

theorem leaves_bind_prune (keep : Text → Bool) (o : Option Expr) :
    (o.bind (prune keep)).elim [] leaves = (o.elim [] leaves).filter fun l => keep l.1 := by
  cases o with
  | none => rfl
  | some e =>
    have hprune := leaves_prune keep e
    rw [Option.bind_some, Option.elim_some, ← hprune]
    cases prune keep e with
    | none => rfl
    | some e => simp

/-- Pruning those that are not heard from the whole filter leaves the leaves that are heard. -/
theorem Disjunction.leaves_prune_assemble {d : Disjunction Atom} {keep : Text → Bool}
    (hkeep : ∀ a ∈ d.comparisons, keep a.field = a.valid) :
    ((Node.assemble (d.nodes fun a => some a.expr)).bind (prune keep)).elim [] leaves =
      (Node.assemble (d.nodes Atom.heard)).elim [] leaves := by
  rw [leaves_bind_prune, d.leaves_assemble, d.leaves_assemble, List.filter_flatMap]
  refine List.flatMap_congr fun a ha => ?_
  rw [Option.toList_some, List.flatMap_singleton, a.leaves_expr, a.leaves_heard, ← hkeep a ha,
    List.filter_singleton]
  cases keep a.field <;> rfl

/-- What all comparisons of a text would be assembled to, pruned of those that are not heard. -/
theorem Disjunction.prune_assemble {d : Disjunction Atom} {keep : Text → Bool}
    (hkeep : ∀ a ∈ d.comparisons, keep a.field = a.valid) :
    (Node.assemble (d.nodes fun a => some a.expr)).bind (prune keep) = d.meaning Atom.heard := by
  have hwhole := (d.assemble_eq_meaning_iff fun a => some a.expr).2
    (d.disturbed_of_all fun _ => rfl)
  rw [hwhole, d.meaning_pruned, meaning, meaning]
  refine congrArg _ (Disjunction.alternatives_congr fun a ha => ?_)
  rw [pruned, Option.bind_some, a.prune_expr, hkeep a ha, Atom.heard]

end Grammar

namespace Request

/-- Dropping the comparisons that are not heard leaves the leaves that pruning them from the whole
filter would leave. It leaves the same filter exactly if no keyword of theirs strikes one that is
left. -/
theorem filter_read_of_dropped [Regex.Engine] {d : Disjunction Atom} {t rest : Text}
    (ht : d.Spells t rest) (hend : Lexeme.next? rest = none) (keep : Text → Bool)
    (hkeep : ∀ a ∈ d.comparisons, keep a.field = a.valid) :
    (read t).filter.elim [] Expr.leaves =
        ((Node.assemble (d.nodes fun a => some a.expr)).bind (Expr.prune keep)).elim []
          Expr.leaves ∧
      ((read t).filter = (Node.assemble (d.nodes fun a => some a.expr)).bind (Expr.prune keep) ↔
        d.disturbed Atom.valid = false) := by
  have halive : alive Atom.heard = Atom.valid := funext Atom.isSome_heard
  rw [d.filter_read ht hend, d.leaves_prune_assemble hkeep, d.prune_assemble hkeep,
    d.assemble_eq_meaning_iff, halive]
  exact ⟨rfl, .rfl⟩

/-- The sentence of `a=1 and x="\q" or b=2`, in which the operand of `x` is no literal. -/
def hangingAnd : Disjunction Atom :=
  .or (.and (.comparison ⟨false, "a".toList, .compare .eq (.int 1), true⟩) true
      (.last (.comparison ⟨false, "x".toList, .compare .eq (.text "q".toList), false⟩)))
    (.last (.last (.comparison ⟨false, "b".toList, .compare .eq (.int 2), true⟩)))

/-- The `and` before a dropped comparison takes the place of the `or` behind it. -/
theorem filter_read_of_dropped_hanging :
    letI := Regex.Engine.words
    hangingAnd.Spells "a=1 and x=\"\\q\" or b=2".toList [] ∧ Lexeme.next? [] = none ∧
      (∀ a ∈ hangingAnd.comparisons, decide (a.field ≠ "x".toList) = a.valid) ∧
      (read "a=1 and x=\"\\q\" or b=2".toList).filter ≠
        (Node.assemble (hangingAnd.nodes fun a => some a.expr)).bind
          (Expr.prune fun field => decide (field ≠ "x".toList)) := by
  let engine := Regex.Engine.words
  have hspells : hangingAnd.Spells "a=1 and x=\"\\q\" or b=2".toList [] :=
    ⟨_, _, ⟨_, _, ⟨_, _, ⟨_, rfl⟩, by decide, rfl⟩, ⟨_, rfl⟩, _, _, ⟨_, rfl⟩, by decide, rfl⟩,
      ⟨_, rfl⟩, _, _, ⟨_, rfl⟩, by decide, rfl⟩
  have hkeep : ∀ a ∈ hangingAnd.comparisons, decide (a.field ≠ "x".toList) = a.valid := by
    simp only [hangingAnd, Disjunction.comparisons, Conjunction.comparisons, Unary.comparisons]
    decide
  refine ⟨hspells, rfl, hkeep, fun heq => ?_⟩
  have hundisturbed := (filter_read_of_dropped hspells rfl _ hkeep).2.1 heq
  exact absurd hundisturbed (by decide)

end Request

end FilterQuery
