import FilterQuery.Proofs.Condition
import FilterQuery.Proofs.Node
set_option autoImplicit false

/-!
Filter text reads back. The text of an expression, read in any outline and before any token break,
adds the nodes of the expression and nothing else; alone it is read as the normal form of the
expression.
-/

namespace FilterQuery

def Keyword.text : Keyword → Text
  | .join j => j.word
  | .not => notWord

namespace Outline

open Lexeme

section

variable [Regex.Engine]

theorem readFrom_next {o : Outline} {t : Text} {l : Lexeme} (h : next? t = some l) :
    o.readFrom t = (o.step l).1.readFrom (o.step l).2 := by
  rw [readFrom]
  split
  · rename_i heq
    rw [h] at heq
    cases heq
  · rename_i heq
    rw [h] at heq
    cases heq
    rfl

theorem readFrom_end {o : Outline} {t : Text} (h : next? t = none) : o.readFrom t = o := by
  rw [readFrom]
  split
  · rfl
  · rename_i heq
    rw [h] at heq
    cases heq

theorem readFrom_gap {c : Char} (h : Text.isGap c = true) (o : Outline) (t : Text) :
    o.readFrom (c :: t) = o.readFrom t := by
  cases ht : next? t with
  | none => rw [readFrom_end ht, readFrom_end (by rw [next?_gap h, ht]; rfl)]
  | some l =>
    rw [readFrom_next ht, readFrom_next (l := { l with gap := c :: l.gap }) (by rw [next?_gap h, ht]; rfl)]
    rfl

theorem readFrom_nil (o : Outline) : o.readFrom [] = o := readFrom_end rfl

theorem readFrom_open (o : Outline) (t : Text) : o.readFrom ('(' :: t) = o.openGroup.readFrom t :=
  readFrom_next (next?_parenthesis (by decide) t)

theorem readFrom_close (o : Outline) (t : Text) : o.readFrom (')' :: t) = o.closeGroup.readFrom t :=
  readFrom_next (next?_parenthesis (by decide) t)

end

def addAll (o : Outline) (ns : List Node) : Outline := { o with nodes := o.nodes ++ ns }

theorem addAll_nil (o : Outline) : o.addAll [] = o := by simp [addAll]

theorem addAll_append (o : Outline) (ns ms : List Node) :
    o.addAll (ns ++ ms) = (o.addAll ns).addAll ms := by simp [addAll]

theorem addAll_cons (o : Outline) (n : Node) (ns : List Node) :
    o.addAll (n :: ns) = (o.add n).addAll ns := by simp [addAll, add]

theorem closeGroup_addAll (o : Outline) (ns : List Node) :
    (o.openGroup.addAll ns).closeGroup = o.add (.group ns) := by
  simp [openGroup, addAll, closeGroup, add]

variable [Regex.Engine]

theorem step_keyword (o : Outline) (k : Keyword) (gap rest : Text) :
    o.step ⟨gap, k.text, rest⟩ = (o.add (.word k), rest) := by
  rcases k with (_ | _) | _ <;> rfl

theorem readFrom_keyword (o : Outline) (k : Keyword) {rest : Text} (hr : AtBreak rest) :
    o.readFrom (k.text ++ rest) = (o.add (.word k)).readFrom rest := by
  have hnext : next? (k.text ++ rest) = some ⟨[], k.text, rest⟩ := by
    have hpass : k.text ≠ [] ∧ Passable breaks k.text := by
      rcases k with (_ | _) | _
      all_goals exact ⟨by decide, passable_of_all (by decide)⟩
    exact next?_word hpass.1 hpass.2.2 hpass.2.1 hr
  rw [readFrom_next hnext, step_keyword]

theorem readFrom_leaf {f : Text} {t : Test} (h : Legible f t) (ht : t.Writable) (o : Outline)
    {rest : Text} (hr : AtBreak rest) :
    o.readFrom (f ++ t.write ++ rest) = (o.add (.leaf (.leaf f t))).readFrom rest := by
  have hpass : Passable breaks (f ++ t.write) := h.passable.append (inherited_breaks.write ht)
  have hne : f ++ t.write ≠ [] := by
    obtain ⟨d, u, hsymbol, -⟩ := t.operator.symbol_head
    simp [t.write_eq, hsymbol]
  have hnext := next?_word hne hpass.2 hpass.1 hr
  have hparenthesis : ∀ c, isParenthesis c = true → f ++ t.write ≠ [c] := by
    intro c hc heq
    have hbreak := breaks_head_of_clear (heq ▸ hpass.2)
    simp [breaks, hc] at hbreak
  have hopen := hparenthesis '(' (by decide)
  have hclose := hparenthesis ')' (by decide)
  rw [readFrom_next hnext]
  simp only [step, isGroupOpen, isGroupClose, beq_iff_eq, hopen, hclose, if_false,
    Condition.keyword?_leaf h, Condition.loadMark_leaf h ht, h.not_sort, h.not_page,
    Condition.read_leaf h ht]

end Outline

section

variable [Regex.Engine]

def Expr.Readable (e : Expr) : Prop := ∀ p ∈ e.leaves, Legible p.1 p.2 ∧ p.2.Writable

namespace Outline

open Lexeme

mutual

theorem readFrom_write : ∀ {e : Expr}, e.Readable → ∀ (o : Outline) {rest : Text}, AtBreak rest →
    o.readFrom (e.write ++ rest) = (o.addAll e.nodes).readFrom rest
  | .leaf f t, h, o, rest, hr => by
    obtain ⟨hlegible, hwritable⟩ := h (f, t) (by simp [Expr.leaves])
    rw [Expr.write, Expr.nodes, addAll_cons, addAll_nil, readFrom_leaf hlegible hwritable o hr]
  | .junction j es, h, o, rest, hr => by
    have hes : ∀ e ∈ es, e.Readable := by
      intro e he p hp
      refine h p ?_
      rw [Expr.leaves, Expr.leavesEach_eq_flatMap]
      exact List.mem_flatMap.2 ⟨e, he, hp⟩
    have hclose : AtBreak (')' :: rest) := atBreak_cons (by decide)
    have hwrite : (Expr.junction j es).write ++ rest =
        '(' :: (Text.join (' ' :: j.word ++ [' ']) (Expr.writeEach es) ++ ')' :: rest) := by
      rw [Expr.write]
      simp
    rw [hwrite, readFrom_open, readFrom_writeEach j hes _ hclose, readFrom_close,
      closeGroup_addAll, Expr.nodes, addAll_cons, addAll_nil]
  | .not e, h, o, rest, hr => by
    have he : e.Readable := fun p hp => h p (by rwa [Expr.leaves])
    have hspace : AtBreak (' ' :: '(' :: (e.write ++ ')' :: rest)) := atBreak_cons (by decide)
    have hclose : AtBreak (')' :: rest) := atBreak_cons (by decide)
    have hwrite : (Expr.not e).write ++ rest =
        Keyword.not.text ++ ' ' :: '(' :: (e.write ++ ')' :: rest) := by
      rw [Expr.write]
      simp [Keyword.text]
    rw [hwrite, readFrom_keyword o .not hspace, readFrom_gap (by decide), readFrom_open,
      readFrom_write he _ hclose, readFrom_close, closeGroup_addAll, Expr.nodes, addAll_cons,
      addAll_cons, addAll_nil]

theorem readFrom_writeEach (j : Junction) : ∀ {es : List Expr}, (∀ e ∈ es, e.Readable) →
    ∀ (o : Outline) {rest : Text}, AtBreak rest →
      o.readFrom (Text.join (' ' :: j.word ++ [' ']) (Expr.writeEach es) ++ rest) =
        (o.addAll (Expr.nodesEach j es)).readFrom rest
  | [], _, o, rest, _ => by rw [Expr.nodesEach, addAll_nil]; rfl
  | [e], h, o, rest, hr => by
    rw [Expr.writeEach, Expr.writeEach, Text.join_singleton, Expr.nodesEach,
      readFrom_write (h e (List.mem_cons_self ..)) o hr]
  | e :: f :: es, h, o, rest, hr => by
    rw [List.forall_mem_cons] at h
    have hjoin : Text.join (' ' :: j.word ++ [' ']) (Expr.writeEach (e :: f :: es)) ++ rest =
        e.write ++ ' ' :: (Keyword.text (.join j) ++ ' ' ::
          (Text.join (' ' :: j.word ++ [' ']) (Expr.writeEach (f :: es)) ++ rest)) := by
      simp [Expr.writeEach, Keyword.text]
    have hspace : ∀ t, AtBreak (' ' :: t) := fun _ => atBreak_cons (by decide)
    rw [hjoin, readFrom_write h.1 o (hspace _), readFrom_gap (by decide),
      readFrom_keyword _ _ (hspace _), readFrom_gap (by decide), readFrom_writeEach j h.2 _ hr,
      Expr.nodesEach, addAll_append, addAll_cons]

end

theorem read_write {e : Expr} (h : e.Readable) : read e.write = empty.addAll e.nodes := by
  have hread : empty.readFrom (e.write ++ []) = _ := readFrom_write h empty atBreak_nil
  rw [List.append_nil, readFrom_nil] at hread
  exact hread

end Outline

theorem Request.read_write_filter {e : Expr} (h : e.Readable) :
    Request.read e.write = ⟨e.paired, [], Page.none, []⟩ := by
  rw [Request.read, Outline.read_write h, ← Node.assemble_nodes e]
  rfl

def Expr.Writable (e : Expr) : Prop := ∀ p ∈ e.leaves, PlainField p.1 ∧ p.2.Writable

instance (e : Expr) : Decidable e.Writable :=
  inferInstanceAs (Decidable (∀ p ∈ e.leaves, PlainField p.1 ∧ p.2.Writable))

theorem Expr.Writable.readable {e : Expr} (h : e.Writable) : e.Readable :=
  fun p hp => ⟨(h p hp).1.legible (h p hp).2, (h p hp).2⟩

/-- Filter text gives the normal form of the expression it was written for, and the expression
itself when every junction of it has two operands. -/
theorem Expr.filter_read_write {e : Expr} (h : e.Writable) :
    (Request.read e.write).filter = e.paired ∧
      (e.isBinary = true → (Request.read e.write).filter = some e) := by
  have hread : (Request.read e.write).filter = e.paired := by
    rw [Request.read_write_filter h.readable]
  refine ⟨hread, fun hbinary => ?_⟩
  rw [hread, Expr.paired_of_isBinary hbinary]

end

/-- Three operands come back in pairs; what stands in quotes or brackets is not taken apart. -/
theorem Expr.filter_read_write_three :
    letI := Regex.Engine.words
    let e := Expr.junction .or [
      .junction .and [.leaf "a".toList (.compare .gte (.int (-5))),
        .leaf "e".toList (.pattern .regex "ann".toList)],
      .not (.leaf "b.c".toList (.pattern .like "x) \" or".toList)),
      .leaf "d".toList (.member true [.bool true, .text "],".toList])]
    e.Writable ∧
      e.write = ("((a>=-5 and e=~\"ann\") or not (b.c=^\"x) \\\" or\") or " ++
        "d<nin>[true,\"],\"])").toList ∧
      (Request.read e.write).filter =
        some (.junction .or [.junction .or [
          .junction .and [.leaf "a".toList (.compare .gte (.int (-5))),
            .leaf "e".toList (.pattern .regex "ann".toList)],
          .not (.leaf "b.c".toList (.pattern .like "x) \" or".toList))],
          .leaf "d".toList (.member true [.bool true, .text "],".toList])]) := by
  let engine := Regex.Engine.words
  intro e
  have hwritable : e.Writable := by decide
  exact ⟨hwritable, by decide +kernel, (Expr.filter_read_write hwritable).1⟩

end FilterQuery
