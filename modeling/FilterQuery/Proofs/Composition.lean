import FilterQuery.Proofs.Enclosed
import FilterQuery.Proofs.Merging
import Mathlib.Data.List.ModifyLast
set_option autoImplicit false

/-!
Valid texts joined in parentheses. A text whose brackets match is read on top of any outline as it
is read alone, so a group of it is one node with the nodes of its reading. Two such groups with a
junction word between them are joined as wholes.
-/

namespace FilterQuery

open FilterQuery.QuoteState FilterQuery.Bracket

namespace Outline

variable {base : Nat} {o p q : Outline} {opened : List Bracket} {t : Text} {l : Lexeme}

/-- An outline `q` that holds, on top of `o`, what the outline `p` holds: the lowest level of `p`
goes on with the innermost group of `o`. The pages are left aside, of which the last one counts. -/
structure Within (o p q : Outline) : Prop where
  levels : q.nodes :: q.outer = (p.nodes :: p.outer).modifyLast (o.nodes ++ ·) ++ o.outer
  sort : q.sort = o.sort ++ p.sort
  loads : q.loads = o.loads ++ p.loads

theorem modifyLast_singleton {α : Type} (f : α → α) (a : α) : [a].modifyLast f = [f a] :=
  List.modifyLast_concat f a []

theorem modifyLast_cons_cons {α : Type} (f : α → α) (a b : α) (as : List α) :
    (a :: b :: as).modifyLast f = a :: (b :: as).modifyLast f :=
  List.modifyLast_append_of_right_ne_nil f [a] (b :: as) (List.cons_ne_nil b as)

theorem within_empty (o : Outline) : Within o empty o where
  levels := by
    simp only [empty, modifyLast_singleton, List.append_nil]
    rfl
  sort := (List.append_nil _).symm
  loads := (List.append_nil _).symm

theorem Within.levels_nil (h : Within o p q) (houter : p.outer = []) :
    q.nodes = o.nodes ++ p.nodes ∧ q.outer = o.outer := by
  have hlevels := h.levels
  rw [houter, modifyLast_singleton, List.cons_append, List.nil_append] at hlevels
  exact List.cons.inj hlevels

theorem Within.levels_cons (h : Within o p q) {ns : List Node} {outer : List (List Node)}
    (houter : p.outer = ns :: outer) :
    q.nodes = p.nodes ∧ q.outer = (ns :: outer).modifyLast (o.nodes ++ ·) ++ o.outer := by
  have hlevels := h.levels
  rw [houter, modifyLast_cons_cons, List.cons_append] at hlevels
  exact List.cons.inj hlevels

theorem Within.add (h : Within o p q) (n : Node) : Within o (p.add n) (q.add n) := by
  refine ⟨?_, h.sort, h.loads⟩
  cases houter : p.outer with
  | nil =>
    obtain ⟨hnodes, hrest⟩ := h.levels_nil houter
    simp only [Outline.add, houter, modifyLast_singleton, hnodes, hrest, List.append_assoc,
      List.cons_append, List.nil_append]
  | cons ns outer =>
    obtain ⟨hnodes, hrest⟩ := h.levels_cons houter
    simp only [Outline.add, houter, modifyLast_cons_cons, hnodes, hrest, List.cons_append]

theorem Within.openGroup (h : Within o p q) : Within o p.openGroup q.openGroup := by
  refine ⟨?_, h.sort, h.loads⟩
  simp only [Outline.openGroup, modifyLast_cons_cons, h.levels, List.cons_append]

theorem Within.closeGroup (h : Within o p q) (hopen : p.outer ≠ []) :
    Within o p.closeGroup q.closeGroup := by
  obtain ⟨ns, outer, houter⟩ := List.exists_cons_of_ne_nil hopen
  obtain ⟨hnodes, hrest⟩ := h.levels_cons houter
  obtain ⟨hsort, hloads⟩ := And.intro h.sort h.loads
  cases outer with
  | nil =>
    rw [modifyLast_singleton, List.cons_append, List.nil_append] at hrest
    refine ⟨?_, ?_, ?_⟩ <;> simp only [Outline.closeGroup, houter, hrest]
    · simp only [hnodes, modifyLast_singleton, List.append_assoc, List.cons_append, List.nil_append]
    · exact hsort
    · exact hloads
  | cons ms outer =>
    rw [modifyLast_cons_cons, List.cons_append] at hrest
    refine ⟨?_, ?_, ?_⟩ <;> simp only [Outline.closeGroup, houter, hrest]
    · simp only [hnodes, modifyLast_cons_cons, List.cons_append]
    · exact hsort
    · exact hloads

theorem Within.load (h : Within o p q) (t : Text) : Within o (p.load t).1 (q.load t).1 := by
  unfold Outline.load
  split
  all_goals exact ⟨h.levels, h.sort, by simp only [h.loads, List.append_assoc]⟩

/-- A step is the same on top of another outline, unless it closes a group of that one. -/
theorem Within.step [Regex.Engine] (h : Within o p q)
    (hopen : l.isGroupClose = true → p.outer ≠ []) : Within o (p.step l).1 (q.step l).1 := by
  rw [Start.isGroupClose_iff] at hopen
  rw [step_eq_begin, step_eq_begin]
  cases hstart : Start.ofText l.text with
  | openGroup => exact h.openGroup
  | closeGroup => exact h.closeGroup (hopen hstart)
  | keyword k => exact h.add (.word k)
  | load body => exact h.load (body ++ l.rest)
  | sort body => exact ⟨h.levels, by simp only [begin, h.sort, List.append_assoc], h.loads⟩
  | page body => exact ⟨h.levels, h.sort, h.loads⟩
  | comparison =>
    simp only [begin]
    rcases Condition.read l.text l.rest with ⟨_ | e, rest⟩
    · exact h
    · exact h.add (.leaf e)

theorem rest_step [Regex.Engine] (o p : Outline) (l : Lexeme) : (o.step l).2 = (p.step l).2 := by
  rw [step_eq_begin, step_eq_begin]
  cases Start.ofText l.text with
  | load body =>
    simp only [begin, load]
    split <;> rfl
  | comparison =>
    simp only [begin]
    rcases Condition.read l.text l.rest with ⟨_ | e, rest⟩ <;> rfl
  | _ => rfl

theorem InStep.outer_ne_nil (h : InStep 0 p opened t) (hl : Lexeme.next? t = some l)
    (hclose : l.isGroupClose = true) : p.outer ≠ [] := by
  obtain ⟨o, -, hgroups⟩ := Lexeme.nested_rest h.nested hl
  have hopen : ¬ l.isGroupOpen = true := by
    rw [Start.isGroupClose_iff] at hclose
    rw [Start.isGroupOpen_iff, hclose]
    exact fun hne => by cases hne
  rw [if_neg hopen, if_pos hclose] at hgroups
  have hcounted := h.counted
  intro houter
  rw [houter, List.length_nil] at hcounted
  omega

theorem Within.readFrom [Regex.Engine] (h : Within o p q) (ht : InStep 0 p opened t) :
    Within o (p.readFrom t) (q.readFrom t) := by
  fun_induction Outline.readFrom p t generalizing opened q with
  | case1 p t hnone => rwa [readFrom_end hnone]
  | case2 p t l hl _ ih =>
    obtain ⟨opened', hstep, -⟩ := ht.step hl
    rw [readFrom_next hl, rest_step q p l]
    exact ih (h.step (ht.outer_ne_nil hl)) hstep

theorem readFrom_group [Regex.Engine] (h : Balanced t) (o : Outline) (v : Text) :
    ∃ o' : Outline, o.readFrom ('(' :: t ++ ')' :: v) = o'.readFrom v ∧
      o'.nodes = o.nodes ++ [.group (read t).nodes] ∧ o'.outer = o.outer ∧
      o'.sort = o.sort ++ (read t).sort ∧ o'.loads = o.loads ++ (read t).loads := by
  have hstep : InStep (o.outer.length + 1) o.openGroup [] t :=
    ⟨⟨h.1, h.2⟩, by simp [groups, openGroup]⟩
  have hwithin := (within_empty o.openGroup).readFrom (inStep_empty h)
  change Within o.openGroup (read t) _ at hwithin
  obtain ⟨hnodes, hgroup⟩ := hwithin.levels_nil (outer_read h)
  refine ⟨(o.openGroup.readFrom t).closeGroup, ?_, ?_⟩
  · rw [List.cons_append, readFrom_open, readFrom_append_close hstep]
  · change (o.openGroup.readFrom t).outer = o.nodes :: o.outer at hgroup
    simp only [closeGroup, hgroup]
    exact ⟨by rw [hnodes]; rfl, trivial, hwithin.sort, hwithin.loads⟩

end Outline

def Text.joined (j : Junction) (t u : Text) : Text :=
  '(' :: t ++ ')' :: ' ' :: (j.word ++ ' ' :: ('(' :: u ++ [')']))

namespace Outline

/-- The outline of joined texts holds one group for each and the sections of both. -/
theorem root_joined [Regex.Engine] {t u : Text} (ht : Balanced t) (hu : Balanced u) (j : Junction) :
    (read (Text.joined j t u)).root =
        [.group (read t).root, .word (.join j), .group (read u).root] ∧
      (read (Text.joined j t u)).sort = (read t).sort ++ (read u).sort ∧
      (read (Text.joined j t u)).loads = (read t).loads ++ (read u).loads := by
  obtain ⟨o, hreadT, hnodes, houter, hsort, hloads⟩ :=
    readFrom_group ht empty (' ' :: (j.word ++ ' ' :: ('(' :: u ++ [')'])))
  obtain ⟨o', hreadU, hnodes', houter', hsort', hloads'⟩ :=
    readFrom_group hu (o.add (.word (.join j))) []
  have hspace : Lexeme.AtBreak (' ' :: ('(' :: u ++ [')'])) := Lexeme.atBreak_cons (by decide)
  have hjoined : read (Text.joined j t u) = o' :=
    calc read (Text.joined j t u)
        = o.readFrom (' ' :: (j.word ++ ' ' :: ('(' :: u ++ [')']))) := hreadT
      _ = o.readFrom (Keyword.text (.join j) ++ ' ' :: ('(' :: u ++ [')'])) :=
        readFrom_gap (by decide) ..
      _ = (o.add (.word (.join j))).readFrom ('(' :: u ++ [')']) := by
        rw [readFrom_keyword o (.join j) hspace, readFrom_gap (by decide)]
      _ = o' := by rw [hreadU, readFrom_nil]
  have hroot : ∀ {v : Text}, Balanced v → (read v).root = (read v).nodes := fun hv => by
    rw [root, outer_read hv, closeAll]
  have houterJ : o'.outer = [] := houter'.trans houter
  rw [hjoined, root, houterJ, closeAll, hnodes', hsort', hloads', hroot ht, hroot hu]
  simp only [add, hnodes, hsort, hloads, empty, List.nil_append, List.cons_append,
    and_self]

end Outline

/-- Two groups with a junction word between them are joined as wholes. -/
theorem Node.assemble_groups (j : Junction) (ns ms : List Node) :
    assemble [.group ns, .word (.join j), .group ms] =
      Expr.combine j ((assemble ns).toList ++ (assemble ms).toList) := by
  rw [assemble, items_group, items_word, items_group]
  cases assemble ns <;> cases assemble ms <;> cases j <;> rfl

namespace Request

/-- Valid texts are joined as wholes: the filters that are there are the operands of the junction,
and the sections of the second text follow those of the first. -/
theorem read_joined [Regex.Engine] {t u : Text} (ht : Diagnosis.isValid t = true)
    (hu : Diagnosis.isValid u = true) (j : Junction) :
    (read (Text.joined j t u)).filter =
        Expr.combine j ((read t).filter.toList ++ (read u).filter.toList) ∧
      (read (Text.joined j t u)).sort = (read t).sort ++ (read u).sort ∧
      (read (Text.joined j t u)).preloads = (read t).preloads.merge (read u).preloads := by
  have hbt := ((Diagnosis.isValid_iff t).1 ht).1
  have hbu := ((Diagnosis.isValid_iff u).1 hu).1
  obtain ⟨hroot, hsort, hloads⟩ := Outline.root_joined hbt hbu j
  refine ⟨?_, hsort, ?_⟩
  · exact (congrArg Node.assemble hroot).trans (Node.assemble_groups ..)
  · exact (congrArg Preloads.ofSections hloads).trans (Preloads.ofSections_append ..)

/-- The first text ends in a field with no operator; a parenthesis stands in a literal of the
second, and both load one relation. -/
theorem read_joined_shared_relation :
    letI := Regex.Engine.words
    Diagnosis.isValid "a=1 load=[r:b=2|s] or b".toList = true ∧
      Diagnosis.isValid "not d=\"(\" load=[t|r:c=3] sort=x".toList = true ∧
      (read (Text.joined .or "a=1 load=[r:b=2|s] or b".toList
          "not d=\"(\" load=[t|r:c=3] sort=x".toList)).filter =
        Expr.combine .or ((read "a=1 load=[r:b=2|s] or b".toList).filter.toList ++
          (read "not d=\"(\" load=[t|r:c=3] sort=x".toList).filter.toList) ∧
      (read (Text.joined .or "a=1 load=[r:b=2|s] or b".toList
          "not d=\"(\" load=[t|r:c=3] sort=x".toList)).sort =
        (read "a=1 load=[r:b=2|s] or b".toList).sort ++
          (read "not d=\"(\" load=[t|r:c=3] sort=x".toList).sort ∧
      (read (Text.joined .or "a=1 load=[r:b=2|s] or b".toList
          "not d=\"(\" load=[t|r:c=3] sort=x".toList)).preloads =
        (read "a=1 load=[r:b=2|s] or b".toList).preloads.merge
          (read "not d=\"(\" load=[t|r:c=3] sort=x".toList).preloads := by
  let engine := Regex.Engine.words
  have ht : Diagnosis.isValid "a=1 load=[r:b=2|s] or b".toList = true := by decide +kernel
  have hu : Diagnosis.isValid "not d=\"(\" load=[t|r:c=3] sort=x".toList = true := by
    decide +kernel
  exact ⟨ht, hu, read_joined ht hu .or⟩

end Request

end FilterQuery
