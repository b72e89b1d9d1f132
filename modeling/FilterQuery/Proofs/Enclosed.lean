import FilterQuery.Proofs.Nesting
import FilterQuery.Proofs.Outline
set_option autoImplicit false

/-!
Text before a closing parenthesis. Behind a text whose brackets match, a parenthesis is drawn into
nothing that the text says: no operator is looked for behind it, no operand starts with it, and the
lists and groups of the text have ended. So the text before it is read as it is read alone.
-/

namespace FilterQuery

open FilterQuery.QuoteState FilterQuery.Bracket

namespace Lexeme

theorem spanWord_append_break {q : QuoteState} {t v : Text} (ht : q.after t = .outside)
    (hv : AtBreak v) : spanWord q (t ++ v) = ((spanWord q t).1, (spanWord q t).2 ++ v) := by
  induction t generalizing q with
  | nil =>
    cases ht
    exact spanWord_atBreak hv
  | cons c t ih =>
    rw [List.cons_append, spanWord, spanWord]
    by_cases hc : ends q c = true
    · simp only [hc, if_true, List.cons_append]
    · simp only [hc, Bool.false_eq_true, if_false, ih ht]

theorem spanToken_append_break {t v : Text} (hne : t ≠ []) (ht : Closed t) (hv : AtBreak v) :
    spanToken (t ++ v) = ((spanToken t).1, (spanToken t).2 ++ v) := by
  obtain ⟨c, u, rfl⟩ := List.exists_cons_of_ne_nil hne
  rw [List.cons_append, spanToken, spanToken]
  by_cases hc : isParenthesis c = true
  · simp only [hc, if_true]
  · simp only [hc, Bool.false_eq_true, if_false]
    exact spanWord_append_break ht hv

theorem next?_append_break {t v : Text} {l : Lexeme} (ht : Closed t) (h : next? t = some l)
    (hv : AtBreak v) : next? (t ++ v) = some { l with rest := l.rest ++ v } := by
  have hgap := closed_gap (isGap_of_next? h)
  obtain ⟨hne, rfl⟩ := eq_of_next? h
  obtain ⟨hdrop, htake⟩ := dropWhile_append_of_ne_nil hne v
  have hstart : Closed (t.dropWhile Text.isGap) := by
    rw [← List.takeWhile_append_dropWhile (p := Text.isGap) (l := t), Closed, after_append] at ht
    rwa [hgap] at ht
  have hne' : t.dropWhile Text.isGap ++ v ≠ [] := by simp [hne]
  simp only [next?, hdrop, htake, if_neg hne', spanToken_append_break hne hstart hv]

theorem next?_append_of_none {t : Text} (h : next? t = none) (v : Text) :
    next? (t ++ v) = (next? v).map fun l => { l with gap := t ++ l.gap } := by
  have hgap := isGap_of_next?_eq_none h
  clear h
  induction t with
  | nil => cases h : next? v <;> simp [h]
  | cons c t ih =>
    rw [List.forall_mem_cons] at hgap
    rw [List.cons_append, next?_gap hgap.1, ih hgap.2, Option.map_map]
    rfl

theorem atBreak_close (v : Text) : AtBreak (')' :: v) := atBreak_cons (by decide)

theorem next?_close_of_none {t : Text} (h : next? t = none) (v : Text) :
    next? (t ++ ')' :: v) = some ⟨t, [')'], v⟩ := by
  rw [next?_append_of_none h, next?_parenthesis (by decide), Option.map_some, List.append_nil]

end Lexeme

def behind {α : Type} (v : Text) : α × Text → α × Text := Prod.map id (· ++ ')' :: v)

namespace Condition

open Lexeme

variable {opened : List Bracket} {rest : Text}

theorem gatherList_next {l : Lexeme} (h : next? rest = some l) {taken : Text}
    (hbalance : 0 < bracketBalance .outside taken) :
    gatherList taken rest =
      if l.isGroupOpen || l.isGroupClose then (taken, rest)
      else gatherList (taken ++ l.gap ++ l.text) l.rest := by
  rw [gatherList, if_pos hbalance]
  split
  · rename_i hnone
    rw [h] at hnone
    cases hnone
  · rename_i k hk
    rw [h] at hk
    cases hk
    rfl

theorem gatherList_close (h : Closed rest) (taken v : Text) :
    gatherList taken (rest ++ ')' :: v) = behind v (gatherList taken rest) := by
  fun_induction gatherList taken rest with
  | case1 taken rest hbalance hnone =>
    rw [gatherList_next (next?_close_of_none hnone v) hbalance]
    rfl
  | case2 taken rest hbalance l hl hword =>
    rw [gatherList_next (next?_append_break h hl (atBreak_close v)) hbalance]
    exact if_pos hword
  | case3 taken rest hbalance l hl hword _ ih =>
    rw [gatherList_next (next?_append_break h hl (atBreak_close v)) hbalance]
    exact (if_neg hword).trans (ih (closed_rest_of_next? h hl))
  | case4 taken rest hbalance =>
    rw [gatherList, if_neg hbalance]
    rfl

theorem operand_close (h : Closed rest) (p : Operator) (taken v : Text) :
    operand p taken (rest ++ ')' :: v) = behind v (operand p taken rest) := by
  unfold operand
  split
  · exact gatherList_close h taken v
  · rfl

theorem gatherGroup_close {depth : Nat} (h : Nested .outside opened rest) (hpos : 0 < depth)
    (hdepth : depth ≤ groups opened) (taken v : Text) :
    gatherGroup depth taken (rest ++ ')' :: v) = behind v (gatherGroup depth taken rest) := by
  induction hlength : rest.length using Nat.strongRecOn generalizing opened depth taken rest with
  | ind n ih =>
    obtain ⟨l, hl⟩ := exists_next?_of_open h hpos hdepth
    obtain ⟨o, ho, -, hle⟩ := nested_depthBehind h hpos hdepth hl
    rw [gatherGroup_next hl, gatherGroup_next (next?_append_break h.closed hl (atBreak_close v))]
    change (if depthBehind l depth = 0 then _ else _) = _
    by_cases hzero : depthBehind l depth = 0
    · rw [if_pos hzero, if_pos hzero]
      rfl
    · rw [if_neg hzero, if_neg hzero]
      exact ih _ (hlength ▸ length_rest_lt hl) ho (Nat.pos_of_ne_zero hzero) hle _ rfl

theorem operandBehind_close (h : Nested .outside opened rest) (p : Operator) (v : Text) :
    operandBehind p (rest ++ ')' :: v) = (operandBehind p rest).map (behind v) := by
  unfold operandBehind
  cases hl : next? rest with
  | none =>
    rw [next?_close_of_none hl]
    rfl
  | some l =>
    obtain ⟨o, ho, hgroups⟩ := nested_rest h hl
    rw [next?_append_break h.closed hl (atBreak_close v)]
    change (if l.isGroupOpen then _ else if l.isGroupClose || _ then _ else _) = _
    by_cases hopen : l.isGroupOpen = true
    · rw [if_pos hopen] at hgroups
      simp only [hopen, if_true]
      split
      · rw [gatherGroup_close ho Nat.one_pos (by omega), Option.map_some]
      · rfl
    · simp only [hopen, Bool.false_eq_true, if_false]
      split
      · rfl
      · rw [operand_close ho.closed, Option.map_some]

theorem readAt_close [Regex.Engine] (h : Nested .outside opened rest) (p : Operator)
    (before after v : Text) :
    readAt p before after (rest ++ ')' :: v) = behind v (readAt p before after rest) := by
  unfold readAt
  split
  · rfl
  · split
    · rfl
    · split
      · rw [operand_close h.closed]
        rfl
      · rw [operandBehind_close h]
        cases operandBehind p rest <;> rfl

/-- A comparison does not reach a parenthesis behind a text that matches. -/
theorem read_close [Regex.Engine] (h : Nested .outside opened rest) (token v : Text) :
    read token (rest ++ ')' :: v) = behind v (read token rest) := by
  unfold read
  split
  · exact readAt_close h ..
  · cases hl : next? rest with
    | none =>
      rw [next?_close_of_none hl]
      rfl
    | some l =>
      obtain ⟨o, ho, -⟩ := nested_rest h hl
      rw [next?_append_break h.closed hl (atBreak_close v)]
      cases hp : Operator.leadingSplit? l.text with
      | none =>
        simp only [hp]
        rfl
      | some p =>
        simp only [hp]
        exact readAt_close ho ..

end Condition

namespace Outline

open Lexeme

variable {base : Nat} {o : Outline} {opened : List Bracket} {t : Text} {l : Lexeme}

theorem load_append {block rest : Text} (h : LoadSection.cut t = some (block, rest)) (o : Outline)
    (v : Text) : o.load (t ++ ')' :: v) = behind v (o.load t) := by
  unfold load
  rw [h, LoadSection.cut, LoadSection.cutBlock_append h]
  rfl

theorem step_close [Regex.Engine] (h : InStep base o opened t) (hl : next? t = some l) (v : Text) :
    o.step { l with rest := l.rest ++ ')' :: v } = behind v (o.step l) := by
  obtain ⟨opened', hrest, -⟩ := nested_rest h.nested hl
  rw [step_eq_begin, step_eq_begin]
  cases hstart : Start.ofText l.text with
  | openGroup => rfl
  | closeGroup => rfl
  | keyword k => rfl
  | load body =>
    obtain ⟨block, rest, hcut, -⟩ := h.cut hl (Start.isPrefixOf?_of_load hstart)
    simp only [begin]
    rw [← List.append_assoc]
    exact load_append hcut o v
  | sort body => rfl
  | page body => rfl
  | comparison =>
    simp only [begin]
    rw [Condition.read_close hrest]
    rcases Condition.read l.text l.rest with ⟨_ | e, rest⟩ <;> rfl

/-- Text whose brackets match is read before a closing parenthesis as it is read alone. -/
theorem readFrom_append_close [Regex.Engine] (h : InStep base o opened t) (v : Text) :
    o.readFrom (t ++ ')' :: v) = (o.readFrom t).closeGroup.readFrom v := by
  fun_induction Outline.readFrom o t generalizing opened with
  | case1 o t hnone => exact readFrom_next (next?_close_of_none hnone v)
  | case2 o t l hl _ ih =>
    obtain ⟨opened', hstep, -⟩ := h.step hl
    rw [readFrom_next (next?_append_break h.nested.closed hl (atBreak_close v)), step_close h hl]
    exact ih hstep

end Outline

end FilterQuery
