import FilterQuery.Proofs.Balance
import FilterQuery.Proofs.Clause
set_option autoImplicit false

/-!
Repair succeeds. The first pass closes the literals and makes the brackets match. What the second
one cuts off leaves brackets open at most, so it only puts closing brackets at the end, and behind
these there is nothing to cut off: the third pass changes nothing, and the text is without faults.
-/

namespace FilterQuery

open FilterQuery.QuoteState FilterQuery.Bracket

namespace Repair

theorem inside_of_next {q : QuoteState} {c : Char} (h : q.next c = .escaped) : q = .inside := by
  cases q with
  | inside => rfl
  | escaped => cases h
  | outside =>
    rw [next] at h
    split at h <;> cases h

theorem closed_closeLiteral (t : Text) : Closed (closeLiteral t) := by
  unfold closeLiteral
  cases h : outside.after t with
  | outside => exact h
  | inside =>
    rw [Closed, after_append, h]
    rfl
  | escaped =>
    have hne : t ≠ [] := by
      rintro rfl
      cases h
    rw [← List.dropLast_concat_getLast hne, after_append] at h
    rw [Closed, after_append, inside_of_next h]
    rfl

theorem closeLiteral_of_closed {t : Text} (h : Closed t) : closeLiteral t = t := by
  unfold closeLiteral
  rw [h]

theorem not_delimiter_of_blank {c : Char} (h : Text.isBlank c = true) : isDelimiter c = false := by
  rw [isDelimiter]
  simp only [Bool.or_eq_false_iff, decide_eq_false_iff_not]
  refine ⟨⟨⟨⟨?_, ?_⟩, ?_⟩, ?_⟩, ?_⟩ <;> rintro rfl <;> exact absurd h (by decide)

theorem closed_of_plain {t : Text} (h : ∀ c ∈ t, isDelimiter c = false) : Closed t := by
  refine after_of_unquoted fun c hc hquote => ?_
  have hplain := h c hc
  rw [hquote] at hplain
  cases hplain

theorem beforeLast_initial (t : Text) : beforeLast (Lexeme.clauses t) <+: t := by
  obtain ⟨gap, happ, -⟩ := Lexeme.append_clauses t
  have hinitial := (List.dropLast_prefix (Lexeme.clauses t)).flatMap fun l => l.gap ++ l.text
  exact hinitial.trans ⟨gap, happ⟩

theorem closed_beforeLast {t : Text} (h : Closed t) : Closed (beforeLast (Lexeme.clauses t)) := by
  have hall : ∀ l ∈ (Lexeme.clauses t).dropLast, Closed (l.gap ++ l.text) := fun l hl =>
    Lexeme.closed_clauses h l (List.mem_of_mem_dropLast hl)
  unfold beforeLast
  generalize (Lexeme.clauses t).dropLast = ls at hall
  induction ls with
  | nil => exact closed_nil
  | cons l ls ih =>
    rw [List.forall_mem_cons] at hall
    rw [List.flatMap_cons]
    exact hall.1.append (ih hall.2)

structure Settled (t : Text) : Prop where
  leading : Lexeme.leadingFault? (Lexeme.clauses t) = none
  trailing : (Lexeme.clauses t).getLast?.bind Lexeme.trailingSymbol? = none

theorem mem_words_of_keyword? {t : Text} {k : Keyword} (h : Keyword.ofText? t = some k) :
    t ∈ [Junction.and.word, Junction.or.word, notWord] := by
  unfold Keyword.ofText? at h
  split at h
  · simp [*]
  · split at h
    · simp [*]
    · split at h
      · simp [*]
      · cases h

/-- An operator at fault at the start of a text is a keyword. -/
theorem plain_of_leadingFault? {t : Text} {l : Lexeme} (hl : Lexeme.nextClause? t = some l)
    (h : (Lexeme.leadingFault? (Lexeme.clauses t)).isSome = true) :
    ∀ c ∈ l.text, isDelimiter c = false := by
  have hword : l.text ∈ [Junction.and.word, Junction.or.word, notWord] := by
    rw [Lexeme.clauses_of_nextClause? hl, Lexeme.leadingFault?] at h
    cases hk : Keyword.ofText? l.text with
    | some k => exact mem_words_of_keyword? hk
    | none =>
      have hnot : l.text ≠ notWord := by
        intro hnot
        rw [hnot] at hk
        cases hk
      simp [Lexeme.junction?, hk, Lexeme.isDanglingNot, hnot] at h
  have hplain : [Junction.and.word, Junction.or.word, notWord].all
      (fun w => w.all fun c => !isDelimiter c) = true := by decide
  intro c hc
  simpa using List.all_eq_true.1 (List.all_eq_true.1 hplain _ hword) c hc

theorem append_stripOperators (t : Text) :
    ∃ p s, p ++ stripOperators t ++ s = t ∧ ∀ c ∈ p, isDelimiter c = false := by
  -- what goes in front is a keyword and white space; what goes behind may hold anything
  fun_induction stripOperators t with
  | case1 t h => exact ⟨[], [], List.append_nil t, fun _ hc => absurd hc List.not_mem_nil⟩
  | case2 t l h hlead _ ih =>
    obtain ⟨p, s, happ, hp⟩ := ih
    obtain ⟨b, hb, hblank⟩ := Text.append_trimStart l.rest
    refine ⟨l.gap ++ l.text ++ b ++ p, s, ?_, ?_⟩
    · calc l.gap ++ l.text ++ b ++ p ++ stripOperators (Text.trimStart l.rest) ++ s
          = l.gap ++ l.text ++ (b ++ (p ++ stripOperators (Text.trimStart l.rest) ++ s)) := by
            simp only [List.append_assoc]
        _ = t := by rw [happ, hb, Lexeme.append_of_nextClause? h]
    · simp only [List.forall_mem_append]
      exact ⟨⟨⟨fun c hc => not_delimiter_of_blank
        (Text.isBlank_of_isGap c (Lexeme.isGap_of_nextClause? h c hc)),
        plain_of_leadingFault? h hlead⟩, fun c hc => not_delimiter_of_blank (hblank c hc)⟩, hp⟩
  | case3 t l h hlead htrail _ ih =>
    obtain ⟨p, s, happ, hp⟩ := ih
    obtain ⟨b, hb, -⟩ := Text.append_trimEnd (beforeLast (Lexeme.clauses t))
    obtain ⟨u, hu⟩ := beforeLast_initial t
    refine ⟨p, s ++ b ++ u, ?_, hp⟩
    calc p ++ stripOperators (Text.trimEnd (beforeLast (Lexeme.clauses t))) ++ (s ++ b ++ u)
        = p ++ stripOperators (Text.trimEnd (beforeLast (Lexeme.clauses t))) ++ s ++ b ++ u := by
          simp only [List.append_assoc]
      _ = t := by rw [happ, hb, hu]
  | case4 t l h hlead htrail =>
    exact ⟨[], [], List.append_nil t, fun _ hc => absurd hc List.not_mem_nil⟩

theorem closed_stripOperators {t : Text} (h : Closed t) : Closed (stripOperators t) := by
  fun_induction stripOperators t with
  | case1 t => exact h
  | case2 t l hl hlead _ ih => exact ih (closed_trimStart (Lexeme.closed_of_nextClause? h hl).2)
  | case3 t l hl hlead htrail _ ih => exact ih (closed_trimEnd (closed_beforeLast h))
  | case4 t => exact h

theorem settled_stripOperators (t : Text) : Settled (stripOperators t) := by
  fun_induction stripOperators t with
  | case1 t h =>
    have hclauses : Lexeme.clauses t = [] := by
      rw [← List.head?_eq_none_iff, Lexeme.head?_clauses, h]
    exact ⟨by rw [hclauses]; rfl, by rw [hclauses]; rfl⟩
  | case2 t l h hlead _ ih => exact ih
  | case3 t l h hlead htrail _ ih => exact ih
  | case4 t l h hlead htrail =>
    exact ⟨Option.not_isSome_iff_eq_none.1 hlead, Option.not_isSome_iff_eq_none.1 htrail⟩

theorem stripOperators_of_settled {t : Text} (h : Settled t) : stripOperators t = t := by
  rw [stripOperators]
  split
  · rfl
  · simp [h.leading, h.trailing]

theorem isClosing_closing (opened : List Bracket) : Lexeme.IsClosing (opened.map closing) := by
  intro c hc
  obtain ⟨b, -, rfl⟩ := List.mem_map.1 hc
  cases b
  · exact .inl rfl
  · exact .inr rfl

theorem settled_pass {t : Text} (h : Balanced t) : Settled (pass t) := by
  obtain ⟨p, s, happ, hp⟩ := append_stripOperators t
  have hclosed := closed_stripOperators h.1
  have hsettled := settled_stripOperators t
  rw [pass, closeLiteral_of_closed h.1]
  generalize stripOperators t = u at happ hclosed hsettled
  obtain ⟨opened, hopened⟩ : ∃ opened, after? .outside [] u = some opened := by
    have hrun := h.2
    rw [← happ, List.append_assoc, after?_append, after?_of_plain hp, Option.bind_some,
      closed_of_plain hp, after?_append] at hrun
    obtain ⟨opened, hopened, -⟩ := Option.bind_eq_some_iff.1 hrun
    exact ⟨opened, hopened⟩
  rw [balance_of_after? hopened]
  cases opened with
  | nil => simpa using hsettled
  | cons b opened =>
    have hclosing : Lexeme.IsClosing ((b :: opened).map closing) := isClosing_closing _
    obtain ⟨c, hc⟩ := Option.ne_none_iff_exists'.1
      (mt List.getLast?_eq_none_iff.1 (List.cons_ne_nil b.closing (opened.map closing)))
    have hlast : (u ++ (b :: opened).map closing).getLast? = some c := by
      rw [List.getLast?_append, List.map_cons, hc, Option.some_or]
    have hc' := hclosing c (List.mem_of_getLast? hc)
    have hgap : Text.isGap c = false := by rcases hc' with rfl | rfl <;> rfl
    constructor
    · cases hl : Lexeme.nextClause? u with
      | some l => exact Lexeme.leadingFault?_extend hl hsettled.leading hclosing
      | none =>
        -- white space opens no bracket
        rw [after?_of_plain fun d hd => not_delimiter_of_blank
          (Text.isBlank_of_isGap d (Lexeme.isGap_of_nextClause?_eq_none hl d hd))] at hopened
        cases hopened
    · cases hl : (Lexeme.clauses (u ++ (b :: opened).map closing)).getLast? with
      | none => rfl
      | some l => exact Lexeme.trailingSymbol?_of_isClosing (Lexeme.getLast?_clause hlast hgap hl) hc'

theorem balanced_pass (t : Text) : Balanced (pass t) :=
  balanced_balance (closed_stripOperators (closed_closeLiteral t))

theorem pass_eq_self {t : Text} (hb : Balanced t) (hs : Settled t) : pass t = t := by
  rw [pass, closeLiteral_of_closed hb.1, stripOperators_of_settled hs, balance_of_after? hb.2,
    List.map_nil, List.append_nil]

theorem pass_pass_pass (t : Text) : pass (pass (pass t)) = pass (pass t) :=
  pass_eq_self (balanced_pass _) (settled_pass (balanced_pass t))

/-- Whether one of so many passes changes nothing, which ends the loop before its limit does. -/
def settles : Nat → Text → Bool
  | 0, _ => false
  | n + 1, t => pass t = t || settles n (pass t)

theorem settles_succ {n : Nat} {t : Text} (h : settles n t = true) : settles (n + 1) t = true := by
  induction n generalizing t with
  | zero => cases h
  | succ n ih =>
    rw [settles, Bool.or_eq_true] at h ⊢
    exact h.imp id ih

theorem settles_add_three (n : Nat) (t : Text) : settles (n + 3) t = true := by
  induction n with
  | zero => simp [settles, pass_pass_pass]
  | succ n ih =>
    rw [show n + 1 + 3 = n + 3 + 1 by omega]
    exact settles_succ ih

theorem run_of_pass_eq {t : Text} (h : pass t = t) (n : Nat) : run n t = t := by
  cases n with
  | zero => rfl
  | succ n => simp [run, h]

theorem run_add_two (n : Nat) (t : Text) : run (n + 2) t = pass (pass t) := by
  by_cases h : pass t = t
  · rw [run_of_pass_eq h, h, h]
  · by_cases h' : pass (pass t) = pass t
    · simp [run, h, h']
    · simp [run, h, h', run_of_pass_eq (pass_pass_pass t)]

/-- What a text can become: some of its characters in their order, with closing marks behind. -/
def Mended (t r : Text) : Prop :=
  ∃ u marks, r = u ++ marks ∧ u.Sublist t ∧ ∀ c ∈ marks, c ∈ ['"', ')', ']']

theorem Mended.refl (t : Text) : Mended t t :=
  ⟨t, [], (List.append_nil t).symm, List.Sublist.refl t, fun _ hc => absurd hc List.not_mem_nil⟩

theorem Mended.trans {t r s : Text} (hr : Mended t r) (hs : Mended r s) : Mended t s := by
  obtain ⟨u, marks, rfl, hu, hmarks⟩ := hr
  obtain ⟨v, more, rfl, hv, hmore⟩ := hs
  obtain ⟨v₁, v₂, rfl, hv₁, hv₂⟩ := List.sublist_append_iff.1 hv
  refine ⟨v₁, v₂ ++ more, List.append_assoc .., hv₁.trans hu, ?_⟩
  exact List.forall_mem_append.2 ⟨fun c hc => hmarks c (hv₂.subset hc), hmore⟩

theorem Mended.of_sublist {t r : Text} (h : r.Sublist t) : Mended t r :=
  ⟨r, [], (List.append_nil r).symm, h, fun _ hc => absurd hc List.not_mem_nil⟩

theorem mended_closeLiteral (t : Text) : Mended t (closeLiteral t) := by
  unfold closeLiteral
  split
  · exact .refl t
  · exact ⟨t, ['"'], rfl, .refl t, by simp⟩
  · exact ⟨t.dropLast, ['"'], rfl, List.dropLast_sublist t, by simp⟩

theorem mended_stripOperators (t : Text) : Mended t (stripOperators t) := by
  obtain ⟨p, s, happ, -⟩ := append_stripOperators t
  exact .of_sublist (List.IsInfix.sublist ⟨p, s, happ⟩)

theorem mended_balance (q : QuoteState) (opened : List Bracket) (t : Text) :
    Mended t (balance q opened t) := by
  induction t generalizing q opened with
  | nil =>
    refine ⟨[], opened.map closing, rfl, .refl [], fun c hc => ?_⟩
    rcases isClosing_closing opened c hc with rfl | rfl <;> simp
  | cons c t ih =>
    rw [balance_cons]
    cases step? q opened c with
    | some o =>
      obtain ⟨u, marks, heq, hu, hmarks⟩ := ih (q.next c) o
      exact ⟨c :: u, marks, by rw [Option.elim_some, heq]; rfl, hu.cons_cons c, hmarks⟩
    | none =>
      obtain ⟨u, marks, heq, hu, hmarks⟩ := ih (q.next c) opened
      exact ⟨u, marks, heq, hu.cons c, hmarks⟩

theorem mended_pass (t : Text) : Mended t (pass t) :=
  (mended_closeLiteral t).trans ((mended_stripOperators _).trans (mended_balance .outside [] _))

end Repair

namespace Diagnosis

open Repair

theorem trailingFault?_eq_none_iff (l : Option Lexeme) :
    l.bind Lexeme.trailingFault? = none ↔ l.bind Lexeme.trailingSymbol? = none := by
  cases l with
  | none => simp
  | some l => simp [Lexeme.trailingFault?]

theorem operatorFaults_eq_nil_iff (t : Text) : operatorFaults t = [] ↔ Settled t := by
  rw [operatorFaults]
  simp only [List.append_eq_nil_iff, Option.toList_eq_nil_iff, Option.map_eq_none_iff]
  constructor
  · rintro ⟨hlead, htrail⟩
    rw [hlead, Option.isSome_none, if_neg (by simp), trailingFault?_eq_none_iff] at htrail
    exact ⟨hlead, htrail⟩
  · rintro ⟨hlead, htrail⟩
    rw [hlead, Option.isSome_none, if_neg (by simp), trailingFault?_eq_none_iff]
    exact ⟨rfl, htrail⟩

/-- A text is valid exactly if its literals end, its brackets match and its operators settle. -/
theorem isValid_iff (t : Text) : isValid t = true ↔ Balanced t ∧ Settled t := by
  have hsort : ∀ fs : List (Nat × Fault), (fs.mergeSort fun a b => a.1 ≤ b.1) = [] ↔ fs = [] :=
    fun fs => by rw [← List.length_eq_zero_iff, List.length_mergeSort, List.length_eq_zero_iff]
  rw [isValid, List.isEmpty_iff, faults, hsort, List.append_eq_nil_iff,
    delimiterFaults_eq_nil_iff, operatorFaults_eq_nil_iff]
  rfl

end Diagnosis

namespace Text

open Repair

theorem repair_eq (t : Text) : repair t = if Diagnosis.isValid t then t else pass (pass t) := by
  rw [repair, mostPasses, run_add_two]

theorem isValid_repair (t : Text) : Diagnosis.isValid (repair t) = true := by
  rw [repair_eq]
  split
  · assumption
  · exact (Diagnosis.isValid_iff _).2 ⟨balanced_pass _, settled_pass (balanced_pass t)⟩

theorem repair_of_isValid {t : Text} (h : Diagnosis.isValid t = true) : repair t = t := by
  rw [repair, if_pos h]

/-- Repair always succeeds, is done after one time, stops by itself and adds closing marks only. -/
theorem repair_succeeds (t : Text) :
    Diagnosis.problems (repair t) = [] ∧ repairChecked t = .ok (repair t) ∧
      repair (repair t) = repair t ∧ settles mostPasses t = true ∧
      ∃ u marks, repair t = u ++ marks ∧ u.Sublist t ∧ ∀ c ∈ marks, c ∈ ['"', ')', ']'] := by
  have hvalid := isValid_repair t
  have hproblems : Diagnosis.problems (repair t) = [] := by
    rw [Diagnosis.problems, List.isEmpty_iff.1 hvalid, List.map_nil]
  have hchecked : repairChecked t = .ok (repair t) := by
    rw [repairChecked, Diagnosis.first?, hproblems]
    rfl
  have hmended : Mended t (repair t) := by
    rw [repair_eq]
    split
    · exact .refl t
    · exact (mended_pass t).trans (mended_pass _)
  exact ⟨hproblems, hchecked, repair_of_isValid hvalid, settles_add_three 61 t, hmended⟩

end Text

end FilterQuery
