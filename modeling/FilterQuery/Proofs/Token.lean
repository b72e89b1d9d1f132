import FilterQuery.Token
import FilterQuery.Proofs.Quoted
set_option autoImplicit false

/-!
Cutting the first token off a text of which the start is known: white space, a parenthesis, or a
word with no structural break in it that is followed by a break.
-/

namespace FilterQuery

namespace Lexeme

def breaks (c : Char) : Bool := Text.isGap c || isParenthesis c

def AtBreak (t : Text) : Prop := ∀ c ∈ t.head?, breaks c = true

@[simp] theorem atBreak_nil : AtBreak [] := by simp [AtBreak]

theorem atBreak_cons {c : Char} {t : Text} (h : breaks c = true) : AtBreak (c :: t) := by
  simpa [AtBreak] using h

theorem ends_eq (q : QuoteState) (c : Char) : ends q c = (q.structural c && breaks c) := by
  by_cases h : c = '"'
  · subst h
    simp [ends, QuoteState.structural, Text.isGap, isParenthesis, breaks]
  · have hc : (c != '"') = true := by simpa using h
    rw [ends, QuoteState.structural, breaks, hc, Bool.and_true]

theorem ends_eq_false {q : QuoteState} {c : Char} (h : q.structural c = true → breaks c = false) :
    ends q c = false := by
  rw [ends_eq]
  cases hs : q.structural c with
  | false => rfl
  | true => simp [h hs]

theorem spanWord_append_of_clear {q : QuoteState} {u : Text} (h : q.Clear breaks u) (v : Text) :
    spanWord q (u ++ v) = (u ++ (spanWord (q.after u) v).1, (spanWord (q.after u) v).2) := by
  induction u generalizing q with
  | nil => rfl
  | cons c u ih =>
    rw [QuoteState.clear_cons] at h
    simp [spanWord, ends_eq_false h.1, ih h.2]

theorem spanWord_atBreak {v : Text} (h : AtBreak v) : spanWord .outside v = ([], v) := by
  cases v with
  | nil => rfl
  | cons c v =>
    have hc : breaks c = true := h c (by simp)
    have hq : c ≠ '"' := by
      rintro rfl
      exact absurd hc (by decide)
    have he : ends .outside c = true := by
      rw [ends_eq, QuoteState.structural_outside hq, hc]
      rfl
    simp [spanWord, he]

theorem next?_cons_of_not_gap {c : Char} (h : Text.isGap c = false) (t : Text) :
    next? (c :: t) = some ⟨[], (spanToken (c :: t)).1, (spanToken (c :: t)).2⟩ := by
  simp [next?, h]

theorem next?_parenthesis {c : Char} (h : isParenthesis c = true) (t : Text) :
    next? (c :: t) = some ⟨[], [c], t⟩ := by
  have hg : Text.isGap c = false := by
    simp only [isParenthesis, Bool.or_eq_true, decide_eq_true_eq] at h
    rcases h with rfl | rfl <;> decide
  simp [next?_cons_of_not_gap hg, spanToken, h]

theorem breaks_head_of_clear {c : Char} {t : Text}
    (h : QuoteState.outside.Clear breaks (c :: t)) : breaks c = false := by
  rw [QuoteState.clear_cons, QuoteState.structural_iff] at h
  by_cases hq : c = '"'
  · subst hq
    decide
  · exact h.1 ⟨rfl, hq⟩

theorem next?_append {u : Text} (hne : u ≠ []) (hclear : QuoteState.outside.Clear breaks u)
    (hclosed : QuoteState.Closed u) (v : Text) :
    next? (u ++ v) = some ⟨[], u ++ (spanWord .outside v).1, (spanWord .outside v).2⟩ := by
  obtain ⟨c, u, rfl⟩ := List.exists_cons_of_ne_nil hne
  have hb := breaks_head_of_clear hclear
  simp only [breaks, Bool.or_eq_false_iff] at hb
  have hspan := spanWord_append_of_clear hclear v
  rw [hclosed] at hspan
  rw [List.cons_append, next?_cons_of_not_gap hb.1, spanToken, if_neg (by simp [hb.2]),
    ← List.cons_append, hspan]

theorem next?_word {u v : Text} (hne : u ≠ []) (hclear : QuoteState.outside.Clear breaks u)
    (hclosed : QuoteState.Closed u) (hv : AtBreak v) : next? (u ++ v) = some ⟨[], u, v⟩ := by
  rw [next?_append hne hclear hclosed, spanWord_atBreak hv, List.append_nil]

theorem next?_gap {c : Char} (h : Text.isGap c = true) (t : Text) :
    next? (c :: t) = (next? t).map fun l => { l with gap := c :: l.gap } := by
  by_cases hd : t.dropWhile Text.isGap = []
  · simp [next?, h, hd]
  · simp [next?, h, hd]

end Lexeme

end FilterQuery
