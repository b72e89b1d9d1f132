import FilterQuery.Repair
import FilterQuery.Proofs.Quoted
set_option autoImplicit false

/-!
Brackets as a stack. `Bracket.after?` runs over a text with the open brackets on a stack and fails
at the first one that does not match. The fault list is empty and the repair changes nothing
exactly where that run ends with an empty stack outside literals.
-/

namespace FilterQuery

namespace Bracket

def step? (q : QuoteState) (opened : List Bracket) (c : Char) : Option (List Bracket) :=
  if q.structural c then
    match ofOpening? c, ofClosing? c with
    | some b, _ => some (b :: opened)
    | none, none => some opened
    | none, some b =>
      match opened with
      | [] => none
      | o :: outer => if o = b then some outer else none
  else some opened

def after? (q : QuoteState) (opened : List Bracket) : Text → Option (List Bracket)
  | [] => some opened
  | c :: t => (step? q opened c).bind fun o => after? (q.next c) o t

theorem after?_append (q : QuoteState) (opened : List Bracket) (t u : Text) :
    after? q opened (t ++ u) = (after? q opened t).bind fun o => after? (q.after t) o u := by
  induction t generalizing q opened with
  | nil => rfl
  | cons c t ih =>
    simp only [List.cons_append, after?]
    cases step? q opened c with
    | none => rfl
    | some o => exact ih (q.next c) o

def Balanced (t : Text) : Prop := QuoteState.Closed t ∧ after? .outside [] t = some []

def isDelimiter (c : Char) : Bool :=
  c = '(' || c = ')' || c = '[' || c = ']' || c = '"'

theorem step?_of_plain {c : Char} (h : isDelimiter c = false) (q : QuoteState)
    (opened : List Bracket) : step? q opened c = some opened := by
  simp only [isDelimiter, Bool.or_eq_false_iff, decide_eq_false_iff_not] at h
  obtain ⟨⟨⟨⟨h1, h2⟩, h3⟩, h4⟩, h5⟩ := h
  simp [step?, ofOpening?, ofClosing?, h1, h2, h3, h4]

theorem after?_of_plain {t : Text} (h : ∀ c ∈ t, isDelimiter c = false) (q : QuoteState)
    (opened : List Bracket) : after? q opened t = some opened := by
  induction t generalizing q with
  | nil => rfl
  | cons c t ih =>
    rw [List.forall_mem_cons] at h
    rw [after?, step?_of_plain h.1]
    exact ih h.2 _

theorem next_of_step? {q : QuoteState} {opened : List Bracket} {c : Char}
    (h : step? q opened c = none) : q.next c = q := by
  unfold step? at h
  split at h
  · rename_i hs
    obtain ⟨rfl, hc⟩ := (QuoteState.structural_iff q c).1 hs
    exact QuoteState.next_outside hc
  · cases h

theorem step?_opening (b : Bracket) (opened : List Bracket) :
    step? .outside opened b.opening = some (b :: opened) := by
  cases b <;> simp [step?, QuoteState.structural, ofOpening?, opening]

theorem step?_closing (b : Bracket) (opened : List Bracket) :
    step? .outside (b :: opened) b.closing = some opened := by
  cases b <;> simp [step?, QuoteState.structural, ofOpening?, ofClosing?, closing]

theorem next_closing (b : Bracket) : QuoteState.outside.next b.closing = .outside := by
  cases b <;> rfl

theorem after?_closing (opened : List Bracket) :
    after? .outside opened (opened.map closing) = some [] := by
  induction opened with
  | nil => rfl
  | cons b opened ih =>
    rw [List.map_cons, after?, step?_closing, next_closing]
    exact ih

theorem closed_closing (opened : List Bracket) : QuoteState.Closed (opened.map closing) := by
  induction opened with
  | nil => rfl
  | cons b opened ih =>
    rw [List.map_cons, QuoteState.Closed, QuoteState.after_cons, next_closing]
    exact ih

end Bracket

namespace Repair

open FilterQuery.Bracket

theorem balance_cons (q : QuoteState) (opened : List Bracket) (c : Char) (t : Text) :
    balance q opened (c :: t) = (step? q opened c).elim (balance (q.next c) opened t)
      fun o => c :: balance (q.next c) o t := by
  rw [balance]
  unfold step?
  by_cases hs : q.structural c = true
  · simp only [hs, if_true]
    cases ofOpening? c with
    | some b => cases ofClosing? c <;> rfl
    | none =>
      cases ofClosing? c with
      | none => rfl
      | some b =>
        cases opened with
        | nil => rfl
        | cons o outer => by_cases ho : o = b <;> simp [ho]
  · simp [hs]

theorem balance_of_after? {q : QuoteState} {opened o : List Bracket} {t : Text}
    (h : after? q opened t = some o) : balance q opened t = t ++ o.map closing := by
  induction t generalizing q opened with
  | nil =>
    cases h
    rfl
  | cons c t ih =>
    rw [after?] at h
    obtain ⟨o', hstep, hrest⟩ := Option.bind_eq_some_iff.1 h
    simp only [balance_cons, hstep, Option.elim_some, ih hrest, List.cons_append]

theorem after_balance {q : QuoteState} {t : Text} (h : q.after t = .outside)
    (opened : List Bracket) : q.after (balance q opened t) = .outside := by
  induction t generalizing q opened with
  | nil =>
    cases h
    exact closed_closing opened
  | cons c t ih =>
    rw [balance_cons]
    cases hstep : step? q opened c with
    | some o => exact ih h o
    | none =>
      rw [QuoteState.after_cons, next_of_step? hstep] at h
      rw [Option.elim_none, next_of_step? hstep]
      exact ih h opened

theorem after?_balance {q : QuoteState} {t : Text} (h : q.after t = .outside)
    (opened : List Bracket) : after? q opened (balance q opened t) = some [] := by
  induction t generalizing q opened with
  | nil =>
    cases h
    exact after?_closing opened
  | cons c t ih =>
    rw [balance_cons]
    cases hstep : step? q opened c with
    | some o =>
      rw [Option.elim_some, after?, hstep]
      exact ih h o
    | none =>
      rw [QuoteState.after_cons, next_of_step? hstep] at h
      rw [Option.elim_none, next_of_step? hstep]
      exact ih h opened

theorem balanced_balance {t : Text} (h : QuoteState.Closed t) :
    Balanced (balance .outside [] t) :=
  ⟨after_balance h [], after?_balance h []⟩

end Repair

namespace Diagnosis

open FilterQuery.Bracket

theorem delimiterFaults_eq_nil_iff (q : QuoteState) (offset : Nat) (opened : List (Bracket × Nat))
    (literal : Nat) (t : Text) :
    delimiterFaults q offset opened literal t = [] ↔
      q.after t = .outside ∧ after? q (opened.map Prod.fst) t = some [] := by
  induction t generalizing q offset opened literal with
  | nil => cases q <;> simp [delimiterFaults, after?]
  | cons c t ih =>
    rw [delimiterFaults, QuoteState.after_cons, after?]
    by_cases hquote : q = .outside ∧ c = '"'
    · obtain ⟨rfl, rfl⟩ := hquote
      simp [ih, step?, QuoteState.structural]
    · rw [if_neg hquote]
      unfold step?
      by_cases hs : q.structural c = true
      · simp only [hs, if_true]
        cases ofOpening? c with
        | some b => simp [ih]
        | none =>
          cases ofClosing? c with
          | none => simp [ih]
          | some b =>
            cases opened with
            | nil => simp
            | cons o outer =>
              obtain ⟨o, place⟩ := o
              by_cases ho : o = b <;> simp [ho, ih]
      · simp [hs, ih]

end Diagnosis

end FilterQuery
