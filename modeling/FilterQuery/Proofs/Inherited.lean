import FilterQuery.Proofs.Test
import FilterQuery.Proofs.Token
set_option autoImplicit false

/-!
Properties of texts that the text of a test inherits from its parts. Two of them let a reader take
it as one token: nothing in it ends a token, and its brackets balance.
-/

namespace FilterQuery

/-- The characters of a test's text outside quoted literals and brackets. -/
def isMark (c : Char) : Bool :=
  Text.isPlain c || c = ',' || c = '=' || c = '!' || c = '<' || c = '>' || c = '~' || c = '^'

theorem ne_of_isMark {c d : Char} (hc : isMark c = true) (hd : isMark d = false) : c ≠ d := by
  rintro rfl
  rw [hc] at hd
  cases hd

theorem isBlank_of_isMark {c : Char} (h : isMark c = true) : Text.isBlank c = false := by
  simp only [isMark, Bool.or_eq_true, decide_eq_true_eq] at h
  rcases h with ((((((h | rfl) | rfl) | rfl) | rfl) | rfl) | rfl) | rfl
  · exact Text.isBlank_of_isPlain h
  all_goals decide

structure Inherited (P : Text → Prop) : Prop where
  nil : P []
  append : ∀ t u, P t → P u → P (t ++ u)
  mark : ∀ c, isMark c = true → P [c]
  quoted : ∀ t, P (Quoted.write t)
  brackets : ∀ t, P t → P ('[' :: t ++ [']'])

namespace Inherited

variable {P : Text → Prop}

theorem of_marks (h : Inherited P) {t : Text} (ht : t.all isMark = true) : P t := by
  induction t with
  | nil => exact h.nil
  | cons c t ih =>
    rw [List.all_cons, Bool.and_eq_true] at ht
    exact h.append [c] t (h.mark c ht.1) (ih ht.2)

theorem symbol (h : Inherited P) (o : Operator) : P o.symbol := by
  refine h.of_marks ?_
  cases o with
  | compare c => cases c <;> decide
  | pattern k => cases k <;> decide
  | notLike => decide
  | notRegex => decide
  | member n => cases n <;> decide
  | between => decide
  | null n => cases n <;> decide

theorem literal (h : Inherited P) {l : Literal} (hl : l.IsWritten) : P l.write := by
  cases l with
  | quoted t => exact h.quoted t
  | bare t =>
    refine h.of_marks (List.all_eq_true.2 fun c hc => ?_)
    simp [isMark, hl.plain c hc]

theorem scalar (h : Inherited P) {v : Value} (hv : v.Writable) : P v.write := by
  obtain ⟨l, hl, hwrite, -⟩ := Literal.exists_of_writable hv
  rw [← hwrite]
  exact h.literal hl

theorem join (h : Inherited P) {separator : Text} (hs : P separator) {ts : List Text}
    (ht : ∀ t ∈ ts, P t) : P (Text.join separator ts) := by
  induction ts with
  | nil => exact h.nil
  | cons t ts ih =>
    rw [List.forall_mem_cons] at ht
    cases ts with
    | nil => simpa using ht.1
    | cons u ts =>
      rw [Text.join_cons_cons]
      exact h.append _ _ ht.1 (h.append _ _ hs (ih ht.2))

theorem list (h : Inherited P) {vs : List Value} (hv : ∀ v ∈ vs, v.Writable) :
    P (Value.list vs).write := by
  rw [Value.write_list]
  refine h.brackets _ (h.join (h.mark ',' (by decide)) fun t ht => ?_)
  obtain ⟨v, hmem, rfl⟩ := List.mem_map.1 ht
  exact h.scalar (hv v hmem)

theorem operand [Regex.Engine] (h : Inherited P) {t : Test} (ht : t.Writable) : P t.operand := by
  cases t with
  | compare c v => exact h.scalar ht
  | pattern k p => exact h.quoted p
  | member n vs => exact h.list ht
  | between low high =>
    exact h.append _ _ (h.append _ _ (h.scalar ht.1) (h.of_marks (by decide))) (h.scalar ht.2)
  | null n => exact h.nil

theorem write [Regex.Engine] (h : Inherited P) {t : Test} (ht : t.Writable) : P t.write := by
  rw [Test.write_eq]
  exact h.append _ _ (h.symbol _) (h.operand ht)

end Inherited

open QuoteState

def Passable (p : Char → Bool) (t : Text) : Prop := Closed t ∧ outside.Clear p t

theorem passable_singleton {p : Char → Bool} {c : Char} (hq : c ≠ '"') (hp : p c = false) :
    Passable p [c] := ⟨closed_singleton hq, clear_of_forall _ (by simpa using hp)⟩

theorem Passable.append {p : Char → Bool} {t u : Text} (ht : Passable p t) (hu : Passable p u) :
    Passable p (t ++ u) := by
  refine ⟨ht.1.append hu.1, (clear_append _ _ _ _).2 ⟨ht.2, ?_⟩⟩
  rw [ht.1]
  exact hu.2

/-- A text that is cut outside literals leaves two that pass. -/
theorem Passable.of_append {p : Char → Bool} {t u : Text} (h : Passable p (t ++ u))
    (ht : Closed t) : Passable p t ∧ Passable p u := by
  obtain ⟨hclosed, hclear⟩ := h
  rw [Closed, after_append, ht] at hclosed
  rw [clear_append, ht] at hclear
  exact ⟨⟨ht, hclear.1⟩, hclosed, hclear.2⟩

theorem inherited_passable {p : Char → Bool} (hp : ∀ c, isMark c = true → p c = false)
    (hopen : p '[' = false) (hclose : p ']' = false) : Inherited (Passable p) where
  nil := ⟨closed_nil, clear_nil _ _⟩
  append _ _ ht hu := ht.append hu
  mark c hc := passable_singleton (ne_of_isMark hc (by decide)) (hp c hc)
  quoted t := ⟨Quoted.closed_write t, Quoted.clear_write p t⟩
  brackets t ht :=
    ((passable_singleton (by decide) hopen).append ht).append (passable_singleton (by decide) hclose)

theorem passable_of_all {p : Char → Bool} {t : Text} (h : t.all (fun c => c != '"' && !p c) = true) :
    Passable p t := by
  have hall : ∀ c ∈ t, c ≠ '"' ∧ p c = false := fun c hc => by simpa using List.all_eq_true.1 h c hc
  exact ⟨after_of_unquoted fun c hc => (hall c hc).1, clear_of_forall _ fun c hc => (hall c hc).2⟩

theorem passable_of_forall {p : Char → Bool} {t : Text} (h : ∀ c ∈ t, c ≠ '"' ∧ p c = false) :
    Passable p t :=
  ⟨after_of_unquoted fun c hc => (h c hc).1, clear_of_forall _ fun c hc => (h c hc).2⟩

theorem Lexeme.breaks_of_not_blank {c : Char} (hblank : Text.isBlank c = false)
    (hparenthesis : isParenthesis c = false) : breaks c = false := by
  have hgap : Text.isGap c = false := by
    by_contra hg
    rw [Bool.not_eq_false] at hg
    rw [Text.isBlank_of_isGap c hg] at hblank
    cases hblank
  simp [breaks, hgap, hparenthesis]

theorem Lexeme.inherited_breaks : Inherited (Passable breaks) := by
  refine inherited_passable (fun c hc => ?_) (by decide) (by decide)
  have hopen : c ≠ '(' := ne_of_isMark hc (by decide)
  have hclose : c ≠ ')' := ne_of_isMark hc (by decide)
  exact breaks_of_not_blank (isBlank_of_isMark hc) (by simp [isParenthesis, hopen, hclose])

namespace Condition

theorem bracketBalance_append (q : QuoteState) (t u : Text) :
    bracketBalance q (t ++ u) = bracketBalance q t + bracketBalance (q.after t) u := by
  induction t generalizing q with
  | nil => simp [bracketBalance]
  | cons c t ih =>
    simp only [List.cons_append, bracketBalance, ih, after_cons]
    omega

theorem bracketBalance_of_clear {q : QuoteState} {t : Text}
    (h : q.Clear (fun c => c = '[' || c = ']') t) : bracketBalance q t = 0 := by
  induction t generalizing q with
  | nil => rfl
  | cons c t ih =>
    rw [clear_cons] at h
    have hne : q.structural c = true → c ≠ '[' ∧ c ≠ ']' := fun hs => by simpa using h.1 hs
    rw [bracketBalance, ih h.2, if_neg fun hc => (hne hc.1).1 hc.2,
      if_neg fun hc => (hne hc.1).2 hc.2]
    rfl

theorem inherited_bracketBalance :
    Inherited fun t => Closed t ∧ bracketBalance .outside t = 0 where
  nil := ⟨closed_nil, rfl⟩
  append t u ht hu := by
    refine ⟨ht.1.append hu.1, ?_⟩
    rw [bracketBalance_append, ht.1, ht.2, hu.2]
    rfl
  mark c hc := by
    have hquote : c ≠ '"' := ne_of_isMark hc (by decide)
    have hbrackets : c ≠ '[' ∧ c ≠ ']' :=
      ⟨ne_of_isMark hc (by decide), ne_of_isMark hc (by decide)⟩
    exact ⟨closed_singleton hquote,
      bracketBalance_of_clear (clear_of_forall _ (by simpa using hbrackets))⟩
  quoted t := ⟨Quoted.closed_write t, bracketBalance_of_clear (Quoted.clear_write _ t)⟩
  brackets t ht := by
    refine ⟨((closed_singleton (by decide)).append ht.1).append (closed_singleton (by decide)), ?_⟩
    have hopen : outside.next '[' = outside := rfl
    rw [List.cons_append, bracketBalance, bracketBalance_append, hopen, ht.1, ht.2]
    rfl

end Condition

end FilterQuery
