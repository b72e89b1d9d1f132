import FilterQuery.Text.Quoted
set_option autoImplicit false

/-!
What a scan sees of a text. `QuoteState.Clear p q t` says that no structural character of `t`,
scanned from `q`, passes `p`. A written literal shows nothing at all, leaves the scan outside, and
reads back as its content.
-/

namespace FilterQuery

namespace QuoteState

@[simp] theorem marks_nil (q : QuoteState) : q.marks [] = [] := rfl

@[simp] theorem marks_cons (q : QuoteState) (c : Char) (t : Text) :
    q.marks (c :: t) = (c, q.structural c) :: (q.next c).marks t := rfl

@[simp] theorem marks_append (q : QuoteState) (t u : Text) :
    q.marks (t ++ u) = q.marks t ++ (q.after t).marks u := by
  induction t generalizing q with
  | nil => rfl
  | cons c t ih => simp [ih]

/-- No structural character of the text passes the test. -/
def Clear (p : Char → Bool) (q : QuoteState) (t : Text) : Prop :=
  ∀ m ∈ q.marks t, m.2 = true → p m.1 = false

@[simp] theorem clear_nil (p : Char → Bool) (q : QuoteState) : q.Clear p [] := by simp [Clear]

@[simp] theorem clear_cons (p : Char → Bool) (q : QuoteState) (c : Char) (t : Text) :
    q.Clear p (c :: t) ↔ (q.structural c = true → p c = false) ∧ (q.next c).Clear p t := by
  simp [Clear]

@[simp] theorem clear_append (p : Char → Bool) (q : QuoteState) (t u : Text) :
    q.Clear p (t ++ u) ↔ q.Clear p t ∧ (q.after t).Clear p u := by
  simp only [Clear, marks_append, List.mem_append]
  constructor
  · intro h
    exact ⟨fun m hm => h m (.inl hm), fun m hm => h m (.inr hm)⟩
  · rintro ⟨ht, hu⟩ m (hm | hm)
    · exact ht m hm
    · exact hu m hm

theorem clear_of_forall {p : Char → Bool} {t : Text} (q : QuoteState)
    (h : ∀ c ∈ t, p c = false) : q.Clear p t := by
  induction t generalizing q with
  | nil => simp
  | cons c t ih =>
    simp only [List.mem_cons, forall_eq_or_imp] at h
    simp [h.1, ih _ h.2]

theorem Clear.mono {p r : Char → Bool} {q : QuoteState} {t : Text} (h : q.Clear p t)
    (hr : ∀ c, r c = true → p c = true) : q.Clear r t := by
  intro m hm hs
  have hp := h m hm hs
  cases hc : r m.1 with
  | false => rfl
  | true => simp [hr _ hc] at hp

theorem structural_iff (q : QuoteState) (c : Char) :
    q.structural c = true ↔ q = .outside ∧ c ≠ '"' := by simp [structural]

theorem structural_outside {c : Char} (h : c ≠ '"') : outside.structural c = true :=
  (structural_iff _ _).2 ⟨rfl, h⟩

theorem next_outside {c : Char} (h : c ≠ '"') : outside.next c = outside := by simp [next, h]

theorem after_of_unquoted {t : Text} (h : ∀ c ∈ t, c ≠ '"') : outside.after t = outside := by
  induction t with
  | nil => rfl
  | cons c t ih =>
    simp only [List.mem_cons, forall_eq_or_imp] at h
    simp [next_outside h.1, ih h.2]

def Closed (t : Text) : Prop := outside.after t = outside

@[simp] theorem closed_nil : Closed [] := rfl

theorem Closed.append {t u : Text} (ht : Closed t) (hu : Closed u) : Closed (t ++ u) := by
  rw [Closed, after_append, ht, hu]

theorem closed_singleton {c : Char} (h : c ≠ '"') : Closed [c] := by simp [Closed, next_outside h]

end QuoteState

/-- A pattern is searched for behind a text in which its first character is not structural. -/
theorem findUnquoted_append_of_clear {p : Char → Bool} {q : QuoteState} {t : Text}
    (h : q.Clear p t) {d : Char} (hd : p d = true) (pattern u : Text) :
    findUnquoted (d :: pattern) q (t ++ u) =
      (findUnquoted (d :: pattern) (q.after t) u).map fun (before, rest) => (t ++ before, rest) := by
  induction t generalizing q with
  | nil => simp
  | cons c t ih =>
    rw [QuoteState.clear_cons] at h
    have hstarts : (if q.structural c then (d :: pattern).isPrefixOf? (c :: (t ++ u)) else none) =
        none := by
      by_cases hs : q.structural c = true
      · have hne : d ≠ c := by
          rintro rfl
          rw [h.1 hs] at hd
          cases hd
        simp only [Text.isPrefixOf?_of_ne hne, ite_self]
      · simp [hs]
    rw [List.cons_append, findUnquoted, hstarts]
    simp [ih h.2, Function.comp_def]

namespace Quoted

theorem after_writeChar (c : Char) : QuoteState.inside.after (writeChar c) = .inside := by
  unfold writeChar
  split
  · rename_i h
    rcases h with h | h <;> subst h <;> rfl
  · split
    · rfl
    · split
      · rfl
      · split
        · rfl
        · simp_all [QuoteState.next]

theorem clear_writeChar (p : Char → Bool) (c : Char) : QuoteState.inside.Clear p (writeChar c) := by
  unfold writeChar
  split
  · rename_i h
    rcases h with h | h <;> subst h <;> simp [QuoteState.next, QuoteState.structural]
  · repeat' split
    all_goals simp [QuoteState.next, QuoteState.structural]

theorem after_body (t : Text) : QuoteState.inside.after (t.flatMap writeChar) = .inside := by
  induction t with
  | nil => rfl
  | cons c t ih => rw [List.flatMap_cons, QuoteState.after_append, after_writeChar, ih]

theorem clear_body (p : Char → Bool) (t : Text) :
    QuoteState.inside.Clear p (t.flatMap writeChar) := by
  induction t with
  | nil => simp
  | cons c t ih =>
    rw [List.flatMap_cons, QuoteState.clear_append, after_writeChar]
    exact ⟨clear_writeChar p c, ih⟩

theorem closed_write (t : Text) : QuoteState.Closed (write t) := by
  simp [write, QuoteState.Closed, QuoteState.next, after_body]

theorem clear_write (p : Char → Bool) (t : Text) : QuoteState.outside.Clear p (write t) := by
  simp [write, QuoteState.next, QuoteState.structural, after_body, clear_body]

theorem readBody_writeChar (c : Char) (t : Text) :
    readBody (writeChar c ++ t) = (readBody t).map fun (body, rest) => (c :: body, rest) := by
  unfold writeChar
  split
  · rename_i h
    rcases h with h | h <;> subst h <;> simp [readBody, escapeLetter?]
  · rename_i h
    split
    · rename_i hc
      subst hc
      simp [readBody, escapeLetter?]
    · split
      · rename_i hc
        subst hc
        simp [readBody, escapeLetter?]
      · split
        · rename_i hc
          subst hc
          simp [readBody, escapeLetter?]
        · simp only [not_or] at h
          simp [readBody, h.1, h.2]

theorem readBody_body (t rest : Text) :
    readBody (t.flatMap writeChar ++ '"' :: rest) = some (t, rest) := by
  induction t with
  | nil => simp [readBody]
  | cons c t ih => rw [List.flatMap_cons, List.append_assoc, readBody_writeChar, ih]; rfl

theorem readFront_write (t rest : Text) : readFront (write t ++ rest) = some (t, rest) := by
  simp [write, readFront, readBody_body]

theorem read_write (t : Text) : read (write t) = some t := by
  have hfront := readFront_write t []
  rw [List.append_nil] at hfront
  have htrim : Text.trimStart (write t) = write t := by
    simp [Text.trimStart, write, show Text.isBlank '"' = false by decide]
  simp [read, htrim, hfront]

theorem length_readBody {t body rest : Text} (h : readBody t = some (body, rest)) :
    body.length + rest.length < t.length := by
  fun_induction readBody t generalizing body <;> simp_all <;> grind

theorem length_read {t body : Text} (h : read t = some body) : body.length < t.length := by
  have hstart := (List.dropWhile_suffix Text.isBlank (l := t)).length_le
  rw [read] at h
  split at h
  · rename_i b rest hfront
    split at h
    · cases h
      unfold readFront at hfront
      split at hfront
      · rename_i u heq
        have hbody := length_readBody hfront
        rw [← Text.trimStart, heq, List.length_cons] at hstart
        omega
      · cases hfront
    · cases h
  · cases h

end Quoted

end FilterQuery
