import FilterQuery.Diagnosis
set_option autoImplicit false

/-!
Mending faulty filter text: an open literal is closed, operators without operand are cut off at
either end, brackets that close nothing are dropped and those that are not closed are closed at
the end. Text without faults stays as it is.
-/

namespace FilterQuery

namespace Repair

/-- Closes a literal that is still open; a backslash that escapes nothing goes. -/
def closeLiteral (t : Text) : Text :=
  match QuoteState.outside.after t with
  | .outside => t
  | .inside => t ++ ['"']
  | .escaped => t.dropLast ++ ['"']

theorem length_trimEnd_le (t : Text) : (Text.trimEnd t).length ≤ t.length := by
  simpa [Text.trimEnd] using
    (List.dropWhile_suffix Text.isBlank (l := t.reverse)).length_le

def beforeLast (clauses : List Lexeme) : Text :=
  clauses.dropLast.flatMap fun l => l.gap ++ l.text

theorem length_clauses_le (t : Text) :
    ((Lexeme.clauses t).flatMap fun l => l.gap ++ l.text).length ≤ t.length := by
  fun_induction Lexeme.clauses t with
  | case1 => simp
  | case2 t l h _ ih =>
    have happ := congrArg List.length (Lexeme.append_of_nextClause? h)
    simp only [List.flatMap_cons, List.length_append] at happ ih ⊢
    omega

theorem clauses_text_ne_nil (t : Text) : ∀ l ∈ Lexeme.clauses t, l.text ≠ [] := by
  fun_induction Lexeme.clauses t with
  | case1 => simp
  | case2 t l h _ ih => simpa using ⟨Lexeme.nextClause?_text_ne_nil h, ih⟩

theorem length_beforeLast_lt {t : Text} (h : Lexeme.clauses t ≠ []) :
    (beforeLast (Lexeme.clauses t)).length < t.length := by
  have hle := length_clauses_le t
  have hne := clauses_text_ne_nil t _ (List.getLast_mem h)
  have hsplit := List.dropLast_concat_getLast h
  have hpos := List.length_pos_iff.2 hne
  rw [← hsplit] at hle
  simp only [List.flatMap_append, List.flatMap_cons, List.flatMap_nil, List.append_nil,
    List.length_append] at hle
  rw [beforeLast]
  omega

def stripOperators (t : Text) : Text :=
  match h : Lexeme.nextClause? t with
  | none => t
  | some l =>
    if (Lexeme.leadingFault? (Lexeme.clauses t)).isSome then
      have : (Text.trimStart l.rest).length < t.length :=
        Nat.lt_of_le_of_lt (Literal.length_trimStart_le l.rest)
          (Lexeme.length_nextClause?_rest_lt h)
      stripOperators (Text.trimStart l.rest)
    else if ((Lexeme.clauses t).getLast?.bind Lexeme.trailingSymbol?).isSome then
      have : (Text.trimEnd (beforeLast (Lexeme.clauses t))).length < t.length :=
        Nat.lt_of_le_of_lt (length_trimEnd_le _)
          (length_beforeLast_lt (by rw [Lexeme.clauses.eq_def]; split <;> simp_all))
      stripOperators (Text.trimEnd (beforeLast (Lexeme.clauses t)))
    else t
termination_by t.length

def balance (q : QuoteState) (opened : List Bracket) : Text → Text
  | [] => opened.map Bracket.closing
  | c :: t =>
    let next := fun opened' => balance (q.next c) opened' t
    if q.structural c then
      match Bracket.ofOpening? c, Bracket.ofClosing? c with
      | some b, _ => c :: next (b :: opened)
      | none, none => c :: next opened
      | none, some b =>
        match opened with
        | [] => next opened
        | o :: outer => if o = b then c :: next outer else next opened
    else c :: next opened

def pass (t : Text) : Text := balance .outside [] (stripOperators (closeLiteral t))

/-- Runs at most this many passes, up to the first that changes nothing. -/
def run : Nat → Text → Text
  | 0, t => t
  | n + 1, t =>
    let next := pass t
    if next = t then t else run n next

/-- Far more passes than a text needs. -/
def mostPasses : Nat := 64

end Repair

def Text.repair (t : Text) : Text := if Diagnosis.isValid t then t else Repair.run Repair.mostPasses t

def Text.repairChecked (t : Text) : Except RepairFailure Text :=
  match Diagnosis.first? (Text.repair t) with
  | none => .ok (Text.repair t)
  | some p => .error ⟨t, Text.repair t, p⟩

end FilterQuery
