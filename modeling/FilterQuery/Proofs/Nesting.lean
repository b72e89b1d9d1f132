import FilterQuery.Proofs.Repair
set_option autoImplicit false

/-!
Reading text whose brackets match. The groups that a reader has open are the round brackets that
are open where it stands: no token but a parenthesis holds a structural one, and a load block ends
at the bracket that matches its own. So the structure of a valid text is never guessed.
-/

namespace FilterQuery

open FilterQuery.QuoteState FilterQuery.Bracket

namespace Bracket

theorem ofOpening?_eq_some_iff {c : Char} {b : Bracket} :
    ofOpening? c = some b ↔ c = b.opening := by
  by_cases hround : c = '('
  · cases b <;> simp [ofOpening?, opening, hround]
  · by_cases hsquare : c = '[' <;> cases b <;> simp [ofOpening?, opening, hround, hsquare]

theorem ofClosing?_eq_some_iff {c : Char} {b : Bracket} :
    ofClosing? c = some b ↔ c = b.closing := by
  by_cases hround : c = ')'
  · cases b <;> simp [ofClosing?, closing, hround]
  · by_cases hsquare : c = ']' <;> cases b <;> simp [ofClosing?, closing, hround, hsquare]

/-- What a character that is not refused does to the open brackets. -/
theorem step?_cases {q : QuoteState} {opened o : List Bracket} {c : Char}
    (h : step? q opened c = some o) :
    (∃ b : Bracket, q.structural c = true ∧ c = b.opening ∧ o = b :: opened) ∨
      (∃ b : Bracket, q.structural c = true ∧ c = b.closing ∧ opened = b :: o) ∨
      ((q.structural c = true → ∀ b : Bracket, c ≠ b.opening ∧ c ≠ b.closing) ∧ o = opened) := by
  unfold step? at h
  by_cases hs : q.structural c = true
  · rw [if_pos hs] at h
    cases hopen : ofOpening? c with
    | some b =>
      rw [hopen] at h
      exact .inl ⟨b, hs, ofOpening?_eq_some_iff.1 hopen, (Option.some.inj h).symm⟩
    | none =>
      rw [hopen] at h
      cases hclose : ofClosing? c with
      | some b =>
        rw [hclose] at h
        cases opened with
        | nil => cases h
        | cons d outer =>
          by_cases hd : d = b
          · simp only [hd, if_true, Option.some.injEq] at h
            exact .inr (.inl ⟨b, hs, ofClosing?_eq_some_iff.1 hclose, by rw [hd, h]⟩)
          · simp [hd] at h
      | none =>
        rw [hclose] at h
        refine .inr (.inr ⟨fun _ b => ⟨fun hb => ?_, fun hb => ?_⟩, (Option.some.inj h).symm⟩)
        · rw [ofOpening?_eq_some_iff.2 hb] at hopen
          cases hopen
        · rw [ofClosing?_eq_some_iff.2 hb] at hclose
          cases hclose
  · rw [if_neg hs] at h
    exact .inr (.inr ⟨fun hs' => absurd hs' hs, (Option.some.inj h).symm⟩)

theorem step?_of_no_bracket {q : QuoteState} {c : Char}
    (h : q.structural c = true → ∀ b : Bracket, c ≠ b.opening ∧ c ≠ b.closing)
    (opened : List Bracket) : step? q opened c = some opened := by
  unfold step?
  split
  · rename_i hs
    have hopen : ofOpening? c = none := Option.eq_none_iff_forall_ne_some.2 fun b hb =>
      (h hs b).1 (ofOpening?_eq_some_iff.1 hb)
    have hclose : ofClosing? c = none := Option.eq_none_iff_forall_ne_some.2 fun b hb =>
      (h hs b).2 (ofClosing?_eq_some_iff.1 hb)
    rw [hopen, hclose]
  · rfl

/-- Above other open brackets, a character does what it does without them, or it closes the
innermost of them. -/
theorem step?_append_cases {q : QuoteState} {inner base o : List Bracket} {c : Char}
    (h : step? q (inner ++ base) c = some o) :
    (∃ inner', step? q inner c = some inner' ∧ o = inner' ++ base) ∨
      (inner = [] ∧ ∃ b : Bracket, q.structural c = true ∧ c = b.closing ∧ base = b :: o) := by
  rcases step?_cases h with ⟨b, hs, rfl, rfl⟩ | ⟨b, hs, rfl, heq⟩ | ⟨hno, rfl⟩
  · obtain ⟨rfl, -⟩ := (structural_iff q _).1 hs
    exact .inl ⟨b :: inner, step?_opening b inner, rfl⟩
  · cases inner with
    | nil => exact .inr ⟨rfl, b, hs, rfl, heq⟩
    | cons d inner =>
      cases heq
      obtain ⟨rfl, -⟩ := (structural_iff q _).1 hs
      exact .inl ⟨inner, step?_closing b inner, rfl⟩
  · exact .inl ⟨inner, step?_of_no_bracket hno inner, rfl⟩

def groups (opened : List Bracket) : Nat := opened.count .round

theorem groups_step? {q : QuoteState} {opened o : List Bracket} {c : Char}
    (h : step? q opened c = some o) (hc : q.structural c = true → isParenthesis c = false) :
    groups o = groups opened := by
  rcases step?_cases h with ⟨b, hs, rfl, rfl⟩ | ⟨b, hs, rfl, rfl⟩ | ⟨-, rfl⟩
  · cases b with
    | round => exact absurd (hc hs) (by decide)
    | square => simp [groups]
  · cases b with
    | round => exact absurd (hc hs) (by decide)
    | square => simp [groups]
  · rfl

theorem groups_after? {q : QuoteState} {opened o : List Bracket} {t : Text}
    (h : after? q opened t = some o) (hclear : q.Clear isParenthesis t) :
    groups o = groups opened := by
  induction t generalizing q opened with
  | nil =>
    cases h
    rfl
  | cons c t ih =>
    rw [clear_cons] at hclear
    obtain ⟨o', hstep, hrest⟩ := Option.bind_eq_some_iff.1 h
    rw [ih hrest hclear.2, groups_step? hstep hclear.1]

end Bracket

/-- A text, scanned from a state, that ends outside literals and closes the open brackets. -/
structure Nested (q : QuoteState) (opened : List Bracket) (t : Text) : Prop where
  closed : q.after t = .outside
  matched : after? q opened t = some []

namespace Nested

variable {q : QuoteState} {opened : List Bracket} {t u : Text}

theorem cons {c : Char} (h : Nested q opened (c :: t)) :
    ∃ o, step? q opened c = some o ∧ Nested (q.next c) o t := by
  obtain ⟨o, hstep, hrest⟩ := Option.bind_eq_some_iff.1 h.matched
  exact ⟨o, hstep, h.closed, hrest⟩

theorem right (h : Nested q opened (t ++ u)) (ht : q.after t = .outside) :
    ∃ o, after? q opened t = some o ∧ Nested .outside o u := by
  have hclosed := h.closed
  have hmatched := h.matched
  rw [after_append, ht] at hclosed
  rw [after?_append, ht] at hmatched
  obtain ⟨o, ho, hrest⟩ := Option.bind_eq_some_iff.1 hmatched
  exact ⟨o, ho, hclosed, hrest⟩

theorem of_gap (h : Nested .outside opened t) (ht : ∀ c ∈ t, Text.isGap c = true) :
    opened = [] := by
  have hplain : ∀ c ∈ t, isDelimiter c = false := fun c hc =>
    Repair.not_delimiter_of_blank (Text.isBlank_of_isGap c (ht c hc))
  have hmatched := h.matched
  rw [after?_of_plain hplain] at hmatched
  exact Option.some.inj hmatched

end Nested

namespace Lexeme

theorem clear_spanWord (q : QuoteState) (t : Text) : q.Clear breaks (spanWord q t).1 := by
  induction t generalizing q with
  | nil => exact clear_nil _ _
  | cons c t ih =>
    rw [spanWord]
    by_cases hc : ends q c = true
    · rw [if_pos hc]
      exact clear_nil _ _
    · rw [if_neg hc, clear_cons]
      refine ⟨fun hs => ?_, ih (q.next c)⟩
      rw [ends_eq, hs, Bool.true_and] at hc
      exact Bool.eq_false_iff.2 hc

theorem atBreak_spanWord (q : QuoteState) (t : Text) : AtBreak (spanWord q t).2 := by
  induction t generalizing q with
  | nil => exact atBreak_nil
  | cons c t ih =>
    rw [spanWord]
    by_cases hc : ends q c = true
    · rw [if_pos hc]
      rw [ends_eq, Bool.and_eq_true] at hc
      exact atBreak_cons hc.2
    · rw [if_neg hc]
      exact ih (q.next c)

theorem next?_shape {t : Text} {l : Lexeme} (h : next? t = some l) :
    (∃ c, isParenthesis c = true ∧ l.text = [c]) ∨
      QuoteState.outside.Clear breaks l.text ∧ AtBreak l.rest := by
  obtain ⟨hne, rfl⟩ := eq_of_next? h
  obtain ⟨c, u, hstart⟩ := List.exists_cons_of_ne_nil hne
  simp only [hstart, spanToken]
  by_cases hc : isParenthesis c = true
  · exact .inl ⟨c, hc, by rw [if_pos hc]⟩
  · rw [if_neg hc]
    exact .inr ⟨clear_spanWord .outside (c :: u), atBreak_spanWord .outside (c :: u)⟩

theorem next?_cases {t : Text} {l : Lexeme} (h : next? t = some l) :
    l.text = ['('] ∨ l.text = [')'] ∨ QuoteState.outside.Clear breaks l.text := by
  rcases next?_shape h with ⟨c, hc, htext⟩ | ⟨hclear, -⟩
  · simp only [isParenthesis, Bool.or_eq_true, decide_eq_true_eq] at hc
    rcases hc with rfl | rfl
    · exact .inl htext
    · exact .inr (.inl htext)
  · exact .inr (.inr hclear)

theorem closed_of_next? {t : Text} {l : Lexeme} (ht : Closed t) (h : next? t = some l) :
    Closed l.gap ∧ Closed l.text := by
  have hgap := closed_gap (isGap_of_next? h)
  refine ⟨hgap, ?_⟩
  by_cases hne : l.rest = []
  · have happ := append_of_next? h
    rw [hne, List.append_nil] at happ
    rwa [← happ, Closed, after_append, hgap] at ht
  · exact closed_text_of_next? h hne

theorem closed_rest_of_next? {t : Text} {l : Lexeme} (ht : Closed t) (h : next? t = some l) :
    Closed l.rest := by
  obtain ⟨hgap, htext⟩ := closed_of_next? ht h
  rwa [Closed, ← append_of_next? h, after_append, after_append, hgap, htext] at ht

theorem next?_eq_none_of_gap {g : Text} (h : ∀ c ∈ g, Text.isGap c = true) : next? g = none := by
  have hstart : g.dropWhile Text.isGap = [] := List.dropWhile_eq_nil_iff.2 h
  simp only [next?, hstart, if_true]

variable {opened : List Bracket} {t : Text} {l : Lexeme}

theorem nested_text (h : Nested .outside opened t) (hl : next? t = some l) :
    Nested .outside opened (l.text ++ l.rest) := by
  obtain ⟨hgap, -⟩ := closed_of_next? h.closed hl
  have hplain : ∀ c ∈ l.gap, isDelimiter c = false := fun c hc =>
    Repair.not_delimiter_of_blank (Text.isBlank_of_isGap c (isGap_of_next? hl c hc))
  have hsplit : Nested .outside opened (l.gap ++ (l.text ++ l.rest)) := by
    rwa [← List.append_assoc, append_of_next? hl]
  obtain ⟨o, ho, hnested⟩ := hsplit.right hgap
  rw [after?_of_plain hplain] at ho
  cases ho
  exact hnested

theorem nested_rest (h : Nested .outside opened t) (hl : next? t = some l) :
    ∃ o, Nested .outside o l.rest ∧
      if l.isGroupOpen then groups o = groups opened + 1
      else if l.isGroupClose then groups o + 1 = groups opened
      else groups o = groups opened := by
  obtain ⟨-, hclosed⟩ := closed_of_next? h.closed hl
  obtain ⟨o, ho, hrest⟩ := (nested_text h hl).right hclosed
  refine ⟨o, hrest, ?_⟩
  rcases next?_cases hl with htext | htext | hclear
  · rw [htext] at ho
    cases ho
    simp [isGroupOpen, htext, groups]
  · rw [htext] at ho
    obtain ⟨o', hstep, hnil⟩ := Option.bind_eq_some_iff.1 ho
    cases hnil
    rcases step?_cases hstep with ⟨b, -, hb, -⟩ | ⟨b, -, hb, rfl⟩ | ⟨hno, -⟩
    · cases b <;> cases hb
    · cases b with
      | round => simp [isGroupOpen, isGroupClose, htext, groups]
      | square => cases hb
    · exact absurd rfl (hno rfl .round).2
  · have hopen : l.isGroupOpen = false := by
      rw [isGroupOpen, beq_eq_false_iff_ne]
      intro htext
      exact absurd (breaks_head_of_clear (htext ▸ hclear)) (by decide)
    have hclose : l.isGroupClose = false := by
      rw [isGroupClose, beq_eq_false_iff_ne]
      intro htext
      exact absurd (breaks_head_of_clear (htext ▸ hclear)) (by decide)
    rw [hopen, hclose, if_neg Bool.false_ne_true, if_neg Bool.false_ne_true]
    refine groups_after? ho (hclear.mono fun c hc => ?_)
    rw [breaks, hc, Bool.or_true]

end Lexeme

namespace LoadSection

/-- While the brackets inside a block are not all closed, its cut goes on, and counts the square
ones. -/
theorem cutBlock_cons_of_step? {q : QuoteState} {inner o : List Bracket} {c : Char}
    (h : step? q inner c = some o) (t : Text) :
    cutBlock q (inner.count .square + 1) (c :: t) =
      (cutBlock (q.next c) (o.count .square + 1) t).map fun (body, rest) => (c :: body, rest) := by
  rcases step?_cases h with ⟨b, hs, rfl, rfl⟩ | ⟨b, hs, rfl, rfl⟩ | ⟨hno, rfl⟩
  · cases b with
    | round => simp [cutBlock, bracketNesting, opening]
    | square =>
      have hend : Bracket.square.opening ≠ ']' := by decide
      rw [cutBlock, bracketNesting, if_neg fun hc => hend hc.2.1, if_pos ⟨hs, rfl⟩,
        List.count_cons_self]
  · cases b with
    | round => simp [cutBlock, bracketNesting, closing]
    | square =>
      have hopen : Bracket.square.closing ≠ '[' := by decide
      rw [cutBlock, bracketNesting, List.count_cons_self, if_neg (by omega),
        if_neg fun hc => hopen hc.2, if_pos ⟨hs, rfl⟩, Nat.add_sub_cancel]
  · rw [cutBlock, bracketNesting, if_neg fun hc => (hno hc.1 .square).2 hc.2.1,
      if_neg fun hc => (hno hc.1 .square).1 hc.2, if_neg fun hc => (hno hc.1 .square).2 hc.2]

/-- The bracket that matches the one of a block is the one the block is cut at. -/
theorem cutBlock_of_nested {q : QuoteState} (inner : List Bracket) {opened : List Bracket}
    {t : Text} (h : Nested q (inner ++ .square :: opened) t) :
    ∃ body rest, cutBlock q (inner.count .square + 1) t = some (body, rest) ∧
      Nested .outside opened rest := by
  -- the brackets opened inside the block are `inner`, of which the cut counts the square ones
  induction t generalizing q inner with
  | nil => exact absurd (Option.some.inj h.matched) (by simp)
  | cons c t ih =>
    obtain ⟨o, hstep, hrest⟩ := h.cons
    rcases step?_append_cases hstep with ⟨inner', hinner, rfl⟩ | ⟨rfl, b, hs, rfl, hblock⟩
    · obtain ⟨body, rest, hcut, hnested⟩ := ih inner' hrest
      exact ⟨c :: body, rest, by rw [cutBlock_cons_of_step? hinner, hcut]; rfl, hnested⟩
    · cases hblock
      obtain ⟨rfl, hquote⟩ := (structural_iff q _).1 hs
      rw [next_outside hquote] at hrest
      exact ⟨[], t, rfl, hrest⟩

end LoadSection

namespace Condition

variable {opened : List Bracket} {rest : Text}

theorem nested_gatherList (h : Nested .outside opened rest) (taken : Text) :
    ∃ o, Nested .outside o (gatherList taken rest).2 ∧ groups o = groups opened := by
  fun_induction gatherList taken rest generalizing opened with
  | case1 => exact ⟨opened, h, rfl⟩
  | case2 => exact ⟨opened, h, rfl⟩
  | case3 taken rest _ l hl hword _ ih =>
    simp only [Bool.or_eq_true, not_or, Bool.not_eq_true] at hword
    obtain ⟨o, ho, hgroups⟩ := Lexeme.nested_rest h hl
    rw [hword.1, hword.2, if_neg Bool.false_ne_true, if_neg Bool.false_ne_true] at hgroups
    obtain ⟨o', ho', hgroups'⟩ := ih ho
    exact ⟨o', ho', hgroups'.trans hgroups⟩
  | case4 => exact ⟨opened, h, rfl⟩

theorem nested_operand (h : Nested .outside opened rest) (p : Operator) (taken : Text) :
    ∃ o, Nested .outside o (operand p taken rest).2 ∧ groups o = groups opened := by
  unfold operand
  split
  · exact nested_gatherList h taken
  · exact ⟨opened, h, rfl⟩

def depthBehind (l : Lexeme) (depth : Nat) : Nat :=
  if l.isGroupOpen then depth + 1 else if l.isGroupClose then depth - 1 else depth

/-- A text that closes the open parentheses of an operand does so behind each of its tokens. -/
theorem nested_depthBehind {depth : Nat} (h : Nested .outside opened rest) (hpos : 0 < depth)
    (hdepth : depth ≤ groups opened) {l : Lexeme} (hl : Lexeme.next? rest = some l) :
    ∃ o, Nested .outside o l.rest ∧ groups o + depth = groups opened + depthBehind l depth ∧
      depthBehind l depth ≤ groups o := by
  obtain ⟨o, ho, hgroups⟩ := Lexeme.nested_rest h hl
  refine ⟨o, ho, ?_⟩
  unfold depthBehind
  split
  · rw [if_pos ‹_›] at hgroups
    omega
  · rw [if_neg ‹_›] at hgroups
    split
    · rw [if_pos ‹_›] at hgroups
      omega
    · rw [if_neg ‹_›] at hgroups
      omega

theorem exists_next?_of_open {depth : Nat} (h : Nested .outside opened rest) (hpos : 0 < depth)
    (hdepth : depth ≤ groups opened) : ∃ l, Lexeme.next? rest = some l := by
  refine Option.ne_none_iff_exists'.1 fun hnone => ?_
  rw [h.of_gap (Lexeme.isGap_of_next?_eq_none hnone)] at hdepth
  exact absurd (Nat.lt_of_lt_of_le hpos hdepth) (Nat.lt_irrefl 0)

theorem gatherGroup_next {l : Lexeme} (h : Lexeme.next? rest = some l) (depth : Nat)
    (taken : Text) :
    gatherGroup depth taken rest =
      if depthBehind l depth = 0 then (taken ++ l.gap ++ l.text, l.rest)
      else gatherGroup (depthBehind l depth) (taken ++ l.gap ++ l.text) l.rest := by
  rw [gatherGroup]
  split
  · rename_i hnone
    rw [h] at hnone
    cases hnone
  · rename_i k hk
    rw [h] at hk
    cases hk
    rfl

/-- The open parentheses of an operand are closed in a text that closes at least as many. -/
theorem nested_gatherGroup {depth : Nat} (h : Nested .outside opened rest) (hpos : 0 < depth)
    (hdepth : depth ≤ groups opened) (taken : Text) :
    ∃ o, Nested .outside o (gatherGroup depth taken rest).2 ∧
      groups o + depth = groups opened := by
  induction hlength : rest.length using Nat.strongRecOn generalizing opened depth taken rest with
  | ind n ih =>
    obtain ⟨l, hl⟩ := exists_next?_of_open h hpos hdepth
    obtain ⟨o, ho, hgroups, hle⟩ := nested_depthBehind h hpos hdepth hl
    rw [gatherGroup_next hl]
    by_cases hzero : depthBehind l depth = 0
    · rw [if_pos hzero]
      exact ⟨o, ho, by omega⟩
    · rw [if_neg hzero]
      obtain ⟨o', ho', hgroups'⟩ := ih _ (hlength ▸ Lexeme.length_rest_lt hl) ho
        (Nat.pos_of_ne_zero hzero) hle _ rfl
      exact ⟨o', ho', by omega⟩

theorem nested_operandBehind {p : Operator} {taken left : Text} (h : Nested .outside opened rest)
    (ht : operandBehind p rest = some (taken, left)) :
    ∃ o, Nested .outside o left ∧ groups o = groups opened := by
  unfold operandBehind at ht
  split at ht
  · cases ht
  · rename_i l hl
    obtain ⟨o, ho, hgroups⟩ := Lexeme.nested_rest h hl
    split at ht
    · rename_i hopen
      rw [if_pos hopen] at hgroups
      split at ht
      · obtain ⟨o', ho', hgroups'⟩ :=
          nested_gatherGroup ho Nat.one_pos (by omega) l.text
        rw [Option.some.inj ht] at ho'
        exact ⟨o', ho', by omega⟩
      · cases ht
    · rename_i hopen
      rw [if_neg hopen] at hgroups
      split at ht
      · cases ht
      · rename_i hword
        simp only [Bool.or_eq_true, not_or] at hword
        rw [if_neg hword.1] at hgroups
        obtain ⟨o', ho', hgroups'⟩ := nested_operand ho p l.text
        rw [Option.some.inj ht] at ho'
        exact ⟨o', ho', hgroups'.trans hgroups⟩

theorem nested_readAt [Regex.Engine] (h : Nested .outside opened rest) (p : Operator)
    (before after : Text) :
    ∃ o, Nested .outside o (readAt p before after rest).2 ∧ groups o = groups opened := by
  unfold readAt
  split
  · exact ⟨opened, h, rfl⟩
  · split
    · exact ⟨opened, h, rfl⟩
    · split
      · exact nested_operand h p after
      · split
        · exact ⟨opened, h, rfl⟩
        · rename_i hbehind
          exact nested_operandBehind h hbehind

theorem groups_leading {l : Lexeme} {p : Operator} {after : Text}
    (h : Operator.leadingSplit? l.text = some (p, after)) :
    l.isGroupOpen = false ∧ l.isGroupClose = false := by
  constructor
  all_goals
    refine beq_eq_false_iff_ne.2 fun htext => ?_
    rw [htext] at h
    cases h

theorem nested_read [Regex.Engine] (h : Nested .outside opened rest) (token : Text) :
    ∃ o, Nested .outside o (read token rest).2 ∧ groups o = groups opened := by
  unfold read
  split
  · exact nested_readAt h ..
  · split
    · exact ⟨opened, h, rfl⟩
    · rename_i l hl
      split
      · rename_i p after hp
        obtain ⟨o, ho, hgroups⟩ := Lexeme.nested_rest h hl
        obtain ⟨hopen, hclose⟩ := groups_leading hp
        rw [hopen, hclose, if_neg Bool.false_ne_true, if_neg Bool.false_ne_true] at hgroups
        obtain ⟨o', ho', hgroups'⟩ := nested_readAt ho p token after
        exact ⟨o', ho', hgroups'.trans hgroups⟩
      · exact ⟨opened, h, rfl⟩

end Condition

inductive Start where
  | openGroup
  | closeGroup
  | keyword (k : Keyword)
  | load (body : Text)
  | sort (body : Text)
  | page (body : Text)
  | comparison
  deriving DecidableEq

def Start.ofText (t : Text) : Start :=
  if t = ['('] then .openGroup
  else if t = [')'] then .closeGroup
  else
    match Keyword.ofText? t with
    | some k => .keyword k
    | none =>
      match loadMark.isPrefixOf? t with
      | some body => .load body
      | none =>
        match sortMark.isPrefixOf? t with
        | some body => .sort body
        | none =>
          match pageMark.isPrefixOf? t with
          | some body => .page body
          | none => .comparison

namespace Start

theorem isGroupOpen_iff {l : Lexeme} : l.isGroupOpen = true ↔ ofText l.text = .openGroup := by
  rw [Lexeme.isGroupOpen, beq_iff_eq]
  refine ⟨fun h => h ▸ rfl, fun h => ?_⟩
  unfold ofText at h
  repeat' split at h
  all_goals first | assumption | cases h

theorem isGroupClose_iff {l : Lexeme} : l.isGroupClose = true ↔ ofText l.text = .closeGroup := by
  rw [Lexeme.isGroupClose, beq_iff_eq]
  refine ⟨fun h => h ▸ rfl, fun h => ?_⟩
  unfold ofText at h
  repeat' split at h
  all_goals first | assumption | cases h

theorem isPrefixOf?_of_load {t body : Text} (h : ofText t = .load body) :
    loadMark.isPrefixOf? t = some body := by
  unfold ofText at h
  repeat' split at h
  all_goals cases h
  assumption

end Start

namespace Outline

def begin [Regex.Engine] (o : Outline) (token rest : Text) : Start → Outline × Text
  | .openGroup => (o.openGroup, rest)
  | .closeGroup => (o.closeGroup, rest)
  | .keyword k => (o.add (.word k), rest)
  | .load body => o.load (body ++ rest)
  | .sort body => ({ o with sort := o.sort ++ readSort body }, rest)
  | .page body => ({ o with page := applyPage o.page body }, rest)
  | .comparison =>
    match Condition.read token rest with
    | (some e, rest) => (o.add (.leaf e), rest)
    | (none, rest) => (o, rest)

theorem step_eq_begin [Regex.Engine] (o : Outline) (l : Lexeme) :
    o.step l = o.begin l.text l.rest (Start.ofText l.text) := by
  simp only [step, Start.ofText, Lexeme.isGroupOpen, Lexeme.isGroupClose, beq_iff_eq]
  by_cases hopen : l.text = ['(']
  · simp only [hopen, if_true, begin]
  · by_cases hclose : l.text = [')']
    · simp only [hclose, if_true]
      rfl
    · simp only [hopen, hclose, if_false]
      cases Keyword.ofText? l.text with
      | some k => rfl
      | none =>
        cases loadMark.isPrefixOf? l.text with
        | some body => rfl
        | none =>
          cases sortMark.isPrefixOf? l.text with
          | some body => rfl
          | none => cases pageMark.isPrefixOf? l.text <;> rfl

/-- An outline in step with the text that is still to be read: it has one group open for each round
bracket that is open, and a number of others that the text does not close. -/
structure InStep (base : Nat) (o : Outline) (opened : List Bracket) (t : Text) : Prop where
  nested : Nested .outside opened t
  counted : groups opened + base = o.outer.length

variable {base : Nat} {o : Outline} {opened : List Bracket} {t : Text} {l : Lexeme}

/-- A load block is cut where its own bracket is closed, and leaves the groups as they are. -/
theorem InStep.cut (h : InStep base o opened t) (hl : Lexeme.next? t = some l) {body : Text}
    (hmark : loadMark.isPrefixOf? l.text = some body) :
    ∃ block rest, LoadSection.cut (body ++ l.rest) = some (block, rest) ∧
      Nested .outside opened rest := by
  have hnested := Lexeme.nested_text h.nested hl
  rw [← Text.append_of_isPrefixOf? hmark, List.append_assoc] at hnested
  obtain ⟨o, ho, hbody⟩ := hnested.right rfl
  cases ho
  exact LoadSection.cutBlock_of_nested [] hbody

theorem InStep.step [Regex.Engine] (h : InStep base o opened t) (hl : Lexeme.next? t = some l) :
    ∃ opened', InStep base (o.step l).1 opened' (o.step l).2 ∧ (o.step l).1.lapses = o.lapses := by
  obtain ⟨opened', hrest, hgroups⟩ := Lexeme.nested_rest h.nested hl
  have hlength := h.counted
  simp only [Start.isGroupOpen_iff, Start.isGroupClose_iff] at hgroups
  rw [step_eq_begin]
  cases hstart : Start.ofText l.text <;>
    simp only [hstart, if_true, if_false, reduceCtorEq] at hgroups
  case openGroup =>
    refine ⟨opened', ⟨hrest, ?_⟩, rfl⟩
    simp only [begin, openGroup, List.length_cons]
    omega
  case closeGroup =>
    simp only [begin, closeGroup]
    cases houter : o.outer with
    | nil =>
      rw [houter, List.length_nil] at hlength
      omega
    | cons ns outer =>
      refine ⟨opened', ⟨hrest, ?_⟩, rfl⟩
      simp only [houter, List.length_cons] at hlength ⊢
      omega
  case load body =>
    obtain ⟨block, rest, hcut, hnested⟩ := h.cut hl (Start.isPrefixOf?_of_load hstart)
    simp only [begin, load]
    rw [hcut]
    exact ⟨opened, ⟨hnested, hlength⟩, rfl⟩
  case comparison =>
    obtain ⟨opened'', hread, hgroups'⟩ := Condition.nested_read hrest l.text
    have hcounted : groups opened'' + base = o.outer.length := by omega
    simp only [begin]
    split
    all_goals
      rename_i hcondition
      rw [hcondition] at hread
      exact ⟨opened'', ⟨hread, hcounted⟩, rfl⟩
  all_goals exact ⟨opened', ⟨hrest, by rw [hgroups]; exact hlength⟩, rfl⟩

/-- A reading in step closes every group of the text and none besides. -/
theorem InStep.readFrom [Regex.Engine] (h : InStep base o opened t) :
    (o.readFrom t).outer.length = base ∧ (o.readFrom t).lapses = o.lapses := by
  fun_induction Outline.readFrom o t generalizing opened with
  | case1 o t hnone =>
    have hlength := h.counted
    rw [h.nested.of_gap (Lexeme.isGap_of_next?_eq_none hnone)] at hlength
    exact ⟨by rw [← hlength]; exact Nat.zero_add base, rfl⟩
  | case2 o t l hl _ ih =>
    obtain ⟨opened', hstep, hlapses⟩ := h.step hl
    exact hlapses ▸ ih hstep

theorem inStep_empty (h : Balanced t) : InStep 0 empty [] t := ⟨⟨h.1, h.2⟩, rfl⟩

theorem outer_read [Regex.Engine] (h : Balanced t) : (read t).outer = [] :=
  List.length_eq_zero_iff.1 (inStep_empty h).readFrom.1

/-- Text that the check accepts is read as it stands: every group it closes was opened and is
closed, and so is every load block. -/
theorem read_of_isValid [Regex.Engine] {t : Text} (h : Diagnosis.isValid t = true) :
    (read t).outer = [] ∧ (read t).lapses = [] := by
  have hbalanced := ((Diagnosis.isValid_iff t).1 h).1
  exact ⟨outer_read hbalanced, (inStep_empty hbalanced).readFrom.2⟩

/-- Parentheses and brackets in literals, lists, operands and load blocks. -/
theorem read_of_isValid_mixed :
    letI := Regex.Engine.words
    Diagnosis.isValid "(a<in>[1, \")]\"] or b <in> (2, (3))) load=[r:(x=\"(\")|s]".toList = true ∧
      (read "(a<in>[1, \")]\"] or b <in> (2, (3))) load=[r:(x=\"(\")|s]".toList).outer = [] ∧
      (read "(a<in>[1, \")]\"] or b <in> (2, (3))) load=[r:(x=\"(\")|s]".toList).lapses = [] := by
  let engine := Regex.Engine.words
  have hvalid : Diagnosis.isValid
      "(a<in>[1, \")]\"] or b <in> (2, (3))) load=[r:(x=\"(\")|s]".toList = true := by
    decide +kernel
  exact ⟨hvalid, read_of_isValid hvalid⟩

end Outline

end FilterQuery
