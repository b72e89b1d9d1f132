import FilterQuery.Proofs.Location
import FilterQuery.Proofs.Nesting
set_option autoImplicit false

/-!
The grammar of valid text. Literals are closed, brackets outside them are properly nested, and the
tokens at either end, a load block being one of them, want no operand. The check, which scans with a
stack that is never cut back at a mismatch, accepts this grammar and nothing else.
-/

namespace FilterQuery

open FilterQuery.QuoteState FilterQuery.Bracket

/-- What stands between the marks of a literal: a backslash takes the character behind it. -/
inductive LiteralBody : Text → Prop where
  | nil : LiteralBody []
  | plain {c : Char} {t : Text} : c ≠ '"' → c ≠ '\\' → LiteralBody t → LiteralBody (c :: t)
  | escape (c : Char) {t : Text} : LiteralBody t → LiteralBody ('\\' :: c :: t)

/-- A text in which literals are closed and the brackets outside them are properly nested. -/
inductive WellBracketed : Text → Prop where
  | nil : WellBracketed []
  | plain {c : Char} {t : Text} : isDelimiter c = false → WellBracketed t → WellBracketed (c :: t)
  | literal {body t : Text} : LiteralBody body → WellBracketed t →
      WellBracketed ('"' :: (body ++ '"' :: t))
  | enclosed (b : Bracket) {t u : Text} : WellBracketed t → WellBracketed u →
      WellBracketed (b.opening :: (t ++ b.closing :: u))

namespace QuoteState

theorem next_inside {c : Char} (hquote : c ≠ '"') (hslash : c ≠ '\\') :
    inside.next c = inside := by simp [next, hquote, hslash]

end QuoteState

namespace Bracket

theorem step?_unquoted {q : QuoteState} (hq : q ≠ .outside) (opened : List Bracket) (c : Char) :
    step? q opened c = some opened := by
  rw [step?, if_neg fun hs => hq ((structural_iff q c).1 hs).1]

theorem next_opening (b : Bracket) : outside.next b.opening = outside := by
  cases b <;> rfl

end Bracket

theorem LiteralBody.scan {body : Text} (h : LiteralBody body) (opened : List Bracket) :
    inside.after body = inside ∧ after? .inside opened body = some opened := by
  induction h with
  | nil => exact ⟨rfl, rfl⟩
  | @plain c t hquote hslash _ ih =>
    rw [after_cons, after?, step?_unquoted (by decide), next_inside hquote hslash]
    exact ih
  | @escape c t _ ih =>
    rw [after_cons, after_cons, after?, step?_unquoted (by decide), Option.bind_some, after?,
      step?_unquoted (by decide)]
    exact ih

/-- From inside a literal, a scan that ends outside passes its closing mark. -/
theorem exists_literalBody : ∀ {t : Text}, inside.after t = outside →
    ∃ body rest, t = body ++ '"' :: rest ∧ LiteralBody body
  | [], h => by cases h
  | c :: t, h => by
    by_cases hquote : c = '"'
    · subst hquote
      exact ⟨[], t, rfl, .nil⟩
    · by_cases hslash : c = '\\'
      · subst hslash
        cases t with
        | nil => cases h
        | cons d t =>
          obtain ⟨body, rest, happ, hbody⟩ := exists_literalBody (t := t) h
          exact ⟨'\\' :: d :: body, rest, by rw [happ]; rfl, .escape d hbody⟩
      · rw [after_cons, next_inside hquote hslash] at h
        obtain ⟨body, rest, happ, hbody⟩ := exists_literalBody h
        exact ⟨c :: body, rest, by rw [happ]; rfl, .plain hquote hslash hbody⟩

theorem LiteralBody.scan_literal {body : Text} (h : LiteralBody body) (opened : List Bracket)
    (t : Text) :
    outside.after ('"' :: (body ++ '"' :: t)) = outside.after t ∧
      after? .outside opened ('"' :: (body ++ '"' :: t)) = after? .outside opened t := by
  obtain ⟨hafter, hopened⟩ := h.scan opened
  have hmark : outside.next '"' = inside := rfl
  have hstep : step? .outside opened '"' = some opened := by simp [step?, structural]
  rw [after_cons, after?, hmark, after_append, hafter, hstep, Option.bind_some, after?_append,
    hopened, hafter, Option.bind_some, after?, step?_unquoted (by decide), Option.bind_some]
  exact ⟨rfl, rfl⟩

theorem WellBracketed.scan {t : Text} (h : WellBracketed t) (opened : List Bracket) :
    Closed t ∧ after? .outside opened t = some opened := by
  induction h generalizing opened with
  | nil => exact ⟨rfl, rfl⟩
  | @plain c t hc _ ih =>
    have hquote : c ≠ '"' := by
      rintro rfl
      exact absurd hc (by decide)
    rw [Closed, after_cons, after?, step?_of_plain hc, next_outside hquote]
    exact ih opened
  | @literal body t hbody _ ih =>
    rw [Closed, (hbody.scan_literal opened t).1, (hbody.scan_literal opened t).2]
    exact ih opened
  | @enclosed b t u _ _ iht ihu =>
    obtain ⟨hclosed, hopened⟩ := iht (b :: opened)
    rw [Closed, after_cons, after?, step?_opening, next_opening, Option.bind_some, after_append,
      after?_append, hclosed, hopened, Option.bind_some, after_cons, after?, step?_closing,
      next_closing]
    exact ihu opened

/-- What a text still holds when brackets are open: a properly nested text before each of their
closing ones, and one behind the last. -/
def Closes : List Bracket → Text → Prop
  | [], t => WellBracketed t
  | b :: opened, t => ∃ u v, t = u ++ b.closing :: v ∧ WellBracketed u ∧ Closes opened v

namespace Closes

/-- Whatever may stand before a properly nested text may stand before this one. -/
theorem append {p : Text} (hp : ∀ u, WellBracketed u → WellBracketed (p ++ u)) :
    ∀ {opened : List Bracket} {t : Text}, Closes opened t → Closes opened (p ++ t)
  | [], t, h => hp t h
  | _ :: _, _, ⟨u, v, happ, hu, hv⟩ => ⟨p ++ u, v, by rw [happ, List.append_assoc], hp u hu, hv⟩

theorem nested : ∀ {opened : List Bracket} {t : Text}, Closes opened t → Nested .outside opened t
  | [], _, h => ⟨(h.scan []).1, (h.scan []).2⟩
  | b :: opened, _, ⟨u, v, happ, hu, hv⟩ => by
    obtain ⟨hclosed, hopened⟩ := hu.scan (b :: opened)
    have hrest := nested hv
    subst happ
    refine ⟨?_, ?_⟩
    · rw [after_append, hclosed, after_cons, next_closing]
      exact hrest.closed
    · rw [after?_append, hclosed, hopened, Option.bind_some, after?, step?_closing, next_closing]
      exact hrest.matched

end Closes

/-- A text that brings the stack to its end has the shape that the open brackets ask for. -/
theorem Nested.closes {opened : List Bracket} {t : Text} (h : Nested .outside opened t) :
    Closes opened t := by
  -- by the length of the text, as a literal is passed as a whole
  induction hlength : t.length using Nat.strongRecOn generalizing opened t with
  | ind n ih =>
    cases t with
    | nil =>
      cases h.matched
      exact .nil
    | cons c t =>
      by_cases hquote : c = '"'
      · subst hquote
        obtain ⟨body, rest, rfl, hbody⟩ := exists_literalBody (t := t) h.closed
        obtain ⟨hclosed, hopened⟩ := hbody.scan_literal opened rest
        have hrest : Nested .outside opened rest :=
          ⟨hclosed.symm.trans h.closed, hopened.symm.trans h.matched⟩
        have hshape := ih rest.length (by simp [← hlength]; omega) hrest rfl
        simpa using hshape.append (p := '"' :: (body ++ ['"'])) fun u hu => by
          simpa using WellBracketed.literal hbody hu
      · obtain ⟨o, hstep, hrest⟩ := h.cons
        rw [next_outside hquote] at hrest
        have hshape := ih t.length (by simp [← hlength]) hrest rfl
        rcases step?_cases hstep with ⟨b, -, rfl, rfl⟩ | ⟨b, -, rfl, rfl⟩ | ⟨hno, rfl⟩
        · obtain ⟨u, v, rfl, hu, hv⟩ := hshape
          simpa using hv.append (p := b.opening :: (u ++ [b.closing])) fun w hw => by
            simpa using WellBracketed.enclosed b hu hw
        · exact ⟨[], t, rfl, .nil, hshape⟩
        · have hplain : isDelimiter c = false := by
            have hround := hno (structural_outside hquote) .round
            have hsquare := hno (structural_outside hquote) .square
            simp only [opening, closing] at hround hsquare
            simp [isDelimiter, hround, hsquare, hquote]
          exact hshape.append (p := [c]) fun u hu => .plain hplain hu

theorem balanced_iff (t : Text) : Balanced t ↔ WellBracketed t :=
  ⟨fun h => (⟨h.1, h.2⟩ : Nested .outside [] t).closes, fun h => h.scan []⟩

namespace LoadSection

theorem cutBlock_of_after? {q : QuoteState} {inner : List Bracket} {t : Text}
    (hclosed : q.after t = .outside) (h : after? q inner t = some []) (rest : Text) :
    cutBlock q (inner.count .square + 1) (t ++ ']' :: rest) = some (t, rest) := by
  induction t generalizing q inner with
  | nil =>
    cases h
    cases hclosed
    rfl
  | cons c t ih =>
    obtain ⟨o, hstep, hrest⟩ := Option.bind_eq_some_iff.1 h
    rw [List.cons_append, cutBlock_cons_of_step? hstep, ih hclosed hrest]
    rfl

end LoadSection

/-- The tokens of a text, where a load block up to the bracket that closes it is one token. -/
inductive Folded : Text → List Text → Prop where
  | nil {t : Text} : (∀ c ∈ t, Text.isGap c = true) → Folded t []
  | token {t gap token rest : Text} {ts : List Text} :
      Lexeme.next? t = some ⟨gap, token, rest⟩ → ¬loadMark <+: token → Folded rest ts →
      Folded t (token :: ts)
  | block {t gap inner rest body behind : Text} {ts : List Text} :
      Lexeme.next? t = some ⟨gap, loadMark ++ inner, rest⟩ → inner ++ rest = body ++ ']' :: behind →
      WellBracketed body → Folded behind ts → Folded t ((loadMark ++ (body ++ [']'])) :: ts)

namespace Lexeme

theorem nextClause?_token {t : Text} {l : Lexeme} (h : next? t = some l)
    (hmark : ¬loadMark <+: l.text) : nextClause? t = some l := by
  simp only [nextClause?, h, Text.isPrefixOf?_eq_none_iff.2 hmark]

theorem nextClause?_block {t gap inner rest body behind : Text}
    (h : next? t = some ⟨gap, loadMark ++ inner, rest⟩) (happ : inner ++ rest = body ++ ']' :: behind)
    (hbody : WellBracketed body) :
    nextClause? t = some ⟨gap, loadMark ++ (body ++ [']']), behind⟩ := by
  obtain ⟨hclosed, hmatched⟩ := hbody.scan []
  have hcut : LoadSection.cut (inner ++ rest) = some (body, behind) := by
    rw [happ]
    exact LoadSection.cutBlock_of_after? hclosed hmatched behind
  simp only [nextClause?, h, Text.isPrefixOf?_append, hcut, List.append_assoc]

theorem clauses_of_gap {t : Text} (h : ∀ c ∈ t, Text.isGap c = true) : clauses t = [] := by
  have hhead := head?_clauses t
  rw [nextClause?, next?_eq_none_of_gap h] at hhead
  exact List.head?_eq_none_iff.1 hhead

/-- There is one way to fold a text, the one that the check takes. -/
theorem clauses_of_folded {t : Text} {ts : List Text} (h : Folded t ts) :
    (clauses t).map Lexeme.text = ts := by
  induction h with
  | nil h => rw [clauses_of_gap h, List.map_nil]
  | token h hmark _ ih => rw [clauses_of_nextClause? (nextClause?_token h hmark), List.map_cons, ih]
  | block h happ hbody _ ih =>
    rw [clauses_of_nextClause? (nextClause?_block h happ hbody), List.map_cons, ih]

/-- A text whose brackets match is folded: the bracket of a load block is closed, and behind the
text that is properly nested in it. -/
theorem exists_folded {opened : List Bracket} {t : Text} (h : Nested .outside opened t) :
    ∃ ts, Folded t ts := by
  -- by the length of the text, as a load block can be longer than the token it starts in
  induction hlength : t.length using Nat.strongRecOn generalizing opened t with
  | ind n ih =>
    cases hnext : next? t with
    | none => exact ⟨[], .nil (isGap_of_next?_eq_none hnext)⟩
    | some l =>
      obtain ⟨gap, token, rest⟩ := l
      have hlt : rest.length < t.length := length_rest_lt hnext
      by_cases hmark : loadMark <+: token
      · obtain ⟨inner, rfl⟩ := hmark
        have htext := nested_text h hnext
        rw [List.append_assoc] at htext
        obtain ⟨o, ho, hblock⟩ := htext.right rfl
        cases ho
        obtain ⟨body, behind, happ, hbody, hbehind⟩ := hblock.closes
        have hlengths := congrArg List.length happ
        have htotal := congrArg List.length (append_of_next? hnext)
        simp only [List.length_append, List.length_cons] at hlengths htotal
        obtain ⟨ts, hts⟩ := ih behind.length (by omega) hbehind.nested rfl
        exact ⟨_, .block hnext happ hbody hts⟩
      · obtain ⟨o, hrest, -⟩ := nested_rest h hnext
        obtain ⟨ts, hts⟩ := ih rest.length (by omega) hrest rfl
        exact ⟨_, .token hnext hmark hts⟩

end Lexeme

structure WellEnded (ts : List Text) : Prop where
  first : ∀ t ∈ ts.head?, t ≠ Junction.and.word ∧ t ≠ Junction.or.word
  negation : ts.head? = some notWord →
    ∃ t, ts[1]? = some t ∧ t ≠ Junction.and.word ∧ t ≠ Junction.or.word ∧ t ≠ [')']
  last : ∀ t ∈ ts.getLast?, t ≠ Junction.and.word ∧ t ≠ Junction.or.word ∧ t ≠ notWord ∧
    ∀ before o, Operator.find? t = some (before, o, []) → o.takesValue = false

namespace Lexeme

theorem junction?_eq_none_iff {l : Lexeme} :
    l.junction? = none ↔ l.text ≠ Junction.and.word ∧ l.text ≠ Junction.or.word := by
  by_cases hand : l.text = Junction.and.word
  · exact iff_of_false (by simp [junction?, Keyword.ofText?, hand]) fun h => h.1 hand
  · by_cases hor : l.text = Junction.or.word
    · refine iff_of_false ?_ fun h => h.2 hor
      rw [junction?, Keyword.ofText?, if_neg hand, if_pos hor]
      exact Option.some_ne_none _
    · refine iff_of_true ?_ ⟨hand, hor⟩
      rw [junction?, Keyword.ofText?, if_neg hand, if_neg hor]
      split_ifs <;> rfl

theorem keyword?_eq_none_iff {t : Text} : Keyword.ofText? t = none ↔
    t ≠ Junction.and.word ∧ t ≠ Junction.or.word ∧ t ≠ notWord := by
  rw [Keyword.ofText?]
  split_ifs with hand hor hnot
  · exact iff_of_false not_false fun h => h.1 hand
  · exact iff_of_false not_false fun h => h.2.1 hor
  · exact iff_of_false not_false fun h => h.2.2 hnot
  · exact iff_of_true rfl ⟨hand, hor, hnot⟩

theorem trailingSymbol?_eq_none_iff {l : Lexeme} :
    l.trailingSymbol? = none ↔ l.text ≠ Junction.and.word ∧ l.text ≠ Junction.or.word ∧
      l.text ≠ notWord ∧
      ∀ before o, Operator.find? l.text = some (before, o, []) → o.takesValue = false := by
  have hassoc : ∀ p : Prop, (l.text ≠ Junction.and.word ∧ l.text ≠ Junction.or.word ∧
      l.text ≠ notWord ∧ p) ↔ Keyword.ofText? l.text = none ∧ p := fun p => by
    simp only [keyword?_eq_none_iff, and_assoc]
  rw [hassoc, trailingSymbol?]
  cases hkeyword : Keyword.ofText? l.text with
  | some k => simp
  | none =>
    rcases hfound : Operator.find? l.text with _ | ⟨before, o, _ | ⟨c, after⟩⟩
    · simp
    · cases ho : o.takesValue <;> simp [ho]
    · simp

theorem isDanglingNot_eq_false_iff {l : Lexeme} {next : Option Lexeme} :
    l.isDanglingNot next = false ↔ (l.text = notWord → ∃ n, next = some n ∧
      n.text ≠ Junction.and.word ∧ n.text ≠ Junction.or.word ∧ n.text ≠ [')']) := by
  cases next with
  | none => simp [isDanglingNot]
  | some n =>
    have hnext : (n.junction?.isSome || n.isGroupClose) = false ↔
        n.text ≠ Junction.and.word ∧ n.text ≠ Junction.or.word ∧ n.text ≠ [')'] := by
      rw [Bool.or_eq_false_iff, Option.isSome_eq_false_iff, Option.isNone_iff_eq_none,
        junction?_eq_none_iff, isGroupClose, beq_eq_false_iff_ne, and_assoc]
    rw [isDanglingNot, Bool.and_eq_false_iff, hnext, beq_eq_false_iff_ne]
    simp only [Option.some.injEq, exists_eq_left']
    tauto

theorem leadingFault?_eq_none_iff (ls : List Lexeme) : leadingFault? ls = none ↔
    ∀ l ∈ ls.head?, l.junction? = none ∧ l.isDanglingNot ls[1]? = false := by
  cases ls with
  | nil => simp [leadingFault?]
  | cons l ls =>
    rw [leadingFault?, List.head?_eq_getElem?]
    cases hjunction : l.junction? <;> simp [hjunction]

end Lexeme

theorem forall_mem_map_text {P : Text → Prop} {o : Option Lexeme} :
    (∀ t ∈ o.map Lexeme.text, P t) ↔ ∀ l ∈ o, P l.text := by
  cases o <;> simp

/-- The operators of a text settle exactly if its tokens want no operand at either end. -/
theorem Repair.settled_iff (t : Text) :
    Settled t ↔ WellEnded ((Lexeme.clauses t).map Lexeme.text) := by
  have hfirst : (∀ l ∈ (Lexeme.clauses t).head?, l.junction? = none) ↔
      ∀ u ∈ ((Lexeme.clauses t).map Lexeme.text).head?,
        u ≠ Junction.and.word ∧ u ≠ Junction.or.word := by
    simp only [List.head?_map, forall_mem_map_text, Lexeme.junction?_eq_none_iff]
  have hnegation : (∀ l ∈ (Lexeme.clauses t).head?,
        l.isDanglingNot (Lexeme.clauses t)[1]? = false) ↔
      (((Lexeme.clauses t).map Lexeme.text).head? = some notWord →
        ∃ u, ((Lexeme.clauses t).map Lexeme.text)[1]? = some u ∧ u ≠ Junction.and.word ∧
          u ≠ Junction.or.word ∧ u ≠ [')']) := by
    simp only [Lexeme.isDanglingNot_eq_false_iff, List.head?_map, List.getElem?_map]
    cases (Lexeme.clauses t).head? <;> simp
  have hlast : ((Lexeme.clauses t).getLast?.bind Lexeme.trailingSymbol? = none) ↔
      ∀ u ∈ ((Lexeme.clauses t).map Lexeme.text).getLast?,
        u ≠ Junction.and.word ∧ u ≠ Junction.or.word ∧ u ≠ notWord ∧
        ∀ before o, Operator.find? u = some (before, o, []) → o.takesValue = false := by
    simp only [List.getLast?_map, forall_mem_map_text, Option.bind_eq_none_iff,
      Lexeme.trailingSymbol?_eq_none_iff]
    rfl
  constructor
  · rintro ⟨hleading, htrailing⟩
    rw [Lexeme.leadingFault?_eq_none_iff] at hleading
    exact ⟨hfirst.1 fun l hl => (hleading l hl).1, hnegation.1 fun l hl => (hleading l hl).2,
      hlast.1 htrailing⟩
  · rintro ⟨first, negation, last⟩
    refine ⟨(Lexeme.leadingFault?_eq_none_iff _).2 fun l hl => ?_, hlast.2 last⟩
    exact ⟨hfirst.2 first l hl, hnegation.2 negation l hl⟩

/-- Text that the check is to accept. -/
structure Grammatical (t : Text) : Prop where
  bracketed : WellBracketed t
  ended : ∃ ts, Folded t ts ∧ WellEnded ts

namespace Diagnosis

theorem isValid_iff_grammatical (t : Text) : isValid t = true ↔ Grammatical t := by
  rw [isValid_iff, balanced_iff, Repair.settled_iff]
  constructor
  · rintro ⟨hbracketed, hended⟩
    have hclosed : Closes [] t := hbracketed
    obtain ⟨ts, hts⟩ := Lexeme.exists_folded hclosed.nested
    exact ⟨hbracketed, ts, hts, Lexeme.clauses_of_folded hts ▸ hended⟩
  · rintro ⟨hbracketed, ts, hts, hended⟩
    exact ⟨hbracketed, (Lexeme.clauses_of_folded hts).symm ▸ hended⟩

theorem pairwise_faults (t : Text) : (faults t).Pairwise fun a b => a.1 ≤ b.1 := by
  have htrans : ∀ a b c : Nat × Fault, decide (a.1 ≤ b.1) = true → decide (b.1 ≤ c.1) = true →
      decide (a.1 ≤ c.1) = true := by
    simp only [decide_eq_true_eq]
    exact fun _ _ _ => Nat.le_trans
  have htotal : ∀ a b : Nat × Fault, (decide (a.1 ≤ b.1) || decide (b.1 ≤ a.1)) = true := by
    simp only [Bool.or_eq_true, decide_eq_true_eq]
    exact fun a b => Nat.le_total a.1 b.1
  exact (List.pairwise_mergeSort htrans htotal _).imp of_decide_eq_true

/-- The first problem is one of those listed, and none of them stands before it. -/
theorem first?_least {t : Text} {p : Problem} (h : first? t = some p) :
    p ∈ problems t ∧ ∀ r ∈ problems t, p.location.position ≤ r.location.position := by
  refine ⟨List.mem_of_mem_head? h, ?_⟩
  have hsorted : (problems t).Pairwise fun p r => p.location.position ≤ r.location.position :=
    List.pairwise_map.2 ((pairwise_faults t).imp fun h => Location.position_mono h t)
  rw [first?] at h
  cases hproblems : problems t with
  | nil =>
    rw [hproblems] at h
    cases h
  | cons q ps =>
    rw [hproblems] at h hsorted
    cases h
    rw [List.pairwise_cons] at hsorted
    exact List.forall_mem_cons.2 ⟨Nat.le_refl _, hsorted.1⟩

theorem first?_eq_none_iff (t : Text) : first? t = none ↔ isValid t = true := by
  rw [first?, List.head?_eq_none_iff, problems, List.map_eq_nil_iff, isValid, List.isEmpty_iff]

/-- The check accepts the grammatical texts, and of any other one it reports a listed problem before
which none stands. -/
theorem first?_grammatical (t : Text) :
    (first? t = none ↔ Grammatical t) ∧
      (¬Grammatical t → ∃ p ∈ problems t, first? t = some p ∧
        ∀ r ∈ problems t, p.location.position ≤ r.location.position) := by
  rw [first?_eq_none_iff, isValid_iff_grammatical]
  refine ⟨Iff.rfl, fun h => ?_⟩
  rw [← isValid_iff_grammatical, ← first?_eq_none_iff] at h
  obtain ⟨p, hp⟩ := Option.ne_none_iff_exists'.1 h
  obtain ⟨hlisted, hleast⟩ := first?_least hp
  exact ⟨p, hlisted, hp, hleast⟩

end Diagnosis

end FilterQuery
