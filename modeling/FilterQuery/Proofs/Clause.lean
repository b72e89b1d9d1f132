import FilterQuery.Repair
import Mathlib.Data.List.TakeWhile
import FilterQuery.Proofs.Token
import FilterQuery.Proofs.Section
set_option autoImplicit false

/-!
The clauses of a text: together with the gaps they make the text up, they end outside literals, and
closing brackets behind a text change its last clause only.
-/

namespace FilterQuery

namespace Lexeme

theorem spanWord_extend (q : QuoteState) (t u : Text) :
    ∃ x r, spanWord q (t ++ u) = ((spanWord q t).1 ++ x, r) ∧ x ++ r = (spanWord q t).2 ++ u ∧
      ((spanWord q t).2 ≠ [] → x = []) := by
  induction t generalizing q with
  | nil => exact ⟨_, _, rfl, spanWord_append q u, fun h => absurd rfl h⟩
  | cons c t ih =>
    rw [List.cons_append, spanWord, spanWord]
    by_cases hc : ends q c = true
    · simp only [hc, if_true]
      exact ⟨[], _, rfl, rfl, fun _ => rfl⟩
    · obtain ⟨x, r, hspan, happ, hstop⟩ := ih (q.next c)
      simp only [hc, Bool.false_eq_true, if_false, hspan]
      exact ⟨x, r, rfl, happ, hstop⟩

theorem spanToken_extend {t : Text} (hne : t ≠ []) (u : Text) :
    ∃ x r, spanToken (t ++ u) = ((spanToken t).1 ++ x, r) ∧ x ++ r = (spanToken t).2 ++ u ∧
      ((spanToken t).2 ≠ [] → x = []) := by
  obtain ⟨c, t, rfl⟩ := List.exists_cons_of_ne_nil hne
  rw [List.cons_append, spanToken, spanToken]
  by_cases hc : isParenthesis c = true
  · simp only [hc, if_true]
    exact ⟨[], _, rfl, rfl, fun _ => rfl⟩
  · simp only [hc, Bool.false_eq_true, if_false]
    exact spanWord_extend .outside (c :: t) u

theorem dropWhile_append_of_ne_nil {t : Text} {p : Char → Bool} (h : t.dropWhile p ≠ [])
    (u : Text) : (t ++ u).dropWhile p = t.dropWhile p ++ u ∧
      (t ++ u).takeWhile p = t.takeWhile p := by
  induction t with
  | nil => exact absurd rfl h
  | cons c t ih =>
    by_cases hc : p c = true
    · simp only [List.dropWhile_cons_of_pos hc] at h
      simp [hc, ih h]
    · simp [hc]

/-- More text can only go on with the first token where nothing stood behind it. -/
theorem next?_extend {t : Text} {l : Lexeme} (h : next? t = some l) (u : Text) :
    ∃ x r, next? (t ++ u) = some ⟨l.gap, l.text ++ x, r⟩ ∧ x ++ r = l.rest ++ u ∧
      (l.rest ≠ [] → x = []) := by
  obtain ⟨hs, rfl⟩ := eq_of_next? h
  obtain ⟨hdrop, htake⟩ := dropWhile_append_of_ne_nil hs u
  obtain ⟨x, r, hspan, happ, hstop⟩ := spanToken_extend hs u
  refine ⟨x, r, ?_, happ, hstop⟩
  have hne : t.dropWhile Text.isGap ++ u ≠ [] := by simp [hs]
  simp only [next?, hdrop, htake, if_neg hne, hspan]

end Lexeme

namespace LoadSection

theorem cutBlock_append {q : QuoteState} {depth : Nat} {t body rest : Text}
    (h : cutBlock q depth t = some (body, rest)) (u : Text) :
    cutBlock q depth (t ++ u) = some (body, rest ++ u) := by
  induction t generalizing q depth body with
  | nil => cases h
  | cons c t ih =>
    rw [cutBlock] at h
    rw [List.cons_append, cutBlock]
    by_cases hc : q.structural c ∧ c = ']' ∧ depth ≤ 1
    · rw [if_pos hc] at h ⊢
      cases h
      rfl
    · rw [if_neg hc] at h ⊢
      obtain ⟨⟨b, r⟩, hcut, heq⟩ := Option.map_eq_some_iff.1 h
      cases heq
      rw [ih hcut]
      rfl

theorem cutBlock_extend {q : QuoteState} {depth : Nat} {t u body rest : Text}
    (hnone : cutBlock q depth t = none) (h : cutBlock q depth (t ++ u) = some (body, rest)) :
    ∃ x, body ++ [']'] = t ++ x ∧ x ++ rest = u := by
  induction t generalizing q depth body with
  | nil =>
    refine ⟨body ++ [']'], rfl, ?_⟩
    simpa using append_of_cutBlock h
  | cons c t ih =>
    rw [cutBlock] at hnone
    rw [List.cons_append, cutBlock] at h
    by_cases hc : q.structural c ∧ c = ']' ∧ depth ≤ 1
    · rw [if_pos hc] at hnone
      cases hnone
    · rw [if_neg hc] at hnone h
      obtain ⟨⟨b, r⟩, hcut, heq⟩ := Option.map_eq_some_iff.1 h
      cases heq
      obtain ⟨x, hbody, hrest⟩ := ih (Option.map_eq_none_iff.1 hnone) hcut
      exact ⟨x, by rw [List.cons_append, List.cons_append, hbody], hrest⟩

end LoadSection

namespace Lexeme

open QuoteState

def IsClosing (t : Text) : Prop := ∀ c ∈ t, c = ')' ∨ c = ']'

theorem IsClosing.left {t u r : Text} (h : IsClosing u) (happ : t ++ r = u) : IsClosing t :=
  fun c hc => h c (happ ▸ List.mem_append_left r hc)

theorem isPrefixOf?_loadMark {t x : Text} (h : loadMark.isPrefixOf? t = none) (hx : IsClosing x) :
    loadMark.isPrefixOf? (t ++ x) = none := by
  rw [Text.isPrefixOf?_eq_none_iff] at h ⊢
  intro hmark
  rcases List.prefix_or_prefix_of_prefix hmark (List.prefix_append t x) with hshort | ⟨y, hy⟩
  · exact h hshort
  · cases hlast : y.getLast? with
    | none =>
      rw [List.getLast?_eq_none_iff.1 hlast, List.append_nil] at hy
      exact h (hy ▸ List.prefix_refl _)
    | some d =>
      rw [← hy, List.prefix_append_right_inj] at hmark
      have hd : d = '[' := by
        have hmarkLast : loadMark.getLast? = some '[' := rfl
        rw [← hy, List.getLast?_append, hlast, Option.some_or] at hmarkLast
        exact Option.some.inj hmarkLast
      have hmem : d ∈ x := hmark.subset (List.mem_of_getLast? hlast)
      rcases hx d hmem with rfl | rfl <;> cases hd

theorem isClosing_nil : IsClosing [] := fun _ hc => absurd hc List.not_mem_nil

theorem Starts.gap_eq {k l : Lexeme} (h : k.Starts l) : l.gap = k.gap := by cases h <;> rfl

theorem nextClause?_of_starts {t : Text} {k l : Lexeme} (hk : next? t = some k) (h : k.Starts l) :
    nextClause? t = some l := by
  cases h with
  | token hmark => simp only [nextClause?, hk, hmark]
  | block hmark hcut => simp only [nextClause?, hk, hmark, hcut]
  | unclosed hmark hcut => simp only [nextClause?, hk, hmark, hcut]

/-- A token with closing brackets behind it starts the same clause, which some of the brackets may
go on with. -/
theorem Starts.extend {k l : Lexeme} (h : k.Starts l) {u x r : Text} (hu : IsClosing u)
    (happ : x ++ r = k.rest ++ u) (hstop : k.rest ≠ [] → x = []) :
    ∃ y s, Starts ⟨k.gap, k.text ++ x, r⟩ ⟨l.gap, l.text ++ y, s⟩ ∧ y ++ s = l.rest ++ u ∧
      IsClosing y := by
  have hmark' {body : Text} (hmark : loadMark.isPrefixOf? k.text = some body) :
      loadMark.isPrefixOf? (k.text ++ x) = some (body ++ x) := by
    rw [← Text.append_of_isPrefixOf? hmark, List.append_assoc, Text.isPrefixOf?_append]
  have hbehind (body : Text) : body ++ x ++ r = body ++ k.rest ++ u := by
    rw [List.append_assoc, happ, List.append_assoc]
  cases h with
  | token hmark =>
    have hx : IsClosing x := by
      by_cases hrest : k.rest = []
      · rw [hrest, List.nil_append] at happ
        exact hu.left happ
      · rw [hstop hrest]
        exact isClosing_nil
    exact ⟨x, r, .token (isPrefixOf?_loadMark hmark hx), happ, hx⟩
  | @block body block rest hmark hcut =>
    have hcut' := LoadSection.cutBlock_append hcut u
    rw [← hbehind] at hcut'
    refine ⟨[], rest ++ u, ?_, rfl, isClosing_nil⟩
    rw [List.append_nil]
    exact .block (hmark' hmark) hcut'
  | @unclosed body hmark hcut =>
    cases hcut' : LoadSection.cut (body ++ k.rest ++ u) with
    | some p =>
      obtain ⟨block, rest⟩ := p
      obtain ⟨y, hblock, hrest⟩ := LoadSection.cutBlock_extend hcut hcut'
      have htext : k.text ++ k.rest ++ y = loadMark ++ block ++ [']'] := by
        rw [← Text.append_of_isPrefixOf? hmark, List.append_assoc, List.append_assoc,
          ← List.append_assoc body, ← hblock, List.append_assoc]
      rw [← hbehind] at hcut'
      refine ⟨y, rest, ?_, hrest, hu.left hrest⟩
      rw [htext]
      exact .block (hmark' hmark) hcut'
    | none =>
      have htext : k.text ++ k.rest ++ u = k.text ++ x ++ r := (hbehind k.text).symm
      rw [← hbehind] at hcut'
      refine ⟨u, [], ?_, List.append_nil u, hu⟩
      rw [htext]
      exact .unclosed (hmark' hmark) hcut'

/-- Closing brackets behind a text go on with its first clause or stay behind it. -/
theorem nextClause?_extend {t : Text} {l : Lexeme} (h : nextClause? t = some l) {u : Text}
    (hu : IsClosing u) :
    ∃ x r, nextClause? (t ++ u) = some ⟨l.gap, l.text ++ x, r⟩ ∧ x ++ r = l.rest ++ u ∧
      IsClosing x := by
  obtain ⟨k, hk, hstarts⟩ := starts_of_nextClause? h
  obtain ⟨x, r, hnext, happ, hstop⟩ := next?_extend hk u
  obtain ⟨y, s, hstarts', hrest, hy⟩ := hstarts.extend hu happ hstop
  exact ⟨y, s, nextClause?_of_starts hnext hstarts', hrest, hy⟩

theorem after_spanWord {q : QuoteState} {t : Text} (h : (spanWord q t).2 ≠ []) :
    q.after (spanWord q t).1 = .outside := by
  induction t generalizing q with
  | nil => exact absurd rfl h
  | cons c t ih =>
    rw [spanWord] at h ⊢
    by_cases hc : ends q c = true
    · simp only [hc, if_true, after_nil]
      simp only [ends, Bool.and_eq_true, beq_iff_eq] at hc
      exact hc.1
    · simp only [hc, Bool.false_eq_true, if_false] at h ⊢
      exact ih h

theorem closed_spanToken {t : Text} (h : (spanToken t).2 ≠ []) : Closed (spanToken t).1 := by
  cases t with
  | nil => exact closed_nil
  | cons c t =>
    rw [spanToken] at h ⊢
    by_cases hc : isParenthesis c = true
    · simp only [hc, if_true]
      refine closed_singleton ?_
      rintro rfl
      cases hc
    · simp only [hc, Bool.false_eq_true, if_false] at h ⊢
      exact after_spanWord h

theorem closed_gap {t : Text} (h : ∀ c ∈ t, Text.isGap c = true) : Closed t := by
  refine after_of_unquoted fun c hc hquote => ?_
  have hgap := h c hc
  rw [hquote] at hgap
  cases hgap

theorem isGap_of_next? {t : Text} {l : Lexeme} (h : next? t = some l) :
    ∀ c ∈ l.gap, Text.isGap c = true := by
  obtain ⟨-, rfl⟩ := eq_of_next? h
  exact List.all_eq_true.1 List.all_takeWhile

theorem isGap_of_nextClause? {t : Text} {l : Lexeme} (h : nextClause? t = some l) :
    ∀ c ∈ l.gap, Text.isGap c = true := by
  obtain ⟨k, hk, hstarts⟩ := starts_of_nextClause? h
  rw [hstarts.gap_eq]
  exact isGap_of_next? hk

theorem closed_text_of_next? {t : Text} {l : Lexeme} (h : next? t = some l) (hne : l.rest ≠ []) :
    Closed l.text := by
  obtain ⟨-, rfl⟩ := eq_of_next? h
  exact closed_spanToken hne

theorem closed_clause {t : Text} {l : Lexeme} (h : nextClause? t = some l) (hne : l.rest ≠ []) :
    Closed (l.gap ++ l.text) := by
  refine (closed_gap (isGap_of_nextClause? h)).append ?_
  obtain ⟨k, hk, hstarts⟩ := starts_of_nextClause? h
  cases hstarts with
  | token _ => exact closed_text_of_next? hk hne
  | block _ hcut =>
    have hmark : Closed loadMark := rfl
    exact (hmark.append (LoadSection.after_of_cutBlock hcut)).append (closed_singleton (by decide))
  | unclosed _ _ => exact absurd rfl hne

theorem closed_of_nextClause? {t : Text} {l : Lexeme} (ht : Closed t)
    (h : nextClause? t = some l) : Closed (l.gap ++ l.text) ∧ Closed l.rest := by
  have happ := append_of_nextClause? h
  by_cases hne : l.rest = []
  · rw [hne, List.append_nil] at happ
    rw [hne, happ]
    exact ⟨ht, closed_nil⟩
  · have hclause := closed_clause h hne
    refine ⟨hclause, ?_⟩
    rw [← happ, Closed, after_append, hclause] at ht
    exact ht

theorem closed_clauses {t : Text} (ht : Closed t) :
    ∀ l ∈ clauses t, Closed (l.gap ++ l.text) := by
  fun_induction clauses t with
  | case1 => simp
  | case2 t l h _ ih =>
    obtain ⟨hclause, hrest⟩ := closed_of_nextClause? ht h
    exact List.forall_mem_cons.2 ⟨hclause, ih hrest⟩

theorem isGap_of_next?_eq_none {t : Text} (h : next? t = none) : ∀ c ∈ t, Text.isGap c = true := by
  simp only [next?] at h
  split at h
  · rename_i hdrop
    exact List.dropWhile_eq_nil_iff.1 hdrop
  · cases h

theorem next?_eq_none_of_nextClause? {t : Text} (h : nextClause? t = none) : next? t = none := by
  simp only [nextClause?] at h
  split at h
  · assumption
  · split at h
    · cases h
    · split at h <;> cases h

theorem isGap_of_nextClause?_eq_none {t : Text} (h : nextClause? t = none) :
    ∀ c ∈ t, Text.isGap c = true :=
  isGap_of_next?_eq_none (next?_eq_none_of_nextClause? h)

theorem append_clauses (t : Text) :
    ∃ gap, (clauses t).flatMap (fun l => l.gap ++ l.text) ++ gap = t ∧
      ∀ c ∈ gap, Text.isGap c = true := by
  fun_induction clauses t with
  | case1 t h => exact ⟨t, rfl, isGap_of_nextClause?_eq_none h⟩
  | case2 t l h _ ih =>
    obtain ⟨gap, happ, hgap⟩ := ih
    refine ⟨gap, ?_, hgap⟩
    rw [List.flatMap_cons, List.append_assoc, happ, append_of_nextClause? h]

theorem getLast?_clause {t : Text} {c : Char} (h : t.getLast? = some c)
    (hc : Text.isGap c = false) {l : Lexeme} (hl : (clauses t).getLast? = some l) :
    l.text.getLast? = some c := by
  obtain ⟨gap, happ, hgap⟩ := append_clauses t
  have hne : l.text ≠ [] := Repair.clauses_text_ne_nil t l (List.mem_of_getLast? hl)
  cases hlast : gap.getLast? with
  | some d =>
    rw [← happ, List.getLast?_append, hlast, Option.some_or] at h
    cases h
    rw [hgap c (List.mem_of_getLast? hlast)] at hc
    cases hc
  | none =>
    obtain ⟨ls, hls⟩ := List.getLast?_eq_some_iff.1 hl
    rw [List.getLast?_eq_none_iff.1 hlast, List.append_nil, hls, List.flatMap_append,
      List.flatMap_singleton, ← List.append_assoc] at happ
    rw [← happ, List.getLast?_append_of_ne_nil _ hne] at h
    exact h

theorem keyword?_of_isClosing {t x : Text} (hx : IsClosing x) (hne : x ≠ []) :
    Keyword.ofText? (t ++ x) = none := by
  obtain ⟨c, hc⟩ := Option.ne_none_iff_exists'.1 (mt List.getLast?_eq_none_iff.1 hne)
  have hlast : (t ++ x).getLast? = some c := by rw [List.getLast?_append, hc, Option.some_or]
  have hclosing := hx c (List.mem_of_getLast? hc)
  have hword : ∀ w ∈ [Junction.and.word, Junction.or.word, notWord], t ++ x ≠ w := by
    intro w hw hsame
    have hends : [Junction.and.word, Junction.or.word, notWord].all (fun w =>
        w.getLast? != some ')' && w.getLast? != some ']') = true := by decide
    have hw' := List.all_eq_true.1 hends w hw
    rw [← hsame, hlast] at hw'
    rcases hclosing with rfl | rfl <;> exact absurd hw' (by decide)
  simp only [List.forall_mem_cons] at hword
  rw [Keyword.ofText?, if_neg hword.1, if_neg hword.2.1, if_neg hword.2.2.1]

theorem trailingSymbol?_of_isClosing {l : Lexeme} {c : Char} (h : l.text.getLast? = some c)
    (hc : c = ')' ∨ c = ']') : l.trailingSymbol? = none := by
  obtain ⟨t, ht⟩ := List.getLast?_eq_some_iff.1 h
  have hclosing : IsClosing [c] := fun d hd => List.mem_singleton.1 hd ▸ hc
  rw [trailingSymbol?, ht, keyword?_of_isClosing hclosing (List.cons_ne_nil c []),
    Option.isSome_none, if_neg Bool.false_ne_true, ← ht]
  split
  · rename_i before o hfind
    have happ := Operator.append_of_findFrom hfind
    rw [List.append_nil] at happ
    rw [← happ, List.getLast?_append_of_ne_nil _ (Test.symbol_ne_nil o)] at h
    have hends : Operator.table.all (fun o =>
        o.symbol.getLast? != some ')' && o.symbol.getLast? != some ']') = true := by decide
    have ho := List.all_eq_true.1 hends o (Operator.mem_table o)
    rw [h] at ho
    rcases hc with rfl | rfl <;> exact absurd ho (by decide)
  · rfl

theorem clauses_of_nextClause? {t : Text} {l : Lexeme} (h : nextClause? t = some l) :
    clauses t = l :: clauses l.rest := by
  rw [clauses]
  split
  · rename_i hnone
    rw [h] at hnone
    cases hnone
  · rename_i k hk
    rw [h] at hk
    cases hk
    rfl

theorem head?_clauses (t : Text) : (clauses t).head? = nextClause? t := by
  cases h : nextClause? t with
  | some l => rw [clauses_of_nextClause? h, List.head?_cons]
  | none =>
    rw [clauses]
    split
    · rfl
    · rename_i l hl
      rw [h] at hl
      cases hl

theorem leadingFault?_clauses {t : Text} {l : Lexeme} (h : nextClause? t = some l) :
    leadingFault? (clauses t) = none ↔
      l.junction? = none ∧ l.isDanglingNot (nextClause? l.rest) = false := by
  rw [clauses_of_nextClause? h, leadingFault?, head?_clauses]
  cases l.junction? with
  | some j => simp
  | none => cases l.isDanglingNot (nextClause? l.rest) <;> simp

theorem junction?_extend {gap text rest x : Text} (hx : IsClosing x)
    (h : junction? ⟨gap, text, rest⟩ = none) (gap' rest' : Text) :
    junction? ⟨gap', text ++ x, rest'⟩ = none := by
  by_cases hne : x = []
  · rw [hne, List.append_nil]
    exact h
  · rw [junction?, keyword?_of_isClosing hx hne]

theorem leadingFault?_extend {t u : Text} {l : Lexeme} (hl : nextClause? t = some l)
    (h : leadingFault? (clauses t) = none) (hu : IsClosing u) :
    leadingFault? (clauses (t ++ u)) = none := by
  obtain ⟨x, r, hnext, happ, hx⟩ := nextClause?_extend hl hu
  obtain ⟨hjunction, hnot⟩ := (leadingFault?_clauses hl).1 h
  refine (leadingFault?_clauses hnext).2 ⟨junction?_extend hx hjunction _ _, ?_⟩
  by_cases hword : l.text ++ x = notWord
  · have hxnil : x = [] := by
      by_contra hne
      have hkeyword := keyword?_of_isClosing (t := l.text) hx hne
      rw [hword] at hkeyword
      cases hkeyword
    rw [hxnil, List.append_nil] at hword
    rw [hxnil, List.nil_append] at happ
    unfold isDanglingNot at hnot ⊢
    rw [happ]
    cases hn : nextClause? l.rest with
    | none => simp [hn, hword] at hnot
    | some n =>
      obtain ⟨y, r', hnext', -, hy⟩ := nextClause?_extend hn hu
      simp only [hn, hword, beq_self_eq_true, Bool.true_and, Bool.or_eq_false_iff] at hnot
      have hnone : n.junction? = none := Option.not_isSome_iff_eq_none.1 (by simp [hnot.1])
      have hclose : (n.text ++ y == [')']) = false := by
        have hne := nextClause?_text_ne_nil hn
        have hopen : n.text ≠ [')'] := by simpa [isGroupClose] using hnot.2
        simp [List.append_eq_singleton_iff, hne, hopen]
      simp [hnext', junction?_extend hy hnone, isGroupClose, hclose]
  · have hbeq : (l.text ++ x == notWord) = false := by simpa using hword
    unfold isDanglingNot
    rw [hbeq, Bool.false_and]

end Lexeme

end FilterQuery
