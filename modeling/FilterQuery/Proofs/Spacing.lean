import FilterQuery.Proofs.Enclosed
import FilterQuery.Proofs.Grammar
set_option autoImplicit false

/-!
White space around the operator of a comparison. The operator may stand inside a token, at its end,
at the start of the next token, or be a token of its own; wherever it stands, the same field, the
same operator and the same operand are read. The exception is a field that cannot be read: the
comparison is given up before its operand, which is dropped with it only when it is attached.
-/

namespace FilterQuery

open QuoteState

namespace Lexeme

/-- One token, neither a parenthesis nor a keyword. -/
structure IsTerm (t : Text) : Prop where
  token : Token.scan t = [⟨t, 0⟩]
  not_open : t ≠ ['(']
  not_close : t ≠ [')']
  not_keyword : Keyword.ofText? t = none

instance (t : Text) : Decidable (IsTerm t) :=
  decidable_of_iff (Token.scan t = [⟨t, 0⟩] ∧ t ≠ ['('] ∧ t ≠ [')'] ∧ Keyword.ofText? t = none)
    ⟨fun ⟨ht, ho, hc, hk⟩ => ⟨ht, ho, hc, hk⟩, fun ⟨ht, ho, hc, hk⟩ => ⟨ht, ho, hc, hk⟩⟩

theorem next?_gaps {g t text rest : Text} (hg : ∀ c ∈ g, Text.isGap c = true)
    (h : next? t = some ⟨[], text, rest⟩) : next? (g ++ t) = some ⟨g, text, rest⟩ := by
  rw [next?_append_of_none (next?_eq_none_of_gap hg), h, Option.map_some, List.append_nil]

theorem atBreak_gaps {g : Text} (hg : ∀ c ∈ g, Text.isGap c = true) (hne : g ≠ []) (t : Text) :
    AtBreak (g ++ t) := by
  obtain ⟨c, g, rfl⟩ := List.exists_cons_of_ne_nil hne
  exact atBreak_cons (by simp [breaks, hg c (List.mem_cons_self ..)])

theorem scan_eq_singleton {t : Text} (h : Token.scan t = [⟨t, 0⟩]) :
    next? t = some ⟨[], t, []⟩ := by
  rw [Token.scan, Token.scanFrom] at h
  split at h
  · cases h
  · rename_i l hl
    rw [List.cons.injEq, token, Token.mk.injEq] at h
    obtain ⟨⟨htext, -⟩, -⟩ := h
    have happ := append_of_next? hl
    rw [hl]
    obtain ⟨gap, text, rest⟩ := l
    simp only at htext happ
    subst htext
    have hlength := congrArg List.length happ
    simp only [List.length_append] at hlength
    rw [List.eq_nil_of_length_eq_zero (l := gap) (by omega),
      List.eq_nil_of_length_eq_zero (l := rest) (by omega)]

namespace IsTerm

variable {t : Text}

theorem ne_nil (h : IsTerm t) : t ≠ [] := text_ne_nil (scan_eq_singleton h.token)

theorem clear (h : IsTerm t) : outside.Clear breaks t :=
  ((next?_cases (scan_eq_singleton h.token)).resolve_left h.not_open).resolve_left h.not_close

end IsTerm

end Lexeme

namespace Operator

theorem leading?_append {t u : Text} {o : Operator} (h : leading? (t ++ u) = some o)
    (hsymbol : o.symbol <+: t) : leading? t = some o := by
  obtain ⟨-, as, bs, htable, hbefore⟩ := List.find?_eq_some_iff_append.1 h
  refine List.find?_eq_some_iff_append.2 ⟨List.isPrefixOf_iff_prefix.2 hsymbol, as, bs, htable, ?_⟩
  intro a ha
  have hnone := hbefore a ha
  rw [Bool.not_eq_true', ← Bool.not_eq_true, List.isPrefixOf_iff_prefix] at hnone ⊢
  exact fun hinitial => hnone (hinitial.trans (List.prefix_append t u))

theorem leading?_eq_none_of_append {t u : Text} (h : leading? (t ++ u) = none) :
    leading? t = none := by
  refine List.find?_eq_none.2 fun o ho hinitial => List.find?_eq_none.1 h o ho ?_
  rw [List.isPrefixOf_iff_prefix] at hinitial ⊢
  exact hinitial.trans (List.prefix_append t u)

variable {q : QuoteState} {f u v : Text} {o : Operator}

theorem findFrom_before (h : findFrom q (f ++ u) = some (f, o, v)) :
    q.after f = .outside ∧ leading? u = some o ∧ findFrom q f = none := by
  induction f generalizing q with
  | nil =>
    cases u with
    | nil => cases h
    | cons c u =>
      rw [List.nil_append, findFrom] at h
      split at h
      · rename_i o' hlead
        cases h
        split at hlead
        · rename_i hs
          exact ⟨((structural_iff q c).1 hs).1, hlead, rfl⟩
        · cases hlead
      · obtain ⟨p, -, heq⟩ := Option.map_eq_some_iff.1 h
        cases heq
  | cons c f ih =>
    rw [List.cons_append, findFrom] at h
    split at h
    · cases h
    · rename_i hlead
      obtain ⟨⟨b, o', a⟩, hrest, heq⟩ := Option.map_eq_some_iff.1 h
      cases heq
      obtain ⟨hafter, hleading, hnone⟩ := ih hrest
      have hhead : (if q.structural c then leading? (c :: f) else none) = none := by
        split at hlead
        · rename_i hs
          rw [if_pos hs]
          exact leading?_eq_none_of_append hlead
        · rename_i hs
          rw [if_neg hs]
      refine ⟨hafter, hleading, ?_⟩
      rw [findFrom, hhead]
      simp only [hnone, Option.map_none]

theorem findFrom_symbol (h : findFrom q (f ++ (o.symbol ++ v)) = some (f, o, v)) :
    findFrom q (f ++ o.symbol) = some (f, o, []) := by
  induction f generalizing q with
  | nil =>
    obtain ⟨hafter, hleading, -⟩ := findFrom_before h
    have hsymbol := leading?_append hleading (List.prefix_refl _)
    obtain ⟨c, u, hcons, hc⟩ := symbol_head o
    have hquote : c ≠ '"' := by
      rintro rfl
      exact absurd hc (by decide)
    have hs : q.structural c = true := (structural_iff q c).2 ⟨hafter, hquote⟩
    have hdrop : o.symbol.drop o.symbol.length = [] := List.drop_length
    rw [List.nil_append]
    rw [hcons] at hsymbol hdrop ⊢
    rw [findFrom, if_pos hs, hsymbol]
    simp only [hcons, hdrop]
  | cons c f ih =>
    rw [List.cons_append, findFrom] at h ⊢
    split at h
    · cases h
    · rename_i hlead
      obtain ⟨⟨b, o', a⟩, hrest, heq⟩ := Option.map_eq_some_iff.1 h
      cases heq
      have hhead : (if q.structural c then leading? (c :: (f ++ o.symbol)) else none) = none := by
        split at hlead
        · rename_i hs
          rw [if_pos hs]
          rw [← List.append_assoc, ← List.cons_append] at hlead
          exact leading?_eq_none_of_append hlead
        · rename_i hs
          rw [if_neg hs]
      rw [hhead, ih hrest]
      rfl

theorem keyword?_of_find? {t : Text} (h : find? t ≠ none) : Keyword.ofText? t = none := by
  have hne : ∀ word : Text, find? word = none → t ≠ word := by
    rintro word hword rfl
    exact h hword
  rw [Keyword.ofText?, if_neg (hne _ (by decide)), if_neg (hne _ (by decide)),
    if_neg (hne _ (by decide))]

end Operator

/-- A token that is neither a parenthesis nor a keyword and opens no section starts a comparison. -/
theorem Start.ofText_comparison {t : Text} (hopen : t ≠ ['(']) (hclose : t ≠ [')'])
    (hkeyword : Keyword.ofText? t = none) (hload : ¬loadMark <+: t) (hsort : ¬sortMark <+: t)
    (hpage : ¬pageMark <+: t) : ofText t = .comparison := by
  simp only [ofText, if_neg hopen, if_neg hclose, hkeyword, Text.isPrefixOf?_eq_none_iff.2 hload,
    Text.isPrefixOf?_eq_none_iff.2 hsort, Text.isPrefixOf?_eq_none_iff.2 hpage]

namespace Outline

theorem readFrom_gaps [Regex.Engine] {g : Text} (hg : ∀ c ∈ g, Text.isGap c = true) (o : Outline)
    (t : Text) : o.readFrom (g ++ t) = o.readFrom t := by
  induction g with
  | nil => rfl
  | cons c g ih =>
    rw [List.forall_mem_cons] at hg
    rw [List.cons_append, readFrom_gap hg.1, ih hg.2]

theorem readFrom_allGap [Regex.Engine] {g : Text} (hg : ∀ c ∈ g, Text.isGap c = true)
    (o : Outline) : o.readFrom g = o := readFrom_end (Lexeme.next?_eq_none_of_gap hg)

theorem assemble_leaf? (e : Option Expr) :
    Node.assemble (empty.addAll (e.toList.map .leaf)).root = e := by
  cases e <;> rfl

end Outline

namespace Condition

open Lexeme

/-- A field and an operator that are told apart, with the text that stands behind the operator in
its token. -/
structure Headed (f : Text) (o : Operator) (after : Text) : Prop where
  ne_nil : f ≠ []
  clear : outside.Clear breaks f
  not_keyword : Keyword.ofText? f = none
  found : Operator.find? (f ++ (o.symbol ++ after)) = some (f, o, after)
  not_sort : ¬sortMark <+: f ++ (o.symbol ++ after)
  not_page : ¬pageMark <+: f ++ (o.symbol ++ after)
  not_load : ¬loadMark <+: f ++ (o.symbol ++ after)

namespace Headed

variable {f after g : Text} {o : Operator}

theorem passable (hd : Headed f o after) : Passable breaks f :=
  ⟨(Operator.findFrom_before hd.found).1, hd.clear⟩

/-- The operator that stands in the token behind the field, or in the next one. -/
theorem leadingSplit? (hd : Headed f o after) :
    Operator.leadingSplit? (o.symbol ++ after) = some (o, after) := by
  rw [Operator.leadingSplit?, (Operator.findFrom_before hd.found).2.1, Option.map_some,
    List.drop_left]

theorem start_field (hd : Headed f o after) : Start.ofText f = .comparison := by
  have hinitial : f <+: f ++ (o.symbol ++ after) := List.prefix_append _ _
  refine Start.ofText_comparison ?_ ?_ hd.not_keyword (fun h => hd.not_load (h.trans hinitial))
    (fun h => hd.not_sort (h.trans hinitial)) (fun h => hd.not_page (h.trans hinitial))
  · rintro rfl
    exact absurd (breaks_head_of_clear hd.clear) (by decide)
  · rintro rfl
    exact absurd (breaks_head_of_clear hd.clear) (by decide)

theorem start_joined (hd : Headed f o after) :
    Start.ofText (f ++ (o.symbol ++ after)) = .comparison := by
  have hne : ∀ word : Text, Operator.find? word = none → f ++ (o.symbol ++ after) ≠ word := by
    rintro word hword heq
    have hfound := hd.found
    rw [heq, hword] at hfound
    cases hfound
  exact Start.ofText_comparison (hne _ (by decide)) (hne _ (by decide))
    (Operator.keyword?_of_find? (by simp [hd.found])) hd.not_load hd.not_sort hd.not_page

/-- Whether the operator is attached to the field or not, the comparison is read behind it. -/
theorem exists_reading [Regex.Engine] (hd : Headed f o after) (hg : ∀ c ∈ g, Text.isGap c = true)
    {u rest : Text} (hspan : spanWord .outside u = (after, rest)) :
    ∃ token behind, Cuts (f ++ (g ++ (o.symbol ++ u))) token behind ∧
      Start.ofText token = .comparison ∧ read token behind = readAt o f after rest := by
  have hsymbol : Passable breaks o.symbol := inherited_breaks.symbol o
  by_cases hgap : g = []
  · have hword := hd.passable.append hsymbol
    have hnext := next?_append (by simp [Test.symbol_ne_nil]) hword.2 hword.1 u
    rw [List.append_assoc, List.append_assoc, hspan] at hnext
    subst hgap
    refine ⟨_, _, ⟨[], hnext⟩, hd.start_joined, ?_⟩
    rw [read, hd.found]
  · have hnext := next?_append (Test.symbol_ne_nil o) hsymbol.2 hsymbol.1 u
    rw [hspan] at hnext
    refine ⟨f, g ++ (o.symbol ++ u),
      ⟨[], next?_word hd.ne_nil hd.clear hd.passable.1 (atBreak_gaps hg hgap _)⟩, hd.start_field, ?_⟩
    have hnone : Operator.find? f = none := (Operator.findFrom_before hd.found).2.2
    rw [read, hnone]
    simp only [next?_gaps hg hnext, hd.leadingSplit?]

theorem readFrom [Regex.Engine] (hd : Headed f o after) (hg : ∀ c ∈ g, Text.isGap c = true)
    {u rest left : Text} (hspan : spanWord .outside u = (after, rest)) {e : Option Expr}
    (hread : readAt o f after rest = (e, left)) (base : Outline) :
    base.readFrom (f ++ (g ++ (o.symbol ++ u))) =
      (base.addAll (e.toList.map .leaf)).readFrom left := by
  obtain ⟨token, behind, hcuts, hstart, hsame⟩ := hd.exists_reading hg hspan
  exact Outline.readFrom_comparison hcuts hstart (hsame.trans hread) base

end Headed

structure Joins (f : Text) (o : Operator) (v : Text) : Prop where
  field : IsTerm f
  value : if o.takesValue then IsTerm v else v = []
  found : Operator.find? (f ++ (o.symbol ++ v)) = some (f, o, v)
  not_sort : ¬sortMark <+: f ++ (o.symbol ++ v)
  not_page : ¬pageMark <+: f ++ (o.symbol ++ v)
  not_load : ¬loadMark <+: f ++ (o.symbol ++ v)

instance (f : Text) (o : Operator) (v : Text) : Decidable (Joins f o v) :=
  decidable_of_iff (IsTerm f ∧ (if o.takesValue then IsTerm v else v = []) ∧
      Operator.find? (f ++ (o.symbol ++ v)) = some (f, o, v) ∧ ¬sortMark <+: f ++ (o.symbol ++ v) ∧
      ¬pageMark <+: f ++ (o.symbol ++ v) ∧ ¬loadMark <+: f ++ (o.symbol ++ v))
    ⟨fun ⟨hf, hv, ho, hs, hp, hl⟩ => ⟨hf, hv, ho, hs, hp, hl⟩,
      fun ⟨hf, hv, ho, hs, hp, hl⟩ => ⟨hf, hv, ho, hs, hp, hl⟩⟩

def meaning [Regex.Engine] (f : Text) (o : Operator) (v : Text) : Option Expr :=
  (fieldName? f).bind fun field => build o field v

theorem operand_end (o : Operator) (v : Text) : operand o v [] = (v, []) := by
  rw [operand]
  split
  · rw [gatherList]
    split <;> rfl
  · rfl

namespace Joins

variable {f v g h : Text} {o : Operator}

theorem clear_value (hj : Joins f o v) : outside.Clear breaks v := by
  have hvalue := hj.value
  split at hvalue
  · exact hvalue.clear
  · rw [hvalue]
    exact clear_nil _ _

/-- An operand that is attached stands in the token of the operator. -/
theorem spanWord_attached (hj : Joins f o v) : spanWord .outside v = (v, []) := by
  have hspan := spanWord_append_of_clear hj.clear_value []
  simpa [spanWord] using hspan

theorem headed (hj : Joins f o v) : Headed f o v :=
  ⟨hj.field.ne_nil, hj.field.clear, hj.field.not_keyword, hj.found, hj.not_sort, hj.not_page,
    hj.not_load⟩

theorem headed_nil (hj : Joins f o v) : Headed f o [] := by
  have hinitial : f ++ (o.symbol ++ []) <+: f ++ (o.symbol ++ v) := ⟨v, by simp⟩
  refine ⟨hj.field.ne_nil, hj.field.clear, hj.field.not_keyword, ?_,
    fun h => hj.not_sort (h.trans hinitial), fun h => hj.not_page (h.trans hinitial),
    fun h => hj.not_load (h.trans hinitial)⟩
  rw [List.append_nil]
  exact Operator.findFrom_symbol hj.found

theorem operandBehind_gaps (hj : Joins f o v) (ht : o.takesValue = true)
    (hh : ∀ c ∈ h, Text.isGap c = true) : operandBehind o (h ++ v) = some (v, []) := by
  have hv : IsTerm v := by simpa [ht] using hj.value
  have hopen : isGroupOpen ⟨h, v, []⟩ = false := beq_eq_false_iff_ne.2 hv.not_open
  have hclose : isGroupClose ⟨h, v, []⟩ = false := beq_eq_false_iff_ne.2 hv.not_close
  rw [operandBehind, next?_gaps hh (scan_eq_singleton hv.token)]
  simp only [hopen, hclose, hv.not_keyword, Option.isSome_none, Bool.or_self, Bool.false_eq_true,
    if_false, operand_end]

theorem readAt_attached [Regex.Engine] (hj : Joins f o v) :
    readAt o f v [] = (meaning f o v, []) := by
  have hvalue := hj.value
  rw [readAt, meaning]
  cases hfield : fieldName? f with
  | none => rfl
  | some field =>
    simp only [Option.bind_some]
    cases ht : o.takesValue with
    | false =>
      rw [ht, if_neg Bool.false_ne_true] at hvalue
      simp [hvalue]
    | true =>
      rw [ht, if_pos rfl] at hvalue
      simp [hvalue.ne_nil, operand_end]

/-- Behind a field that can be read, an operand that stands apart is read all the same. -/
theorem readAt_apart [Regex.Engine] (hj : Joins f o v) (hh : ∀ c ∈ h, Text.isGap c = true)
    {field : Text} (hfield : fieldName? f = some field) :
    ∃ left, readAt o f [] (h ++ v) = (meaning f o v, left) ∧ ∀ c ∈ left, Text.isGap c = true := by
  have hvalue := hj.value
  simp only [readAt, meaning, hfield, Option.bind_some]
  cases ht : o.takesValue with
  | false =>
    rw [ht, if_neg Bool.false_ne_true] at hvalue
    subst hvalue
    exact ⟨h ++ [], rfl, by simpa using hh⟩
  | true =>
    refine ⟨[], ?_, fun c hc => absurd hc List.not_mem_nil⟩
    simp [hj.operandBehind_gaps ht hh]

end Joins

end Condition

open Condition

/-- Wherever white space stands around the operator, the comparison of its two sides is all that is
read; only behind a field that cannot be read, an operand that stands apart is read on its own. -/
theorem Request.read_spaced [Regex.Engine] {f v g h : Text} {o : Operator} (hj : Joins f o v)
    (hg : ∀ c ∈ g, Text.isGap c = true) (hh : ∀ c ∈ h, Text.isGap c = true) :
    Request.read (f ++ (g ++ (o.symbol ++ (h ++ v)))) =
      if fieldName? f = none ∧ h ≠ [] then Request.read v
      else ⟨meaning f o v, [], Page.none, []⟩ := by
  rw [Request.read, Outline.read]
  by_cases hgap : h = []
  · subst hgap
    rw [List.nil_append, hj.headed.readFrom hg hj.spanWord_attached hj.readAt_attached,
      Outline.readFrom_nil, Outline.assemble_leaf?, if_neg (by simp)]
    rfl
  · have hspan : Lexeme.spanWord .outside (h ++ v) = ([], h ++ v) :=
      Lexeme.spanWord_atBreak (Lexeme.atBreak_gaps hh hgap v)
    cases hfield : fieldName? f with
    | some field =>
      obtain ⟨left, hread, hleft⟩ := hj.readAt_apart hh hfield
      rw [hj.headed_nil.readFrom hg hspan hread, Outline.readFrom_allGap hleft,
        Outline.assemble_leaf?, if_neg (by simp)]
      rfl
    | none =>
      have hread : readAt o f [] (h ++ v) = (none, h ++ v) := by rw [readAt, hfield]
      rw [hj.headed_nil.readFrom hg hspan hread, Outline.readFrom_gaps hh, if_pos ⟨rfl, hgap⟩]
      rfl

/-- An operand that stands apart is read with a quoted field, but not behind a field that goes on
after its closing quote mark. -/
theorem Request.read_spaced_quoted_field :
    letI := Regex.Engine.words
    (Joins "\"a b\"".toList (.compare .gt) "25".toList ∧
      Request.read "\"a b\" > \t25".toList =
        ⟨some (.leaf "a b".toList (.compare .gt (.int 25))), [], Page.none, []⟩) ∧
    (Joins "\"a\"b".toList (.compare .eq) "c=1".toList ∧
      Request.read "\"a\"b= c=1".toList = Request.read "c=1".toList ∧
      Request.read "\"a\"b=c=1".toList = ⟨none, [], Page.none, []⟩) := by
  let engine := Regex.Engine.words
  have hquoted : Joins "\"a b\"".toList (.compare .gt) "25".toList := by decide +kernel
  have hunread : Joins "\"a\"b".toList (.compare .eq) "c=1".toList := by decide +kernel
  have hnothing : ∀ c ∈ ([] : Text), Text.isGap c = true := List.all_eq_true.1 rfl
  have hspace : ∀ c ∈ " ".toList, Text.isGap c = true := List.all_eq_true.1 rfl
  have hspaces : ∀ c ∈ " \t".toList, Text.isGap c = true := List.all_eq_true.1 rfl
  have hspaced := read_spaced hquoted hspace hspaces
  have happart := read_spaced hunread hnothing hspace
  have hjoined := read_spaced hunread hnothing hnothing
  have hmeaning : meaning "\"a b\"".toList (.compare .gt) "25".toList =
      some (.leaf "a b".toList (.compare .gt (.int 25))) := by rfl
  have hnone : fieldName? "\"a\"b".toList = none := by decide
  rw [if_neg (by decide), hmeaning] at hspaced
  rw [if_pos ⟨hnone, by decide⟩] at happart
  rw [if_neg (by simp), meaning, hnone] at hjoined
  exact ⟨⟨hquoted, hspaced⟩, hunread, happart, hjoined⟩

end FilterQuery
