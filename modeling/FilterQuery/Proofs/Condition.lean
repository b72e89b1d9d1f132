import FilterQuery.Outline
import FilterQuery.Proofs.Inherited
set_option autoImplicit false

/-!
Comparisons read back. A leaf is legible when its operator is the first one in its text, its field
reads as itself and nothing in the field ends a token; its text is then read as the leaf, whatever
follows it. Fields without white space, quote marks, parentheses and operator characters make every
leaf legible.
-/

namespace FilterQuery

structure PlainField (f : Text) : Prop where
  ne_nil : f ≠ []
  not_blank : ∀ c ∈ f, Text.isBlank c = false
  not_reserved : ∀ c ∈ f, c ∉ ['(', ')', '"', '=', '<', '>', '!']
  not_point : f.getLast? ≠ some '.'
  not_sort : f ≠ "sort".toList
  not_page : f ≠ "page".toList

instance (f : Text) : Decidable (PlainField f) :=
  decidable_of_iff (f ≠ [] ∧ f.all (fun c => !Text.isBlank c) = true ∧
      f.all (fun c => !(['(', ')', '"', '=', '<', '>', '!'].contains c)) = true ∧
      f.getLast? ≠ some '.' ∧ f ≠ "sort".toList ∧ f ≠ "page".toList)
    ⟨fun ⟨h, hb, hr, hp, hs, hg⟩ => ⟨h, by simpa using hb, by simpa using hr, hp, hs, hg⟩,
      fun ⟨h, hb, hr, hp, hs, hg⟩ => ⟨h, by simpa using hb, by simpa using hr, hp, hs, hg⟩⟩

/-- A leaf whose text names its field, its operator and its operand. -/
structure Legible (f : Text) (t : Test) : Prop where
  passable : Passable Lexeme.breaks f
  found : Operator.find? (f ++ t.write) = some (f, t.operator, t.operand)
  named : Condition.fieldName? f = some f
  not_sort : sortMark.isPrefixOf? (f ++ t.write) = none
  not_page : pageMark.isPrefixOf? (f ++ t.write) = none

instance (f : Text) (t : Test) : Decidable (Legible f t) :=
  decidable_of_iff ((QuoteState.outside.after f = .outside ∧
      (QuoteState.outside.marks f).all (fun m => !m.2 || !Lexeme.breaks m.1) = true) ∧
      Operator.find? (f ++ t.write) = some (f, t.operator, t.operand) ∧
      Condition.fieldName? f = some f ∧ sortMark.isPrefixOf? (f ++ t.write) = none ∧
      pageMark.isPrefixOf? (f ++ t.write) = none)
    ⟨fun ⟨⟨ha, hm⟩, hf, hn, hs, hp⟩ => ⟨⟨ha, fun m hm' hs' => by
        simpa [hs'] using List.all_eq_true.1 hm m hm'⟩, hf, hn, hs, hp⟩,
      fun ⟨⟨ha, hm⟩, hf, hn, hs, hp⟩ => ⟨⟨ha, List.all_eq_true.2 fun m hm' => by
        cases hs' : m.2 with
        | true => simp [hm m hm' hs']
        | false => rfl⟩, hf, hn, hs, hp⟩⟩

namespace Operator

def starts (c : Char) : Bool := c = '=' || c = '<' || c = '>' || c = '!' || c = '.'

theorem symbol_head (o : Operator) : ∃ d u, o.symbol = d :: u ∧ starts d = true := by
  cases o with
  | compare c => cases c <;> exact ⟨_, _, rfl, by decide⟩
  | pattern k => cases k <;> exact ⟨_, _, rfl, by decide⟩
  | notLike => exact ⟨_, _, rfl, by decide⟩
  | notRegex => exact ⟨_, _, rfl, by decide⟩
  | member n => cases n <;> exact ⟨_, _, rfl, by decide⟩
  | between => exact ⟨_, _, rfl, by decide⟩
  | null n => cases n <;> exact ⟨_, _, rfl, by decide⟩

theorem leading?_eq_none {c : Char} (h : starts c = false) (t : Text) :
    leading? (c :: t) = none := by
  refine List.find?_eq_none.2 fun o ho hstarts => ?_
  obtain ⟨d, u, hsymbol, hd⟩ := symbol_head o
  rw [hsymbol, List.isPrefixOf_iff_prefix, List.cons_prefix_cons] at hstarts
  rw [hstarts.1, h] at hd
  cases hd

theorem leading?_point {c : Char} (h : c ≠ '=') (t : Text) : leading? ('.' :: c :: t) = none := by
  have hsame : leading? (['.'] ++ c :: t) = leading? ['.'] := by
    refine List.find?_congr fun o ho => isPrefixOf_append_cons ?_ t
    have hnext : table.all (fun o => o.symbol.all fun e => !(['.', e].isPrefixOf o.symbol) ||
        e == '=') = true := by
      decide
    by_contra hc
    rw [Bool.not_eq_false] at hc
    have hmem : c ∈ o.symbol := (List.isPrefixOf_iff_prefix.1 hc).subset (by simp)
    have hc' := List.all_eq_true.1 (List.all_eq_true.1 hnext o ho) c hmem
    change ['.', c].isPrefixOf o.symbol = true at hc
    rw [hc, Bool.not_true, Bool.false_or, beq_iff_eq] at hc'
    exact h hc'
  exact hsame.trans (by decide)

theorem find?_symbol {o : Operator} {operand : Text} (h : leading? (o.symbol ++ operand) = some o) :
    find? (o.symbol ++ operand) = some ([], o, operand) := by
  obtain ⟨c, u, hsymbol, hc⟩ := symbol_head o
  have hquote : c ≠ '"' := by
    rintro rfl
    exact absurd hc (by decide)
  have hdrop : (o.symbol ++ operand).drop o.symbol.length = operand := List.drop_left
  rw [find?]
  rw [hsymbol] at h hdrop ⊢
  rw [List.cons_append] at h hdrop ⊢
  rw [findFrom, if_pos (QuoteState.structural_outside hquote), h]
  simp only [hsymbol, hdrop]

/-- No operator starts at a character of a plain field. A point at the field's end could be the
start of one, with an equals sign behind it. -/
theorem leading?_field {c : Char} {f : Text}
    (hreserved : ∀ d ∈ c :: f, d ∉ ['(', ')', '"', '=', '<', '>', '!']) {o : Operator}
    (hpoint : (c :: f).getLast? = some '.' → o.symbol.head? ≠ some '=') (operand : Text) :
    leading? (c :: (f ++ (o.symbol ++ operand))) = none := by
  rw [List.forall_mem_cons] at hreserved
  obtain ⟨hc, hreserved⟩ := hreserved
  by_cases hdot : c = '.'
  · subst hdot
    cases f with
    | nil =>
      obtain ⟨d, u, hsymbol, -⟩ := symbol_head o
      have hd := hpoint rfl
      rw [hsymbol, List.head?_cons, ne_eq, Option.some.injEq] at hd
      rw [hsymbol, List.nil_append, List.cons_append]
      exact leading?_point hd _
    | cons d f =>
      have hd := hreserved d (List.mem_cons_self ..)
      refine leading?_point ?_ _
      rintro rfl
      exact absurd hd (by decide)
  · simp only [List.mem_cons, List.not_mem_nil, or_false, not_or] at hc
    obtain ⟨-, -, -, heq, hlt, hgt, hnot⟩ := hc
    exact leading?_eq_none (by simp [starts, heq, hlt, hgt, hnot, hdot]) _

theorem find?_append_field {f : Text} (hreserved : ∀ c ∈ f, c ∉ ['(', ')', '"', '=', '<', '>', '!'])
    {o : Operator} (hpoint : f.getLast? = some '.' → o.symbol.head? ≠ some '=') {operand : Text}
    (h : leading? (o.symbol ++ operand) = some o) :
    find? (f ++ (o.symbol ++ operand)) = some (f, o, operand) := by
  induction f with
  | nil => exact find?_symbol h
  | cons c f ih =>
    have hnone := leading?_field hreserved hpoint operand
    rw [List.forall_mem_cons] at hreserved
    have hquote : c ≠ '"' := by
      rintro rfl
      exact absurd hreserved.1 (by decide)
    have hlast : f.getLast? = some '.' → o.symbol.head? ≠ some '=' := by
      cases f with
      | nil => simp
      | cons d f => simpa [List.getLast?_cons_cons] using hpoint
    have hrest := ih hreserved.2 hlast
    rw [find?] at hrest ⊢
    rw [List.cons_append, findFrom, if_pos (QuoteState.structural_outside hquote), hnone,
      QuoteState.next_outside hquote, hrest]
    rfl

end Operator

namespace Condition

theorem fieldName?_bare {f : Text} (hne : f ≠ []) (hblank : ∀ c ∈ f, Text.isBlank c = false)
    (hquote : ∀ c ∈ f, c ≠ '"') : fieldName? f = some f := by
  have htrim : Text.trim f = f := by
    refine Text.Trimmed.trim_eq ⟨fun c hc => ?_, fun c hc => ?_⟩
    · exact hblank c (List.mem_of_mem_head? hc)
    · exact hblank c (List.mem_of_mem_getLast? hc)
  obtain ⟨c, u, rfl⟩ := List.exists_cons_of_ne_nil hne
  simp [fieldName?, htrim, hquote c (List.mem_cons_self ..)]

theorem fieldName?_plain {f : Text} (h : PlainField f) : fieldName? f = some f := by
  refine fieldName?_bare h.ne_nil h.not_blank fun c hc hquote => ?_
  subst hquote
  exact absurd (h.not_reserved _ hc) (by decide)

theorem trimmed_of_fieldName? {f : Text} (h : fieldName? f = some f) : f ≠ [] ∧ Text.Trimmed f := by
  have hlength := Text.length_trim_le f
  have htrimmed := Text.trimmed_trim f
  rw [fieldName?] at h
  split at h
  · cases h
  · rename_i c r heq
    split at h
    · obtain ⟨hread, -⟩ := Option.filter_eq_some_iff.1 h
      have hcontent := Quoted.length_read hread
      rw [heq] at hlength
      omega
    · cases h
      exact ⟨List.cons_ne_nil c r, heq ▸ htrimmed⟩

/-- The mark of a section starts a leaf's text only when the word before its sign is the field. -/
theorem eq_of_mark_prefix {word f t : Text} {d : Char} (hd : Operator.starts d = true)
    (hword : word.any Operator.starts = false) (hf : ∀ c ∈ f, c ≠ '=')
    (h : word ++ ['='] <+: f ++ d :: t) : f = word := by
  induction word generalizing f with
  | nil =>
    cases f with
    | nil => rfl
    | cons c f =>
      rw [List.nil_append, List.cons_append, List.cons_prefix_cons] at h
      exact absurd h.1.symm (hf c (List.mem_cons_self ..))
  | cons e word ih =>
    rw [List.any_cons, Bool.or_eq_false_iff] at hword
    cases f with
    | nil =>
      rw [List.cons_append, List.nil_append, List.cons_prefix_cons] at h
      rw [← h.1, hword.1] at hd
      cases hd
    | cons c f =>
      rw [List.cons_append, List.cons_append, List.cons_prefix_cons] at h
      rw [List.forall_mem_cons] at hf
      rw [h.1, ih hword.2 hf.2 h.2]

end Condition

theorem PlainField.legible [Regex.Engine] {f : Text} (h : PlainField f) {t : Test}
    (ht : t.Writable) : Legible f t := by
  have hequal : ∀ c ∈ f, c ≠ '=' := by
    rintro c hc rfl
    exact absurd (h.not_reserved _ hc) (by decide)
  have hmark : ∀ word : Text, word.any Operator.starts = false → f ≠ word →
      (word ++ ['=']).isPrefixOf? (f ++ t.write) = none := by
    intro word hword hne
    obtain ⟨d, u, hsymbol, hd⟩ := t.operator.symbol_head
    refine Text.isPrefixOf?_eq_none_iff.2 fun hstarts => hne ?_
    rw [t.write_eq, hsymbol, List.cons_append] at hstarts
    exact Condition.eq_of_mark_prefix hd hword hequal hstarts
  have hleading : Operator.leading? (t.operator.symbol ++ t.operand) = some t.operator := by
    rw [← t.write_eq]
    exact Operator.leading?_write ht
  refine ⟨passable_of_forall fun c hc => ?_, ?_, Condition.fieldName?_plain h, ?_, ?_⟩
  · have hne := h.not_reserved c hc
    simp only [List.mem_cons, List.not_mem_nil, or_false, not_or] at hne
    exact ⟨hne.2.2.1, Lexeme.breaks_of_not_blank (h.not_blank c hc)
      (by simp [isParenthesis, hne.1, hne.2.1])⟩
  · rw [t.write_eq]
    exact Operator.find?_append_field h.not_reserved (fun hpoint => absurd hpoint h.not_point)
      hleading
  · exact hmark "sort".toList (by decide) h.not_sort
  · exact hmark "page".toList (by decide) h.not_page

namespace Condition

theorem gatherList_balanced {taken : Text} (h : bracketBalance .outside taken = 0) (rest : Text) :
    gatherList taken rest = (taken, rest) := by
  rw [gatherList, if_neg (by omega)]

theorem operand_ne_nil [Regex.Engine] {t : Test} (ht : t.Writable)
    (h : t.operator.takesValue = true) : t.operand ≠ [] := by
  cases t with
  | compare c v =>
    obtain ⟨l, hl, hwrite, -⟩ := Literal.exists_of_writable (v := v) ht
    rw [Test.operand, ← hwrite]
    exact Literal.write_ne_nil hl
  | pattern k p => exact List.cons_ne_nil _ _
  | member n vs =>
    rw [Test.operand, Value.write_list]
    exact List.cons_ne_nil _ _
  | between low high => simp [Test.operand, rangeMark]
  | null n => cases h

theorem read_leaf [Regex.Engine] {f : Text} {t : Test} (h : Legible f t) (ht : t.Writable)
    (rest : Text) : read (f ++ t.write) rest = (some (.leaf f t), rest) := by
  rw [read, h.found]
  simp only [readAt, h.named]
  by_cases hvalue : t.operator.takesValue = true
  · have hoperand : operand t.operator t.operand rest = (t.operand, rest) := by
      rw [operand]
      split
      · exact gatherList_balanced (inherited_bracketBalance.operand ht).2 rest
      · rfl
    rw [if_neg (by simp [hvalue]), if_pos (operand_ne_nil ht hvalue), hoperand]
    simp only [build_operand ht]
  · have hbuild := build_operand ht f
    have hnil : t.operand = [] := by
      cases t with
      | null n => rfl
      | _ => exact absurd rfl hvalue
    rw [hnil] at hbuild
    rw [if_pos (by simpa using hvalue), hbuild]

theorem keyword?_leaf {f : Text} {t : Test} (h : Legible f t) :
    Keyword.ofText? (f ++ t.write) = none := by
  have hne : ∀ word : Text, Operator.find? word = none → f ++ t.write ≠ word := by
    rintro word hword rfl
    rw [h.found] at hword
    cases hword
  have hand := hne Junction.and.word (by decide)
  have hor := hne Junction.or.word (by decide)
  have hnot := hne notWord (by decide)
  simp [Keyword.ofText?, hand, hor, hnot]

theorem loadMark_leaf [Regex.Engine] {f : Text} {t : Test} (h : Legible f t) (ht : t.Writable) :
    loadMark.isPrefixOf? (f ++ t.write) = none := by
  refine Text.isPrefixOf?_eq_none_iff.2 ?_
  rintro ⟨rest, hrest⟩
  have hfound : Operator.find? (loadMark ++ rest) =
      some ("load".toList, .compare .eq, '[' :: rest) := rfl
  rw [hrest, h.found] at hfound
  cases t with
  | compare c v =>
    obtain ⟨l, hl, hwrite, -⟩ := Literal.exists_of_writable (v := v) ht
    obtain ⟨d, u, hhead, hd⟩ := Literal.write_head hl
    have hbracket : '[' = d := by
      simp only [Option.some.injEq, Prod.mk.injEq, Test.operand, ← hwrite, hhead] at hfound
      exact (List.cons.inj hfound.2.2).1.symm
    subst hbracket
    exact absurd hd (by decide)
  | _ => simp [Test.operator] at hfound

end Condition

end FilterQuery
