import FilterQuery.Proofs.Repair
import FilterQuery.Proofs.Spacing
set_option autoImplicit false

/-!
Layouts of a set. Its items may stand in brackets or in parentheses, with white space around each of
them, around the commas and around the operator. However many tokens a layout takes, one set is
read from it, and the text behind it is read from its start.
-/

namespace FilterQuery

open QuoteState

structure Spaces where
  text : Text
  gap : ∀ c ∈ text, Text.isGap c = true

theorem Spaces.blank (s : Spaces) : ∀ c ∈ s.text, Text.isBlank c = true :=
  fun c hc => Text.isBlank_of_isGap c (s.gap c hc)

theorem Spaces.passable (s : Spaces) {p : Char → Bool}
    (hgap : ∀ c, Text.isGap c = true → p c = false) : Passable p s.text :=
  ⟨closed_of_blank s.blank, clear_of_forall _ fun c hc => hgap c (s.gap c hc)⟩

theorem Bracket.isDelimiter_of_isParenthesis {c : Char} (h : isParenthesis c = true) :
    isDelimiter c = true := by
  simp only [isParenthesis, Bool.or_eq_true, decide_eq_true_eq] at h
  rcases h with rfl | rfl <;> decide

structure NextItem where
  before : Spaces
  behind : Spaces
  value : Value

def NextItem.write (i : NextItem) : Text := i.before.text ++ ',' :: (i.behind.text ++ i.value.write)

structure ItemRow where
  first : Value
  more : List NextItem

namespace ItemRow

def values (r : ItemRow) : List Value := r.first :: r.more.map NextItem.value

def write (r : ItemRow) : Text := r.first.write ++ r.more.flatMap NextItem.write

theorem write_cons (v : Value) (i : NextItem) (more : List NextItem) :
    write ⟨v, i :: more⟩ =
      v.write ++ (i.before.text ++ ',' :: (i.behind.text ++ write ⟨i.value, more⟩)) := by
  simp [write, NextItem.write]

/-- What a row of items inherits from its items and the marks between them. -/
theorem passable {p : Char → Bool} (hplain : ∀ c, Text.isPlain c = true → p c = false)
    (hgap : ∀ c, Text.isGap c = true → p c = false) (hcomma : p ',' = false) {r : ItemRow}
    (h : ∀ v ∈ r.values, v.Writable) : Passable p r.write := by
  obtain ⟨v, more⟩ := r
  have hvalue : ∀ {u : Value}, u.Writable → Passable p u.write := by
    intro u hu
    obtain ⟨l, hl, hwrite, -⟩ := Literal.exists_of_writable hu
    exact hwrite ▸ ⟨Literal.closed_write hl, Literal.clear_write hplain hl⟩
  induction more generalizing v with
  | nil => simpa [write] using hvalue (h v (List.mem_cons_self ..))
  | cons i more ih =>
    rw [values, List.forall_mem_cons] at h
    have hrest := ih i.value h.2
    rw [write_cons]
    exact (hvalue h.1).append ((i.before.passable hgap).append
      ((passable_singleton (by decide) hcomma).append ((i.behind.passable hgap).append hrest)))

theorem write_head {r : ItemRow} (h : ∀ v ∈ r.values, v.Writable) :
    ∃ c t, r.write = c :: t ∧ (c = '"' ∨ Text.isPlain c = true) := by
  obtain ⟨l, hl, hwrite, -⟩ := Literal.exists_of_writable (h r.first (List.mem_cons_self ..))
  obtain ⟨c, t, hhead, hc⟩ := Literal.write_head hl
  exact ⟨c, t ++ r.more.flatMap NextItem.write, by rw [write, ← hwrite, hhead, List.cons_append], hc⟩

theorem write_last {r : ItemRow} (h : ∀ v ∈ r.values, v.Writable) :
    ∃ t c, r.write = t ++ [c] ∧ (c = '"' ∨ Text.isPlain c = true) := by
  obtain ⟨v, more⟩ := r
  induction more generalizing v with
  | nil =>
    obtain ⟨l, hl, hwrite, -⟩ := Literal.exists_of_writable (h v (List.mem_cons_self ..))
    simpa [write, hwrite] using Literal.write_last hl
  | cons i more ih =>
    rw [values, List.forall_mem_cons] at h
    obtain ⟨t, c, hlast, hc⟩ := ih i.value h.2
    exact ⟨v.write ++ (i.before.text ++ ',' :: (i.behind.text ++ t)), c, by
      rw [write_cons, hlast]; simp, hc⟩

theorem trimmed_write {r : ItemRow} (h : ∀ v ∈ r.values, v.Writable) : Text.Trimmed r.write := by
  obtain ⟨c, t, hhead, hc⟩ := write_head h
  obtain ⟨u, d, hlast, hd⟩ := write_last h
  refine ⟨?_, ?_⟩
  · simpa [hhead] using Literal.isBlank_of_edge hc
  · simpa [hlast] using Literal.isBlank_of_edge hd

theorem readItems_write {r : ItemRow} (h : ∀ v ∈ r.values, v.Writable) {g b t : Text}
    (hg : ∀ c ∈ g, Text.isBlank c = true) (hb : ∀ c ∈ b, Text.isBlank c = true)
    (ht : ∀ c ∈ t.head?, c = ']') :
    ∃ ls, Literal.readItems (g ++ (r.write ++ (b ++ t))) = (ls, t) ∧
      ls.map Literal.value = r.values := by
  obtain ⟨v, more⟩ := r
  induction more generalizing v g with
  | nil =>
    obtain ⟨l, hl, hwrite, hvalue⟩ := Literal.exists_of_writable (h v (List.mem_cons_self ..))
    have hitem := Literal.readItem_padded hl hg hb fun c hc => .inr (ht c hc)
    have hend : t.head? ≠ some ',' := fun hcomma => absurd (ht ',' hcomma) (by decide)
    refine ⟨[l], ?_, by simp [values, hvalue]⟩
    simpa [write, hwrite] using Literal.readItems_last hend hitem
  | cons i more ih =>
    rw [values, List.forall_mem_cons] at h
    obtain ⟨l, hl, hwrite, hvalue⟩ := Literal.exists_of_writable h.1
    obtain ⟨ls, hrest, hvalues⟩ := ih i.behind.blank i.value h.2
    have hitem := Literal.readItem_padded hl hg i.before.blank
      (t := ',' :: (i.behind.text ++ (write ⟨i.value, more⟩ ++ (b ++ t)))) (by simp)
    have happ : g ++ (write ⟨v, i :: more⟩ ++ (b ++ t)) =
        g ++ (l.write ++ (i.before.text ++
          ',' :: (i.behind.text ++ (write ⟨i.value, more⟩ ++ (b ++ t))))) := by
      simp [write_cons, hwrite]
    refine ⟨l :: ls, ?_, by simp [values, hvalue, hvalues]⟩
    rw [happ, Literal.readItems_comma hitem, hrest]

end ItemRow

/-- A way to write a set: in brackets or in parentheses, with white space on either side of the
operator and inside the brackets at both ends. -/
structure SetLayout where
  bracketed : Bool
  before : Spaces
  behind : Spaces
  lead : Spaces
  row : ItemRow
  trail : Spaces

namespace SetLayout

def values (l : SetLayout) : List Value := l.row.values

def inner (l : SetLayout) : Text := l.lead.text ++ (l.row.write ++ l.trail.text)

def operand (l : SetLayout) : Text :=
  if l.bracketed then '[' :: (l.inner ++ [']']) else '(' :: (l.inner ++ [')'])

def write (l : SetLayout) (f : Text) (negated : Bool) : Text :=
  f ++ (l.before.text ++ (memberSymbol negated ++ (l.behind.text ++ l.operand)))

variable {l : SetLayout}

theorem passable_inner (h : ∀ v ∈ l.values, v.Writable) : Passable Bracket.isDelimiter l.inner := by
  have hgap : ∀ c, Text.isGap c = true → Bracket.isDelimiter c = false :=
    fun c hc => Repair.not_delimiter_of_blank (Text.isBlank_of_isGap c hc)
  have hplain : ∀ c, Text.isPlain c = true → Bracket.isDelimiter c = false := by
    intro c hc
    have hne : ∀ d, Text.isPlain d = false → c ≠ d := fun d hd => Text.ne_of_isPlain hc hd
    simp [Bracket.isDelimiter, hne '(' (by decide), hne ')' (by decide), hne '[' (by decide),
      hne ']' (by decide), hne '"' (by decide)]
  exact (l.lead.passable hgap).append
    ((ItemRow.passable hplain hgap (by decide) h).append (l.trail.passable hgap))

theorem trim_inner (h : ∀ v ∈ l.values, v.Writable) : Text.trim l.inner = l.row.write := by
  obtain ⟨hfirst, hlast⟩ := ItemRow.trimmed_write h
  obtain ⟨c, t, hhead, -⟩ := ItemRow.write_head h
  have hstart : Text.trimStart l.inner = l.row.write ++ l.trail.text :=
    Text.trimStart_padded l.lead.blank (by simpa [hhead] using hfirst)
  rw [Text.trim, hstart, Text.trimEnd, List.reverse_append, ← Text.trimStart,
    Text.trimStart_padded (by simpa using l.trail.blank) (by simpa using hlast), List.reverse_reverse]

theorem set?_operand (h : ∀ v ∈ l.values, v.Writable) :
    Literal.set? l.operand = some l.values := by
  have htrim : ∀ {c d : Char}, Text.isBlank c = false → Text.isBlank d = false →
      Text.trim (c :: (l.inner ++ [d])) = c :: (l.inner ++ [d]) := fun hc hd =>
    Text.Trimmed.trim_eq ⟨by simpa using hc, by simpa [List.getLast?_cons] using hd⟩
  rw [operand]
  cases l.bracketed with
  | true =>
    obtain ⟨ls, hitems, hvalues⟩ := ItemRow.readItems_write h l.lead.blank l.trail.blank
      (t := [']']) (by simp)
    have hstrip : Literal.stripGroup ('[' :: (l.inner ++ [']'])) = '[' :: (l.inner ++ [']']) := by
      rw [Literal.stripGroup, htrim (by decide) (by decide)]
      rfl
    have hinner : l.inner ++ [']'] = l.lead.text ++ (l.row.write ++ (l.trail.text ++ [']'])) := by
      simp [inner]
    rw [if_pos rfl, Literal.set?, hstrip]
    simp only [Literal.readList, hinner, hitems, List.all_nil, if_true, Option.map_some, hvalues]
    rfl
  | false =>
    obtain ⟨ls, hitems, hvalues⟩ := ItemRow.readItems_write h (g := []) (b := []) (t := [])
      (by simp) (by simp) (by simp)
    have hstrip : Literal.stripGroup ('(' :: (l.inner ++ [')'])) = l.row.write := by
      rw [Literal.stripGroup, htrim (by decide) (by decide)]
      simp [trim_inner h]
    obtain ⟨c, t, hhead, hc⟩ := ItemRow.write_head h
    have hbracket : c ≠ '[' := by
      rcases hc with rfl | hc
      · decide
      · exact Text.ne_of_isPlain hc (by decide)
    rw [List.nil_append, List.append_nil, List.append_nil] at hitems
    rw [if_neg Bool.false_ne_true, Literal.set?, hstrip]
    rw [hhead] at hitems ⊢
    simp [Literal.readList, hbracket, hitems, hvalues, values]

end SetLayout

namespace Lexeme

theorem not_group_of_clear {t : Text} {l : Lexeme} (ht : outside.Clear isParenthesis t)
    (h : next? t = some l) : l.isGroupOpen = false ∧ l.isGroupClose = false := by
  have hgap := closed_gap (isGap_of_next? h)
  rw [← append_of_next? h, List.append_assoc, clear_append, hgap, clear_append] at ht
  have hne : ∀ c, isParenthesis c = true → c ≠ '"' → l.text ≠ [c] := by
    intro c hc hquote heq
    have hclear := ht.2.1
    rw [heq, clear_cons, structural_iff] at hclear
    rw [hclear.1 ⟨rfl, hquote⟩] at hc
    cases hc
  exact ⟨beq_eq_false_iff_ne.2 (hne '(' (by decide) (by decide)),
    beq_eq_false_iff_ne.2 (hne ')' (by decide) (by decide))⟩

theorem passable_rest {p : Char → Bool} {t : Text} {l : Lexeme} (ht : Passable p t)
    (h : next? t = some l) : Passable p l.rest := by
  obtain ⟨hgap, htext⟩ := closed_of_next? ht.1 h
  rw [← append_of_next? h] at ht
  exact (ht.of_append (hgap.append htext)).2

end Lexeme

namespace Condition

open Lexeme

theorem gatherGroup_flat {w : Text} (hw : Passable isParenthesis w) (taken u : Text) :
    gatherGroup 1 taken (w ++ ')' :: u) = (taken ++ (w ++ [')']), u) := by
  induction hlength : w.length using Nat.strongRecOn generalizing w taken with
  | ind n ih =>
    cases hnext : next? w with
    | none =>
      rw [gatherGroup_next (next?_close_of_none hnext u)]
      simp [depthBehind, isGroupOpen, isGroupClose]
    | some k =>
      obtain ⟨hopen, hclose⟩ := not_group_of_clear hw.2 hnext
      have hdepth : depthBehind { k with rest := k.rest ++ ')' :: u } 1 = 1 := by
        simp only [depthBehind, isGroupOpen, isGroupClose] at hopen hclose ⊢
        simp [hopen, hclose]
      rw [gatherGroup_next (next?_append_break hw.1 hnext (atBreak_close u)), hdepth,
        if_neg Nat.one_ne_zero, ih _ (hlength ▸ length_rest_lt hnext) (passable_rest hw hnext) _ rfl]
      simp [← append_of_next? hnext]

theorem bracketBalance_front {t : Text} (ht : outside.Clear Bracket.isDelimiter t) :
    bracketBalance .outside ('[' :: t) = 1 := by
  have hflat : bracketBalance .outside t = 0 := bracketBalance_of_clear (ht.mono fun c hc => by
    simp only [Bool.or_eq_true, decide_eq_true_eq] at hc
    rcases hc with rfl | rfl <;> decide)
  have hopen : bracketBalance .outside ('[' :: t) = 1 + bracketBalance .outside t := rfl
  rw [hopen, hflat, add_zero]

theorem bracketBalance_list {t : Text} (ht : Passable Bracket.isDelimiter t) :
    bracketBalance .outside ('[' :: (t ++ [']'])) = 0 := by
  have hopen : outside.after ('[' :: t) = outside.after t := rfl
  rw [← List.cons_append, bracketBalance_append, bracketBalance_front ht.2, hopen, ht.1]
  rfl

/-- What has not been taken of such a list ends with its closing bracket. -/
theorem exists_beforeClosing {w front rest : Text} (happ : front ++ rest = w ++ [']'])
    (hrest : rest ≠ []) : ∃ before, rest = before ++ [']'] ∧ front ++ before = w := by
  obtain ⟨before, c, rfl⟩ := (List.eq_nil_or_concat' rest).resolve_left hrest
  rw [← List.append_assoc] at happ
  obtain ⟨hbefore, hlast⟩ := List.append_inj' happ rfl
  cases hlast
  exact ⟨before, rfl, hbefore⟩

/-- A list without further brackets ends at the first closing one, whatever part of it has been
taken. -/
theorem gatherList_flat {w u : Text} (hw : Passable Bracket.isDelimiter w) (hu : AtBreak u)
    {front rest : Text} (happ : front ++ rest = w ++ [']']) (hfront : Closed front) :
    gatherList ('[' :: front) (rest ++ u) = ('[' :: (w ++ [']']), u) := by
  -- by what is left of the list: until all is taken, its own bracket is open
  induction hlength : rest.length using Nat.strongRecOn generalizing front rest with
  | ind n ih =>
    by_cases hrest : rest = []
    · rw [hrest, List.append_nil] at happ
      rw [hrest, happ, gatherList_balanced (bracketBalance_list hw), List.nil_append]
    · obtain ⟨before, rfl, rfl⟩ := exists_beforeClosing happ hrest
      obtain ⟨hpassed, hbefore⟩ := hw.of_append hfront
      have hbalance : 0 < bracketBalance .outside ('[' :: front) := by
        rw [bracketBalance_front hpassed.2]
        decide
      have hbehind : Passable isParenthesis (before ++ [']']) := Passable.append
        ⟨hbefore.1, hbefore.2.mono fun _ => Bracket.isDelimiter_of_isParenthesis⟩
        (passable_singleton (by decide) (by decide))
      obtain ⟨k, hnext⟩ : ∃ k, next? (before ++ [']']) = some k := by
        refine Option.ne_none_iff_exists'.1 fun hnone => ?_
        exact absurd (isGap_of_next?_eq_none hnone ']' (by simp)) (by decide)
      obtain ⟨hopen, hclose⟩ := not_group_of_clear hbehind.2 hnext
      have hword : ¬(k.isGroupOpen || k.isGroupClose) = true := by simp [hopen, hclose]
      obtain ⟨hgap, htext⟩ := closed_of_next? hbehind.1 hnext
      have hparts : front ++ (k.gap ++ k.text) ++ k.rest = front ++ before ++ [']'] := by
        simpa using append_of_next? hnext
      have hmore := ih _ (hlength ▸ length_rest_lt hnext) hparts
        (hfront.append (hgap.append htext)) rfl
      rw [gatherList_next (next?_append_break hbehind.1 hnext hu) hbalance]
      exact (if_neg hword).trans (by simpa using hmore)

variable {l : SetLayout} {f u : Text}

/-- The first token of a bracketed layout, and how the operand is taken from there. -/
theorem exists_listToken (h : ∀ v ∈ l.values, v.Writable) (hu : AtBreak u) :
    ∃ front rest, spanWord .outside ('[' :: (l.inner ++ [']']) ++ u) = ('[' :: front, rest) ∧
      gatherList ('[' :: front) rest = ('[' :: (l.inner ++ [']']), u) := by
  have hinner := l.passable_inner h
  have hclosed : Closed (l.inner ++ [']']) := hinner.1.append (closed_singleton (by decide))
  have hparts := spanWord_append .outside (l.inner ++ [']'])
  have hfront : Closed (spanWord .outside (l.inner ++ [']'])).1 := by
    by_cases hrest : (spanWord .outside (l.inner ++ [']'])).2 = []
    · rw [hrest, List.append_nil] at hparts
      rwa [hparts]
    · exact after_spanWord hrest
  refine ⟨(spanWord .outside (l.inner ++ [']'])).1, (spanWord .outside (l.inner ++ [']'])).2 ++ u,
    ?_, gatherList_flat hinner hu hparts hfront⟩
  have hends : ends .outside '[' = false := by decide
  have hnext : outside.next '[' = outside := rfl
  rw [List.cons_append, spanWord, hends, hnext, spanWord_append_break hclosed hu]
  rfl

theorem operandBehind_layout (h : ∀ v ∈ l.values, v.Writable) (hu : AtBreak u) (n : Bool) :
    operandBehind (.member n) (l.behind.text ++ (l.operand ++ u)) = some (l.operand, u) := by
  rw [SetLayout.operand]
  cases l.bracketed with
  | true =>
    obtain ⟨front, rest, hspan, hlist⟩ := exists_listToken h hu
    have hnext : next? ('[' :: (l.inner ++ [']']) ++ u) = some ⟨[], '[' :: front, rest⟩ := by
      rw [List.cons_append] at hspan ⊢
      rw [next?_cons_of_not_gap (by decide), spanToken, if_neg (by decide), hspan]
    have hkeyword : Keyword.ofText? ('[' :: front) = none := by
      simp [Keyword.ofText?, Junction.word, notWord]
    rw [if_pos rfl, operandBehind, next?_gaps l.behind.gap hnext]
    simp [isGroupOpen, isGroupClose, hkeyword, Condition.operand, Operator.isSet, hlist]
  | false =>
    have hgroup : Passable isParenthesis l.inner := by
      obtain ⟨hclosed, hclear⟩ := l.passable_inner h
      exact ⟨hclosed, hclear.mono fun _ => Bracket.isDelimiter_of_isParenthesis⟩
    have hnext := next?_parenthesis (c := '(') (by decide) (l.inner ++ ')' :: u)
    have happ : '(' :: (l.inner ++ [')']) ++ u = '(' :: (l.inner ++ ')' :: u) := by simp
    rw [if_neg Bool.false_ne_true, happ, operandBehind, next?_gaps l.behind.gap hnext]
    simp [isGroupOpen, Operator.isSet, gatherGroup_flat hgroup]

/-- The operand of a set operator is the layout that stands behind it, attached or not. -/
theorem readAt_layout [Regex.Engine] (h : ∀ v ∈ l.values, v.Writable) (hf : fieldName? f = some f)
    (hu : AtBreak u) (n : Bool) :
    ∃ after rest, spanWord .outside (l.behind.text ++ (l.operand ++ u)) = (after, rest) ∧
      readAt (.member n) f after rest = (some (.leaf f (.member n l.values)), u) := by
  have hbuild : build (.member n) f l.operand = some (.leaf f (.member n l.values)) := by
    rw [build, l.set?_operand h, Option.map_some]
  by_cases hattached : l.behind.text = [] ∧ l.bracketed = true
  · obtain ⟨front, rest, hspan, hlist⟩ := exists_listToken h hu
    have hoperand : l.operand = '[' :: (l.inner ++ [']']) := if_pos hattached.2
    rw [hattached.1, List.nil_append, hoperand]
    rw [hoperand] at hbuild
    refine ⟨_, _, hspan, ?_⟩
    simp [readAt, hf, Operator.takesValue, Condition.operand, Operator.isSet, hlist, hbuild]
  · have hbreak : AtBreak (l.behind.text ++ (l.operand ++ u)) := by
      by_cases hgap : l.behind.text = []
      · have hgroup : l.operand = '(' :: (l.inner ++ [')']) :=
          if_neg fun hbracketed => hattached ⟨hgap, hbracketed⟩
        rw [hgap, hgroup]
        exact atBreak_cons (by decide)
      · exact atBreak_gaps l.behind.gap hgap _
    refine ⟨_, _, spanWord_atBreak hbreak, ?_⟩
    simp [readAt, hf, Operator.takesValue, operandBehind_layout h hu, hbuild]

end Condition

structure BareField (f : Text) : Prop where
  ne_nil : f ≠ []
  not_blank : ∀ c ∈ f, Text.isBlank c = false
  not_reserved : ∀ c ∈ f, c ∉ ['(', ')', '"', '=', '<', '>', '!']
  not_keyword : Keyword.ofText? f = none

instance (f : Text) : Decidable (BareField f) :=
  decidable_of_iff (f ≠ [] ∧ f.all (fun c => !Text.isBlank c) = true ∧
      f.all (fun c => !(['(', ')', '"', '=', '<', '>', '!'].contains c)) = true ∧
      Keyword.ofText? f = none)
    ⟨fun ⟨hn, hb, hr, hk⟩ => ⟨hn, by simpa using hb, by simpa using hr, hk⟩,
      fun ⟨hn, hb, hr, hk⟩ => ⟨hn, by simpa using hb, by simpa using hr, hk⟩⟩

namespace BareField

variable {f : Text}

theorem fieldName? (h : BareField f) : Condition.fieldName? f = some f := by
  refine Condition.fieldName?_bare h.ne_nil h.not_blank fun c hc hquote => ?_
  subst hquote
  exact absurd (h.not_reserved _ hc) (by decide)

/-- No mark of a section starts a text whose first sign is the start of another operator. -/
theorem not_mark (h : BareField f) {mark t : Text} {d : Char} (hequal : '=' ∈ mark)
    (hd : d ∉ mark) : ¬mark <+: f ++ d :: t := by
  intro hmark
  have hfield : f ++ [d] <+: f ++ d :: t := ⟨t, by simp⟩
  obtain hshort | hlong := List.prefix_or_prefix_of_prefix hmark hfield
  · have hmem : '=' ∈ f ++ [d] := hshort.subset hequal
    rw [List.mem_append, List.mem_singleton] at hmem
    obtain hmem | rfl := hmem
    · exact absurd (h.not_reserved _ hmem) (by decide)
    · exact hd hequal
  · exact hd (hlong.subset (by simp))

theorem headed (h : BareField f) (n : Bool) (after : Text) :
    Condition.Headed f (.member n) after := by
  have hleading : Operator.leading? (memberSymbol n ++ after) = some (.member n) := by
    cases n <;> rfl
  obtain ⟨symbol, hsymbol⟩ : ∃ symbol, memberSymbol n = '<' :: symbol := by
    cases n <;> exact ⟨_, rfl⟩
  have hmark : ∀ mark : Text, '=' ∈ mark → '<' ∉ mark →
      ¬mark <+: f ++ (memberSymbol n ++ after) := by
    intro mark hequal hless
    rw [hsymbol, List.cons_append]
    exact h.not_mark hequal hless
  refine ⟨h.ne_nil, clear_of_forall _ fun c hc => ?_, h.not_keyword, ?_,
    hmark _ (by decide) (by decide), hmark _ (by decide) (by decide), hmark _ (by decide) (by decide)⟩
  · have hne := h.not_reserved c hc
    simp only [List.mem_cons, List.not_mem_nil, or_false, not_or] at hne
    exact Lexeme.breaks_of_not_blank (h.not_blank c hc) (by simp [isParenthesis, hne.1, hne.2.1])
  · refine Operator.find?_append_field h.not_reserved (fun _ => ?_) hleading
    simp [Operator.symbol, hsymbol]

end BareField

section

variable [Regex.Engine]

namespace SetLayout

variable {f u : Text}

/-- A layout is read as its set, and nothing behind it is taken. -/
theorem readFrom_append (l : SetLayout) (hf : BareField f) (h : ∀ v ∈ l.values, v.Writable)
    (n : Bool) (hu : Lexeme.AtBreak u) (o : Outline) :
    o.readFrom (l.write f n ++ u) = (o.add (.leaf (.leaf f (.member n l.values)))).readFrom u := by
  obtain ⟨after, rest, hspan, hread⟩ := Condition.readAt_layout h hf.fieldName? hu n
  have happ : l.write f n ++ u =
      f ++ (l.before.text ++ (memberSymbol n ++ (l.behind.text ++ (l.operand ++ u)))) := by
    simp [write]
  rw [happ]
  exact (hf.headed n after).readFrom l.before.gap hspan hread o

theorem readFrom_and (l : SetLayout) (hf : BareField f) (h : ∀ v ∈ l.values, v.Writable)
    (n : Bool) (o : Outline) (u : Text) :
    o.readFrom (l.write f n ++ (" and ".toList ++ u)) =
      (o.addAll [.leaf (.leaf f (.member n l.values)), .word (.join .and)]).readFrom u := by
  have hspace : ∀ t, Lexeme.AtBreak (' ' :: t) := fun _ => Lexeme.atBreak_cons (by decide)
  have happ : " and ".toList ++ u = ' ' :: (Keyword.text (.join .and) ++ ' ' :: u) := rfl
  rw [happ, readFrom_append l hf h n (hspace _), Outline.readFrom_gap (by decide),
    Outline.readFrom_keyword _ _ (hspace _), Outline.readFrom_gap (by decide), Outline.addAll_cons,
    Outline.addAll_cons, Outline.addAll_nil]

end SetLayout

/-- Every layout of a set is read as the membership of the field in the same values, in order; what
follows behind `and` is read as if it started there, so that a comparison joins the membership. -/
theorem Request.read_layout (l : SetLayout) {f : Text} (hf : BareField f)
    (h : ∀ v ∈ l.values, v.Writable) (n : Bool) :
    Request.read (l.write f n) = ⟨some (.leaf f (.member n l.values)), [], Page.none, []⟩ ∧
      (∀ u, Outline.read (l.write f n ++ (" and ".toList ++ u)) =
        (Outline.empty.addAll [.leaf (.leaf f (.member n l.values)), .word (.join .and)]).readFrom
          u) ∧
      ∀ (a : Atom) (c rest : Text), a.valid = true → a.Spells c rest →
        (∀ d ∈ rest, Text.isGap d = true) →
        Request.read (l.write f n ++ (" and ".toList ++ c)) =
          ⟨some (.junction .and [.leaf f (.member n l.values), a.expr]), [], Page.none, []⟩ := by
  have hand := l.readFrom_and hf h n Outline.empty
  refine ⟨?_, hand, fun a c rest hvalid hspells hrest => ?_⟩
  · have hread := l.readFrom_append hf h n Lexeme.atBreak_nil Outline.empty
    rw [List.append_nil, Outline.readFrom_nil] at hread
    rw [Request.read, Outline.read, hread]
    rfl
  · rw [Request.read, Outline.read, hand, Outline.readFrom_atom hspells,
      Outline.readFrom_allGap hrest, Atom.heard, if_pos hvalid]
    rfl

end

/-- A group of two items, the second in a line of its own. -/
def twoLines : SetLayout where
  bracketed := false
  before := ⟨" ".toList, List.all_eq_true.1 rfl⟩
  behind := ⟨[], List.all_eq_true.1 rfl⟩
  lead := ⟨" ".toList, List.all_eq_true.1 rfl⟩
  row := ⟨.int 1, [⟨⟨"\t".toList, List.all_eq_true.1 rfl⟩, ⟨"\n".toList, List.all_eq_true.1 rfl⟩,
    .text "x, (y]".toList⟩]⟩
  trail := ⟨[], List.all_eq_true.1 rfl⟩

/-- Brackets, commas and parentheses in a quoted item close nothing. -/
theorem Request.read_layout_group :
    letI := Regex.Engine.words
    BareField "id".toList ∧ (∀ v ∈ twoLines.values, v.Writable) ∧
      Request.read "id <in>( 1\t,\n\"x, (y]\") and c=2".toList =
        ⟨some (.junction .and [
          .leaf "id".toList (.member false [.int 1, .text "x, (y]".toList]),
          .leaf "c".toList (.compare .eq (.int 2))]), [], Page.none, []⟩ := by
  let engine := Regex.Engine.words
  have hfield : BareField "id".toList := by decide
  have hvalues : ∀ v ∈ twoLines.values, v.Writable := by decide +kernel
  have hspells : Atom.Spells ⟨false, "c".toList, .compare .eq (.int 2), true⟩ "c=2".toList [] :=
    ⟨_, _, ⟨_, rfl⟩, by decide, rfl⟩
  have hread := (read_layout twoLines hfield hvalues false).2.2 _ _ _ rfl hspells (by simp)
  exact ⟨hfield, hvalues, hread⟩

end FilterQuery
