import FilterQuery.Proofs.Value
set_option autoImplicit false

/-!
Written literals read back: alone, as items of a set, and as the ends of a range. None of the
characters by which a reader of the surrounding text is guided is structural in them.
-/

namespace FilterQuery

namespace Text

theorem trimStart_of_head {t : Text} (h : ∀ c ∈ t.head?, isBlank c = false) : trimStart t = t := by
  cases t with
  | nil => rfl
  | cons c t => simp [trimStart, h c rfl]

theorem trimStart_padded {g t : Text} (hg : ∀ c ∈ g, isBlank c = true)
    (ht : ∀ c ∈ t.head?, isBlank c = false) : trimStart (g ++ t) = t := by
  rw [trimStart, List.dropWhile_append_of_pos hg]
  exact trimStart_of_head ht

theorem trimEnd_of_last {t : Text} (h : ∀ c ∈ t.getLast?, isBlank c = false) : trimEnd t = t := by
  have hrev : trimStart t.reverse = t.reverse := trimStart_of_head (by simpa using h)
  rw [trimEnd, show t.reverse.dropWhile isBlank = t.reverse from hrev, List.reverse_reverse]

def Trimmed (t : Text) : Prop :=
  (∀ c ∈ t.head?, isBlank c = false) ∧ ∀ c ∈ t.getLast?, isBlank c = false

theorem Trimmed.trim_eq {t : Text} (h : Trimmed t) : trim t = t := by
  rw [trim, trimStart_of_head h.1, trimEnd_of_last h.2]

theorem Trimmed.append {t u : Text} (ht : Trimmed t) (hu : Trimmed u) : Trimmed (t ++ u) := by
  constructor
  · intro c hc
    rw [List.head?_append] at hc
    rcases Option.or_eq_some_iff.1 hc with hc | ⟨-, hc⟩
    · exact ht.1 c hc
    · exact hu.1 c hc
  · intro c hc
    rw [List.getLast?_append] at hc
    rcases Option.or_eq_some_iff.1 hc with hc | ⟨-, hc⟩
    · exact hu.2 c hc
    · exact ht.2 c hc

theorem isBlank_head_dropWhile (t : Text) : ∀ c ∈ (t.dropWhile isBlank).head?, isBlank c = false := by
  intro c hc
  have h := List.head?_dropWhile_not isBlank t
  rw [hc] at h
  exact h

theorem trimEnd_initial (t : Text) : trimEnd t <+: t := by
  have h := List.dropWhile_suffix isBlank (l := t.reverse)
  rw [← List.reverse_prefix, List.reverse_reverse] at h
  exact h

theorem length_trim_le (t : Text) : (trim t).length ≤ t.length :=
  Nat.le_trans (trimEnd_initial (trimStart t)).length_le (List.dropWhile_suffix isBlank).length_le

theorem trimmed_trim (t : Text) : Trimmed (trim t) := by
  constructor
  · intro c hc
    obtain ⟨u, hu⟩ := trimEnd_initial (trimStart t)
    refine isBlank_head_dropWhile t c ?_
    rw [← trimStart, ← hu, List.head?_append]
    exact Option.or_eq_some_iff.2 (.inl hc)
  · intro c hc
    rw [trim, trimEnd, List.getLast?_reverse] at hc
    exact isBlank_head_dropWhile _ c hc

theorem append_trimEnd (t : Text) :
    ∃ b, trimEnd t ++ b = t ∧ ∀ c ∈ b, isBlank c = true := by
  refine ⟨(t.reverse.takeWhile isBlank).reverse, ?_, fun c hc => ?_⟩
  · rw [trimEnd, ← List.reverse_append, List.takeWhile_append_dropWhile, List.reverse_reverse]
  · exact List.all_eq_true.1 List.all_takeWhile c (List.mem_reverse.1 hc)

theorem append_trimStart (t : Text) :
    ∃ b, b ++ trimStart t = t ∧ ∀ c ∈ b, isBlank c = true :=
  ⟨t.takeWhile isBlank, List.takeWhile_append_dropWhile,
    List.all_eq_true.1 List.all_takeWhile⟩

end Text

namespace QuoteState

theorem closed_of_blank {b : Text} (h : ∀ c ∈ b, Text.isBlank c = true) : Closed b := by
  refine after_of_unquoted fun c hc hquote => ?_
  have hblank := h c hc
  rw [hquote] at hblank
  exact absurd hblank (by decide)

theorem after_of_blank {b : Text} (hb : ∀ c ∈ b, Text.isBlank c = true) {q : QuoteState}
    (h : q.after b = .outside) : q = .outside := by
  induction b generalizing q with
  | nil => exact h
  | cons c b ih =>
    rw [List.forall_mem_cons] at hb
    have hnext := ih hb.2 h
    have hquote : c ≠ '"' := by
      rintro rfl
      exact absurd hb.1 (by decide)
    have hslash : c ≠ '\\' := by
      rintro rfl
      exact absurd hb.1 (by decide)
    cases q <;> simp [next, hquote, hslash] at hnext ⊢

theorem closed_trimStart {t : Text} (h : Closed t) : Closed (Text.trimStart t) := by
  obtain ⟨b, happ, hb⟩ := Text.append_trimStart t
  rw [← happ, Closed, after_append, closed_of_blank hb] at h
  exact h

theorem closed_trimEnd {t : Text} (h : Closed t) : Closed (Text.trimEnd t) := by
  obtain ⟨b, happ, hb⟩ := Text.append_trimEnd t
  rw [← happ, Closed, after_append] at h
  exact after_of_blank hb h

theorem closed_trim {t : Text} (h : Closed t) : Closed (Text.trim t) :=
  closed_trimEnd (closed_trimStart h)

theorem clear_trim {p : Char → Bool} {t : Text} (h : outside.Clear p t) :
    outside.Clear p (Text.trim t) := by
  obtain ⟨b, hstart, hb⟩ := Text.append_trimStart t
  obtain ⟨u, hend, -⟩ := Text.append_trimEnd (Text.trimStart t)
  rw [← hstart, clear_append, closed_of_blank hb, ← hend, clear_append] at h
  exact h.2.1

end QuoteState

namespace Literal

open QuoteState

theorem write_ne_nil {l : Literal} (h : l.IsWritten) : l.write ≠ [] := by
  cases l with
  | quoted t => exact List.cons_ne_nil _ _
  | bare t => exact h.ne_nil

theorem closed_write {l : Literal} (h : l.IsWritten) : Closed l.write := by
  cases l with
  | quoted t => exact Quoted.closed_write t
  | bare t => exact after_of_unquoted fun c hc => Text.ne_of_isPlain (h.plain c hc) (by decide)

theorem clear_write {p : Char → Bool} (hp : ∀ c, Text.isPlain c = true → p c = false) {l : Literal}
    (h : l.IsWritten) : outside.Clear p l.write := by
  cases l with
  | quoted t => exact Quoted.clear_write p t
  | bare t => exact clear_of_forall _ fun c hc => hp c (h.plain c hc)

theorem write_head {l : Literal} (h : l.IsWritten) :
    ∃ c t, l.write = c :: t ∧ (c = '"' ∨ Text.isPlain c = true) := by
  cases l with
  | quoted t => exact ⟨'"', t.flatMap Quoted.writeChar ++ ['"'], rfl, .inl rfl⟩
  | bare t =>
    obtain ⟨c, u, rfl⟩ := List.exists_cons_of_ne_nil h.ne_nil
    exact ⟨c, u, rfl, .inr (h.plain c (List.mem_cons_self ..))⟩

theorem write_last {l : Literal} (h : l.IsWritten) :
    ∃ t c, l.write = t ++ [c] ∧ (c = '"' ∨ Text.isPlain c = true) := by
  cases l with
  | quoted t => exact ⟨'"' :: t.flatMap Quoted.writeChar, '"', rfl, .inl rfl⟩
  | bare t =>
    refine ⟨t.dropLast, t.getLast h.ne_nil, (List.dropLast_append_getLast h.ne_nil).symm, .inr ?_⟩
    exact h.plain _ (List.getLast_mem h.ne_nil)

theorem isBlank_of_edge {c : Char} (h : c = '"' ∨ Text.isPlain c = true) :
    Text.isBlank c = false := by
  rcases h with rfl | h
  · decide
  · exact Text.isBlank_of_isPlain h

theorem trim_write {l : Literal} (h : l.IsWritten) : Text.trim l.write = l.write := by
  obtain ⟨c, t, hhead, hc⟩ := write_head h
  obtain ⟨u, d, hlast, hd⟩ := write_last h
  refine Text.Trimmed.trim_eq ⟨?_, ?_⟩
  · simpa [hhead] using isBlank_of_edge hc
  · simpa [hlast] using isBlank_of_edge hd

theorem read_write {l : Literal} (h : l.IsWritten) : read l.write = some l := by
  rw [read, trim_write h]
  cases l with
  | quoted t =>
    have hread := Quoted.read_write t
    rw [Quoted.write] at hread
    simp [write, Quoted.write] at hread ⊢
    rw [hread]
  | bare t =>
    obtain ⟨c, u, rfl⟩ := List.exists_cons_of_ne_nil h.ne_nil
    have hquote : c ≠ '"' := Text.ne_of_isPlain (h.plain c (List.mem_cons_self ..)) (by decide)
    simp [write, hquote]

theorem inWord_of_isPlain {c : Char} (h : Text.isPlain c = true) : inWord c = true := by
  have hquote : c ≠ '"' := Text.ne_of_isPlain h (by decide)
  have hcomma : c ≠ ',' := Text.ne_of_isPlain h (by decide)
  have hopen : c ≠ '[' := Text.ne_of_isPlain h (by decide)
  have hclose : c ≠ ']' := Text.ne_of_isPlain h (by decide)
  simp [inWord, Text.isBlank_of_isPlain h, hquote, hcomma, hopen, hclose]

/-- A written literal is one item when a comma, a closing bracket or nothing follows, whatever
white space stands around it. -/
theorem readItem_padded {l : Literal} (h : l.IsWritten) {g b t : Text}
    (hg : ∀ c ∈ g, Text.isBlank c = true) (hb : ∀ c ∈ b, Text.isBlank c = true)
    (ht : ∀ c ∈ t.head?, c = ',' ∨ c = ']') : readItem (g ++ (l.write ++ (b ++ t))) = some (l, t) := by
  have hstart : Text.trimStart (g ++ (l.write ++ (b ++ t))) = l.write ++ (b ++ t) := by
    obtain ⟨d, u, hhead, hd⟩ := write_head h
    refine Text.trimStart_padded hg ?_
    simpa [hhead] using isBlank_of_edge hd
  have hrest : Text.trimStart (b ++ t) = t := by
    refine Text.trimStart_padded hb fun c hc => ?_
    rcases ht c hc with rfl | rfl <;> decide
  rw [readItem, hstart]
  cases l with
  | quoted u => simp [write, Quoted.readFront_write, hrest]
  | bare u =>
    obtain ⟨d, v, rfl⟩ := List.exists_cons_of_ne_nil h.ne_nil
    have hall : ∀ e ∈ d :: v, inWord e = true := fun e he => inWord_of_isPlain (h.plain e he)
    have hquote : d ≠ '"' := Text.ne_of_isPlain (h.plain d (List.mem_cons_self ..)) (by decide)
    have hstop : ∀ c ∈ (b ++ t).head?, inWord c = false := by
      intro c hc
      rw [List.head?_append] at hc
      rcases Option.or_eq_some_iff.1 hc with hc | ⟨-, hc⟩
      · simp [inWord, hb c (List.mem_of_mem_head? hc)]
      · rcases ht c hc with rfl | rfl <;> decide
    have hfront : Quoted.readFront (d :: v ++ (b ++ t)) = none := by
      simp [Quoted.readFront, hquote]
    have htake : (d :: v ++ (b ++ t)).takeWhile inWord = d :: v := by
      rw [List.takeWhile_append_of_pos hall]
      cases hbt : b ++ t with
      | nil => simp
      | cons c r => simp [hstop c (by simp [hbt])]
    have hdrop : (d :: v ++ (b ++ t)).dropWhile inWord = b ++ t := by
      rw [List.dropWhile_append_of_pos hall]
      cases hbt : b ++ t with
      | nil => simp
      | cons c r => simp [hstop c (by simp [hbt])]
    simp only [write, hfront, readWord, htake, hdrop, if_neg (List.cons_ne_nil d v), hrest]

theorem readItem_write {l : Literal} (h : l.IsWritten) {c : Char} (hc : c = ',' ∨ c = ']')
    (t : Text) : readItem (l.write ++ c :: t) = some (l, c :: t) :=
  readItem_padded (g := []) (b := []) h (by simp) (by simp) (by simpa using hc)

theorem readItems_of_none {t : Text} (h : readItem t = none) : readItems t = ([], t) := by
  rw [readItems]
  split
  · rename_i hitem
    rw [h] at hitem
    cases hitem
  · rename_i hitem
    rw [h] at hitem
    cases hitem
  · rfl

theorem readItems_comma {t rest : Text} {l : Literal} (h : readItem t = some (l, ',' :: rest)) :
    readItems t = (l :: (readItems rest).1, (readItems rest).2) := by
  rw [readItems]
  split
  · rename_i hitem
    rw [h] at hitem
    cases hitem
    rfl
  · rename_i hcomma hitem
    rw [h] at hitem
    cases hitem
    exact absurd rfl (hcomma _)
  · rename_i hitem
    rw [h] at hitem
    cases hitem

theorem readItems_last {t rest : Text} {l : Literal} (hrest : rest.head? ≠ some ',')
    (h : readItem t = some (l, rest)) : readItems t = ([l], rest) := by
  rw [readItems]
  split
  · rename_i hitem
    rw [h] at hitem
    cases hitem
    exact absurd rfl hrest
  · rename_i hitem
    rw [h] at hitem
    cases hitem
    rfl
  · rename_i hitem
    rw [h] at hitem
    cases hitem

theorem readItems_join {l : Literal} {ls : List Literal} (h : ∀ k ∈ l :: ls, k.IsWritten) :
    readItems (Text.join [','] ((l :: ls).map write) ++ [']']) = (l :: ls, [']']) := by
  induction ls generalizing l with
  | nil =>
    have hitem := readItem_write (h l (List.mem_cons_self ..)) (.inr rfl) []
    rw [List.map_singleton, Text.join_singleton, readItems_last (by decide) hitem]
  | cons k ks ih =>
    have hitem := readItem_write (h l (List.mem_cons_self ..)) (.inl rfl)
      (Text.join [','] ((k :: ks).map write) ++ [']'])
    have hjoin : Text.join [','] ((l :: k :: ks).map write) ++ [']'] =
        l.write ++ ',' :: (Text.join [','] ((k :: ks).map write) ++ [']']) := by
      simp
    rw [hjoin, readItems_comma hitem, ih fun m hm => h m (List.mem_cons_of_mem _ hm)]

theorem readList_join {ls : List Literal} (h : ∀ k ∈ ls, k.IsWritten) :
    readList ('[' :: Text.join [','] (ls.map write) ++ [']']) = some ls := by
  have hitems : readItems (Text.join [','] (ls.map write) ++ [']']) = (ls, [']']) := by
    cases ls with
    | nil => exact readItems_of_none (by decide)
    | cons l ls => exact readItems_join h
  rw [List.cons_append, readList, hitems]
  simp

theorem findUnquoted_rangeMark_self (t : Text) :
    findUnquoted rangeMark .outside (rangeMark ++ t) = some ([], t) := by
  change findUnquoted rangeMark outside ('.' :: '.' :: t) = _
  rw [findUnquoted]
  rfl

/-- No mark of a range starts in a text whose points stand inside it. -/
theorem isPrefixOf?_rangeMark {c : Char} {u : Text} (h : Text.PointsInside (c :: u)) (t : Text) :
    rangeMark.isPrefixOf? (c :: (u ++ t)) = none := by
  by_cases hpoint : c = '.'
  · obtain ⟨d, hd, hne⟩ := h.1 hpoint
    cases u with
    | nil => cases hd
    | cons e u =>
      cases hd
      subst hpoint
      exact Text.isPrefixOf?_of_ne hne.symm [] (u ++ t)
  · exact Text.isPrefixOf?_of_ne (Ne.symm hpoint) ['.'] (u ++ t)

theorem findUnquoted_rangeMark_bare {u : Text} (hplain : ∀ c ∈ u, Text.isPlain c = true)
    (hpoints : Text.PointsInside u) (t : Text) :
    findUnquoted rangeMark .outside (u ++ (rangeMark ++ t)) = some (u, t) := by
  induction u with
  | nil => exact findUnquoted_rangeMark_self t
  | cons c u ih =>
    have hstarts := isPrefixOf?_rangeMark hpoints (rangeMark ++ t)
    rw [List.forall_mem_cons] at hplain
    have hquote : c ≠ '"' := Text.ne_of_isPlain hplain.1 (by decide)
    rw [List.cons_append, findUnquoted, if_pos (structural_outside hquote), hstarts,
      next_outside hquote, ih hplain.2 hpoints.2]
    rfl

theorem findUnquoted_rangeMark {l : Literal} (h : l.IsWritten) (t : Text) :
    findUnquoted rangeMark .outside (l.write ++ rangeMark ++ t) = some (l.write, t) := by
  rw [List.append_assoc]
  cases l with
  | quoted u =>
    have hskip := findUnquoted_append_of_clear (Quoted.clear_write (fun c => c = '.') u)
      (d := '.') (by decide) ['.'] (rangeMark ++ t)
    rw [Quoted.closed_write u] at hskip
    refine hskip.trans ?_
    change (findUnquoted rangeMark outside (rangeMark ++ t)).map _ = _
    rw [findUnquoted_rangeMark_self, Option.map_some]
    exact congrArg (fun v => some (v, t)) (List.append_nil _)
  | bare u => exact findUnquoted_rangeMark_bare h.plain h.points t

end Literal

end FilterQuery
