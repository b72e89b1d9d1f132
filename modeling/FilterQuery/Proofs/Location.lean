import FilterQuery.Location
import FilterQuery.Proofs.Words
import Mathlib.Order.Bounds.Defs
set_option autoImplicit false

/-!
Places in a text. A byte offset stands for the last character boundary that it has reached. The line
and the column there tell which boundary it is, and boundaries are in the order of their lines and
columns.
-/

namespace FilterQuery

namespace Text

/-- An end of a text or a place between two of its characters, by the bytes before it. -/
def IsBoundary (t : Text) (p : Nat) : Prop := ∃ before : Text, before <+: t ∧ before.byteLength = p

theorem cutAt_byteLength (before after : Text) :
    cutAt before.byteLength (before ++ after) = (before, after) := by
  induction before with
  | nil =>
    cases after with
    | nil => rfl
    | cons c t => simp [cutAt, Nat.ne_of_gt c.utf8Size_pos]
  | cons c t ih => simp [cutAt, ih]

theorem append_inj_of_byteLength {a b u v : Text} (h : a ++ u = b ++ v)
    (hlength : a.byteLength = b.byteLength) : a = b ∧ u = v := by
  have hcut := cutAt_byteLength a u
  rw [h, hlength, cutAt_byteLength] at hcut
  exact Prod.mk.inj hcut.symm

theorem cutAt_mono {m n : Nat} (h : m ≤ n) (t : Text) : (cutAt m t).1 <+: (cutAt n t).1 := by
  induction t generalizing m n with
  | nil => exact List.prefix_refl _
  | cons c t ih =>
    rw [cutAt, cutAt]
    by_cases hm : c.utf8Size ≤ m
    · rw [if_pos hm, if_pos (Nat.le_trans hm h)]
      exact List.cons_prefix_cons.2 ⟨rfl, ih (by omega)⟩
    · rw [if_neg hm]
      exact ⟨_, rfl⟩

theorem byteLength_mono {t u : Text} (h : t <+: u) : t.byteLength ≤ u.byteLength := by
  obtain ⟨v, rfl⟩ := h
  rw [byteLength_append]
  exact Nat.le_add_right _ _

theorem byteLength_cutAt_le (n : Nat) (t : Text) : (cutAt n t).1.byteLength ≤ n := by
  fun_induction cutAt n t with
  | case1 => simp
  | case2 n c t h before after hcut ih =>
    simp only [hcut, byteLength_cons] at ih ⊢
    omega
  | case3 => simp

theorem isGreatest_cutAt (n : Nat) (t : Text) :
    IsGreatest {p | t.IsBoundary p ∧ p ≤ n ∧ p ≤ t.byteLength} (cutAt n t).1.byteLength := by
  have hprefix : (cutAt n t).1 <+: t := ⟨_, cutAt_append n t⟩
  constructor
  · exact ⟨⟨_, hprefix, rfl⟩, byteLength_cutAt_le n t, byteLength_mono hprefix⟩
  · rintro p ⟨⟨before, ⟨after, rfl⟩, rfl⟩, hle, -⟩
    have hmono := cutAt_mono hle (before ++ after)
    rw [cutAt_byteLength] at hmono
    exact byteLength_mono hmono

theorem exists_splitOn_append {a : Char} {own : Text} (h : a ∉ own) (after : Text) :
    ∃ rest below, (own ++ after).splitOn a = (own ++ rest) :: below := by
  by_cases ha : a ∈ after
  · obtain ⟨rest, below, rfl, hrest⟩ := List.eq_append_cons_of_mem ha
    refine ⟨rest, below.splitOn a, ?_⟩
    rw [← List.append_assoc, List.splitOn_append_cons_self,
      List.splitOn_eq_singleton (by simp [h, hrest]), List.singleton_append]
  · exact ⟨after, [], List.splitOn_eq_singleton (by simp [h, ha])⟩

end Text

namespace Location

theorem position_mono {m n : Nat} (h : m ≤ n) (t : Text) :
    (ofOffset t m).position ≤ (ofOffset t n).position :=
  Text.byteLength_mono (Text.cutAt_mono h t)

theorem lineAfter_append (u v : Text) : lineAfter (u ++ v) = lineAfter u + v.count '\n' := by
  simp [lineAfter]
  omega

theorem columnAfter_append {v : Text} (h : '\n' ∉ v) (u : Text) :
    columnAfter (u ++ v) = columnAfter u + v.length := by
  have hall : ∀ c ∈ v.reverse, decide (c ≠ '\n') = true := by
    intro c hc
    have hne : c ≠ '\n' := fun heq => h (heq ▸ List.mem_reverse.1 hc)
    simpa using hne
  rw [columnAfter, List.reverse_append, List.takeWhile_append_of_pos hall, columnAfter]
  simp
  omega

theorem exists_lines (before : Text) : ∃ (above : List Text) (own : Text),
    lineAfter before = above.length + 1 ∧ columnAfter before = own.length + 1 ∧ '\n' ∉ own ∧
      Text.join ['\n'] (above ++ [own]) = before ∧
      ∀ after, (before ++ after).splitOn '\n' = above ++ (own ++ after).splitOn '\n' := by
  by_cases h : '\n' ∈ before
  · obtain ⟨rest, front, hrev, hrest⟩ := List.eq_append_cons_of_mem (List.mem_reverse.2 h)
    have hbefore : before = front.reverse ++ '\n' :: rest.reverse := by
      simpa using congrArg List.reverse hrev
    have hown : '\n' ∉ rest.reverse := by simpa using hrest
    refine ⟨front.reverse.splitOn '\n', rest.reverse, ?_, ?_, hown, ?_, fun after => ?_⟩
    · rw [hbefore, Text.length_splitOn]
      simp [lineAfter, List.count_eq_zero_of_not_mem hrest]
    · have hfeed : columnAfter (front.reverse ++ ['\n']) = 1 := by simp [columnAfter]
      rw [hbefore, List.append_cons, columnAfter_append hown, hfeed, Nat.add_comm]
    · rw [Text.join_append (List.splitOn_ne_nil _ _) (by simp), hbefore]
      simp
    · rw [hbefore, List.append_assoc, List.cons_append, List.splitOn_append_cons_self]
  · refine ⟨[], before, ?_, ?_, h, by simp, fun after => rfl⟩
    · simp [lineAfter, List.count_eq_zero_of_not_mem h]
    · have hcolumn := columnAfter_append h []
      simpa [columnAfter, Nat.add_comm] using hcolumn

structure Tells (l : Location) (before after : Text) : Prop where
  position : l.position = before.byteLength
  line : l.line = before.count '\n' + 1
  /-- The lines above and the characters of its own line up to its column are all that is before. -/
  column : ∃ own, ((before ++ after).splitOn '\n')[l.line - 1]? = some own ∧
    0 < l.column ∧ l.column - 1 ≤ own.length ∧
    Text.join ['\n'] (((before ++ after).splitOn '\n').take (l.line - 1) ++
      [own.take (l.column - 1)]) = before
  /-- Twenty characters on either side, or as many as there are. -/
  context : ∃ back forward, l.context = back ++ forward ∧
    back <:+ before ∧ back.length = min 20 before.length ∧
    forward <+: after ∧ forward.length = min 20 after.length

theorem tells_between (before after : Text) : (between before after).Tells before after where
  position := rfl
  line := rfl
  column := by
    obtain ⟨above, own, hline, hcolumn, hown, hjoin, hsplit⟩ := exists_lines before
    obtain ⟨rest, below, hrest⟩ := Text.exists_splitOn_append hown after
    have habove : (between before after).line - 1 = above.length := by
      simp [between, hline]
    have hlength : (between before after).column - 1 = own.length := by
      simp [between, hcolumn]
    refine ⟨own ++ rest, ?_, Nat.succ_pos _, ?_, ?_⟩
    · simp [hsplit, hrest, habove]
    · simp [hlength]
    · simpa [hsplit, hrest, habove, hlength] using hjoin
  context := by
    refine ⟨_, _, rfl, List.drop_suffix _ _, ?_, List.take_prefix _ _, List.length_take⟩
    rw [List.length_drop, radius]
    omega

def ComesBefore (l r : Location) : Prop := l.line < r.line ∨ l.line = r.line ∧ l.column < r.column

theorem between_comesBefore {v : Text} (h : v ≠ []) (u rest behind : Text) :
    (between u rest).ComesBefore (between (u ++ v) behind) := by
  simp only [ComesBefore, between, lineAfter_append]
  by_cases hv : '\n' ∈ v
  · have hcount := List.count_pos_iff.2 hv
    omega
  · have hlength := List.length_pos_iff.2 h
    rw [columnAfter_append hv, List.count_eq_zero_of_not_mem hv]
    omega

theorem ofOffset_comesBefore {t : Text} {m n : Nat}
    (h : (ofOffset t m).position < (ofOffset t n).position) :
    (ofOffset t m).ComesBefore (ofOffset t n) := by
  have hlt : (Text.cutAt m t).1.byteLength < (Text.cutAt n t).1.byteLength := h
  have hmn : m ≤ n := by
    rcases Nat.le_total m n with hle | hle
    · exact hle
    · have hmono := position_mono hle t
      omega
  obtain ⟨v, hv⟩ := Text.cutAt_mono hmn t
  have hne : v ≠ [] := by
    intro hnil
    simp [← hv, hnil] at hlt
  have hbefore := between_comesBefore hne (Text.cutAt m t).1 (Text.cutAt m t).2 (Text.cutAt n t).2
  rwa [hv] at hbefore

theorem ofOffset_eq {t : Text} {m n : Nat} (h : (ofOffset t m).position = (ofOffset t n).position) :
    ofOffset t m = ofOffset t n := by
  have happ := (Text.cutAt_append m t).trans (Text.cutAt_append n t).symm
  obtain ⟨hbefore, hafter⟩ := Text.append_inj_of_byteLength happ h
  rw [ofOffset, ofOffset, Prod.ext hbefore hafter]

/-- Lines and columns tell the boundaries of a text apart, and have their order. -/
theorem place_iff (t : Text) (m n : Nat) :
    ((ofOffset t m).line = (ofOffset t n).line ∧ (ofOffset t m).column = (ofOffset t n).column ↔
        (ofOffset t m).position = (ofOffset t n).position) ∧
      ((ofOffset t m).ComesBefore (ofOffset t n) ↔
        (ofOffset t m).position < (ofOffset t n).position) := by
  rcases Nat.lt_trichotomy (ofOffset t m).position (ofOffset t n).position with h | h | h
  · have hbefore := ofOffset_comesBefore h
    simp only [ComesBefore] at hbefore ⊢
    omega
  · simp [ofOffset_eq h, ComesBefore]
  · have hbehind := ofOffset_comesBefore h
    simp only [ComesBefore] at hbehind ⊢
    omega

/-- The location of an offset is the greatest boundary that it has reached, with its line, its
column and the text around it; and two boundaries of a text are in the order of their lines and
columns. -/
theorem ofOffset_exact (t : Text) (offset : Nat) :
    IsGreatest {p | t.IsBoundary p ∧ p ≤ offset ∧ p ≤ t.byteLength} (ofOffset t offset).position ∧
      (∃ before after, before ++ after = t ∧ (ofOffset t offset).Tells before after) ∧
      ∀ other,
        ((ofOffset t offset).line = (ofOffset t other).line ∧
            (ofOffset t offset).column = (ofOffset t other).column ↔
          (ofOffset t offset).position = (ofOffset t other).position) ∧
        ((ofOffset t offset).ComesBefore (ofOffset t other) ↔
          (ofOffset t offset).position < (ofOffset t other).position) :=
  ⟨Text.isGreatest_cutAt offset t, ⟨_, _, Text.cutAt_append offset t, tells_between _ _⟩,
    place_iff t offset⟩

example : ofOffset "né\nxy".toList 2 = ⟨1, 1, 2, "né\nxy".toList⟩ ∧
    ofOffset "né\nxy".toList 5 = ⟨5, 2, 2, "né\nxy".toList⟩ := by decide

end Location

end FilterQuery
