import FilterQuery.Proofs.Bytes
import FilterQuery.Proofs.Nesting
set_option autoImplicit false

/-!
Where tokens stand. A scan over the bytes of a text tells them without cutting anything: a token is
a longest run of bytes that are no structural white space and no structural parenthesis, or one such
parenthesis. A token is cut off where no run goes on, so each part can be looked at alone.
-/

namespace FilterQuery

open FilterQuery.QuoteState FilterQuery.Text

namespace Lexeme

def inWord (m : Char × Bool) : Bool := !(m.2 && breaks m.1)

/-- A longest run of bytes that belong to a word, from `start` up to `stop`. -/
structure IsRun (ms : List (Char × Bool)) (start stop : Nat) : Prop where
  nonempty : start < stop
  word : ∀ i, start ≤ i → i < stop → ∃ m ∈ ms[i]?, inWord m = true
  before : ∀ i, i + 1 = start → ∀ m ∈ ms[i]?, inWord m = false
  behind : ∀ m ∈ ms[stop]?, inWord m = false

structure IsLone (ms : List (Char × Bool)) (start stop : Nat) : Prop where
  single : stop = start + 1
  parenthesis : ∃ m ∈ ms[start]?, m.2 = true ∧ isParenthesis m.1 = true

def IsExtent (ms : List (Char × Bool)) (start stop : Nat) : Prop :=
  IsRun ms start stop ∨ IsLone ms start stop

/-- Lists of marks from the one to the other of which no run goes on. -/
def Seam (l r : List (Char × Bool)) : Prop :=
  (∀ m ∈ l.getLast?, inWord m = false) ∨ ∀ m ∈ r.head?, inWord m = false

section Seam

variable {l r : List (Char × Bool)} {start stop : Nat}

/-- Of the two marks at a seam one belongs to no word. -/
theorem Seam.not_both (h : Seam l r) {i : Nat} (hi : i + 1 = l.length)
    (hl : ∃ m ∈ (l ++ r)[i]?, inWord m = true) (hr : ∃ m ∈ (l ++ r)[i + 1]?, inWord m = true) :
    False := by
  obtain ⟨m, hm, hword⟩ := hl
  obtain ⟨n, hn, hword'⟩ := hr
  rw [List.getElem?_append_left (by omega)] at hm
  rw [List.getElem?_append_right (by omega), hi, Nat.sub_self] at hn
  rcases h with h | h
  · have hlast : l.getLast? = some m := by
      rw [List.getLast?_eq_getElem?, ← hi]
      exact hm
    rw [h m hlast] at hword
    cases hword
  · have hhead : r.head? = some n := by
      rw [List.head?_eq_getElem?]
      exact hn
    rw [h n hhead] at hword'
    cases hword'

theorem IsRun.cut (h : Seam l r) (hrun : IsRun (l ++ r) start stop) :
    stop ≤ l.length ∨ l.length ≤ start := by
  by_contra hcross
  have hpos : l.length - 1 + 1 = l.length := by omega
  exact h.not_both hpos (hrun.word _ (by omega) (by omega)) (hrun.word _ (by omega) (by omega))

theorem IsRun.stop_le (hrun : IsRun l start stop) : stop ≤ l.length := by
  obtain ⟨m, hm, -⟩ := hrun.word (stop - 1) (by have := hrun.nonempty; omega)
    (by have := hrun.nonempty; omega)
  obtain ⟨hlt, -⟩ := List.getElem?_eq_some_iff.1 hm
  omega

theorem isRun_left (h : Seam l r) (hstop : stop ≤ l.length) :
    IsRun (l ++ r) start stop ↔ IsRun l start stop := by
  have hleft : ∀ i, i < l.length → (l ++ r)[i]? = l[i]? := fun _ hi => List.getElem?_append_left hi
  constructor
  · intro hrun
    have hpos := hrun.nonempty
    refine ⟨hpos, fun i hi hlt => ?_, fun i hi => ?_, fun m hm => ?_⟩
    · exact hleft i (by omega) ▸ hrun.word i hi hlt
    · exact hleft i (by omega) ▸ hrun.before i hi
    · obtain ⟨hlt, -⟩ := List.getElem?_eq_some_iff.1 hm
      exact hrun.behind m (by rwa [hleft stop hlt])
  · intro hrun
    have hpos := hrun.nonempty
    refine ⟨hpos, fun i hi hlt => ?_, fun i hi => ?_, fun m hm => ?_⟩
    · exact (hleft i (by omega)).symm ▸ hrun.word i hi hlt
    · exact (hleft i (by omega)).symm ▸ hrun.before i hi
    · rcases Nat.lt_or_eq_of_le hstop with hlt | heq
      · exact hrun.behind m (by rwa [← hleft stop hlt])
      · -- the run ends with `l`: at the seam a word could only go on from its last mark
        by_contra hword
        have hlast : (l ++ r)[stop - 1]? = l[stop - 1]? := hleft _ (by omega)
        refine h.not_both (i := stop - 1) (by omega) (hlast ▸ hrun.word _ (by omega) (by omega)) ?_
        rw [Nat.sub_add_cancel (by omega)]
        exact ⟨m, hm, by simpa using hword⟩

theorem isRun_right (h : Seam l r) (a b : Nat) :
    IsRun (l ++ r) (l.length + a) (l.length + b) ↔ IsRun r a b := by
  have hright : ∀ i, (l ++ r)[l.length + i]? = r[i]? := fun i => by
    rw [List.getElem?_append_right (by omega), Nat.add_sub_cancel_left]
  constructor
  · intro hrun
    refine ⟨by have := hrun.nonempty; omega, fun i hi hlt => ?_, fun i hi => ?_, ?_⟩
    · exact hright i ▸ hrun.word _ (by omega) (by omega)
    · exact hright i ▸ hrun.before _ (by omega)
    · exact hright b ▸ hrun.behind
  · intro hrun
    have hpos := hrun.nonempty
    refine ⟨by omega, fun i hi hlt => ?_, fun i hi m hm => ?_, ?_⟩
    · obtain ⟨j, rfl⟩ := Nat.exists_eq_add_of_le (show l.length ≤ i by omega)
      exact (hright j).symm ▸ hrun.word j (by omega) (by omega)
    · cases a with
      | succ a =>
        obtain rfl : i = l.length + a := by omega
        exact hrun.before a rfl m (by rwa [← hright a])
      | zero =>
        by_contra hword
        refine h.not_both hi ⟨m, hm, by simpa using hword⟩ ?_
        rw [hi]
        exact (hright 0).symm ▸ hrun.word 0 (Nat.le_refl 0) hpos
    · exact (hright b).symm ▸ hrun.behind

theorem isLone_left (hstart : start < l.length) :
    IsLone (l ++ r) start stop ↔ IsLone l start stop := by
  have hleft : (l ++ r)[start]? = l[start]? := List.getElem?_append_left hstart
  exact ⟨fun h => ⟨h.single, hleft ▸ h.parenthesis⟩,
    fun h => ⟨h.single, hleft.symm ▸ h.parenthesis⟩⟩

theorem isLone_right (a b : Nat) :
    IsLone (l ++ r) (l.length + a) (l.length + b) ↔ IsLone r a b := by
  have hright : (l ++ r)[l.length + a]? = r[a]? := by
    rw [List.getElem?_append_right (by omega), Nat.add_sub_cancel_left]
  exact ⟨fun h => ⟨by have := h.single; omega, hright ▸ h.parenthesis⟩,
    fun h => ⟨by have := h.single; omega, hright.symm ▸ h.parenthesis⟩⟩

theorem isExtent_append (h : Seam l r) : IsExtent (l ++ r) start stop ↔
    IsExtent l start stop ∨
      ∃ a b, start = l.length + a ∧ stop = l.length + b ∧ IsExtent r a b := by
  constructor
  · rintro (hrun | hlone)
    · rcases hrun.cut h with hstop | hstart
      · exact .inl (.inl ((isRun_left h hstop).1 hrun))
      · obtain ⟨a, rfl⟩ := Nat.exists_eq_add_of_le hstart
        obtain ⟨b, rfl⟩ := Nat.exists_eq_add_of_le (hstart.trans hrun.nonempty.le)
        exact .inr ⟨a, b, rfl, rfl, .inl ((isRun_right h a b).1 hrun)⟩
    · rcases Nat.lt_or_ge start l.length with hstart | hstart
      · exact .inl (.inr ((isLone_left hstart).1 hlone))
      · obtain ⟨a, rfl⟩ := Nat.exists_eq_add_of_le hstart
        obtain ⟨b, rfl⟩ := Nat.exists_eq_add_of_le (m := l.length) (n := stop)
          (by have := hlone.single; omega)
        exact .inr ⟨a, b, rfl, rfl, .inr ((isLone_right a b).1 hlone)⟩
  · rintro ((hrun | hlone) | ⟨a, b, rfl, rfl, hrun | hlone⟩)
    · exact .inl ((isRun_left h hrun.stop_le).2 hrun)
    · obtain ⟨m, hm, -⟩ := hlone.parenthesis
      obtain ⟨hlt, -⟩ := List.getElem?_eq_some_iff.1 hm
      exact .inr ((isLone_left hlt).2 hlone)
    · exact .inl ((isRun_right h a b).2 hrun)
    · exact .inr ((isLone_right a b).2 hlone)

end Seam

section Parts

variable {ms : List (Char × Bool)} {start stop : Nat}

theorem not_isExtent_of_gap (h : ∀ m ∈ ms, m.2 = true ∧ Text.isGap m.1 = true) :
    ¬IsExtent ms start stop := by
  rintro (hrun | hlone)
  · obtain ⟨m, hm, hword⟩ := hrun.word start (Nat.le_refl _) hrun.nonempty
    obtain ⟨hs, hgap⟩ := h m (List.mem_of_getElem? hm)
    simp [inWord, breaks, hs, hgap] at hword
  · obtain ⟨m, hm, -, hparenthesis⟩ := hlone.parenthesis
    obtain ⟨-, hgap⟩ := h m (List.mem_of_getElem? hm)
    simp only [isParenthesis, Bool.or_eq_true, decide_eq_true_eq] at hparenthesis
    rcases hparenthesis with hc | hc <;> rw [hc] at hgap <;> cases hgap

theorem isExtent_word (hne : ms ≠ []) (h : ∀ m ∈ ms, inWord m = true) :
    IsExtent ms start stop ↔ start = 0 ∧ stop = ms.length := by
  have hword : ∀ i, i < ms.length → ∃ m ∈ ms[i]?, inWord m = true := fun i hi =>
    ⟨ms[i], List.getElem?_eq_getElem hi, h _ (List.getElem_mem hi)⟩
  constructor
  · rintro (hrun | hlone)
    · have hstop := hrun.stop_le
      have hpos := hrun.nonempty
      constructor
      · by_contra hstart
        obtain ⟨m, hm, hw⟩ := hword (start - 1) (by omega)
        rw [hrun.before (start - 1) (by omega) m hm] at hw
        cases hw
      · by_contra hshort
        obtain ⟨m, hm, hw⟩ := hword stop (by omega)
        rw [hrun.behind m hm] at hw
        cases hw
    · obtain ⟨m, hm, hs, hparenthesis⟩ := hlone.parenthesis
      have hw := h m (List.mem_of_getElem? hm)
      simp [inWord, breaks, hs, hparenthesis] at hw
  · rintro ⟨rfl, rfl⟩
    refine .inl ⟨List.length_pos_iff.2 hne, fun i _ hi => hword i hi, fun i hi => by omega, ?_⟩
    simp

theorem isExtent_parenthesis {c : Char} (h : isParenthesis c = true) :
    IsExtent [(c, true)] start stop ↔ start = 0 ∧ stop = 1 := by
  have hmark : inWord (c, true) = false := by simp [inWord, breaks, h]
  constructor
  · rintro (hrun | hlone)
    · obtain ⟨m, hm, hword⟩ := hrun.word start (Nat.le_refl _) hrun.nonempty
      obtain rfl := List.mem_singleton.1 (List.mem_of_getElem? hm)
      rw [hmark] at hword
      cases hword
    · obtain ⟨m, hm, -⟩ := hlone.parenthesis
      obtain ⟨hlt, -⟩ := List.getElem?_eq_some_iff.1 hm
      have hsingle := hlone.single
      rw [List.length_singleton] at hlt
      omega
  · rintro ⟨rfl, rfl⟩
    exact .inr ⟨rfl, (c, true), rfl, rfl, h⟩

end Parts

theorem not_isWide_of_breaks {c : Char} (h : breaks c = true) : ¬IsWide c := by
  simp only [breaks, Text.isGap, isParenthesis, Bool.or_eq_true, decide_eq_true_eq] at h
  rcases h with ((((rfl | rfl) | rfl) | rfl) | rfl) | (rfl | rfl) <;> decide

theorem structural_of_breaks {c : Char} (h : breaks c = true) : outside.structural c = true := by
  refine structural_outside ?_
  rintro rfl
  cases h

theorem marks_of_next? {t : Text} {l : Lexeme} (h : next? t = some l) :
    outside.marks t.bytes = outside.marks l.gap.bytes ++
      (outside.marks l.text.bytes ++ outside.marks l.rest.bytes) := by
  have hgap : Closed l.gap := closed_gap (isGap_of_next? h)
  rw [← append_of_next? h, List.append_assoc, bytes_append, bytes_append, marks_append,
    marks_append, after_bytes, after_bytes, hgap]
  by_cases hrest : l.rest = []
  · rw [hrest, bytes_nil, marks_nil, marks_nil]
  · rw [show outside.after l.text = outside from closed_text_of_next? h hrest]

theorem marks_gap {t : Text} (h : ∀ c ∈ t, Text.isGap c = true) :
    ∀ m ∈ outside.marks t.bytes, m.2 = true ∧ Text.isGap m.1 = true := by
  have hbreaks : ∀ c ∈ t, breaks c = true := fun c hc => by rw [breaks, h c hc, Bool.true_or]
  rw [bytes_of_forall_not_isWide fun c hc => not_isWide_of_breaks (hbreaks c hc)]
  induction t with
  | nil => simp
  | cons c t ih =>
    rw [List.forall_mem_cons] at h hbreaks
    have hs := structural_of_breaks hbreaks.1
    rw [marks_cons, List.forall_mem_cons, next_outside ((structural_iff _ _).1 hs).2]
    exact ⟨⟨hs, h.1⟩, ih h.2 hbreaks.2⟩

theorem inWord_of_clear {q : QuoteState} {t : Text} (h : q.Clear breaks t) :
    ∀ m ∈ q.marks t.bytes, inWord m = true := by
  have hclear : q.Clear breaks t.bytes := h.bytes fun c hwide => by
    by_contra hbreaks
    exact not_isWide_of_breaks (Bool.not_eq_false _ ▸ hbreaks) hwide
  intro m hm
  cases hs : m.2 with
  | false => simp [inWord, hs]
  | true => simp [inWord, hs, hclear m hm hs]

theorem head_marks_of_atBreak {t : Text} (h : AtBreak t) :
    ∀ m ∈ (outside.marks t.bytes).head?, inWord m = false := by
  cases t with
  | nil => simp
  | cons c t =>
    have hc : breaks c = true := h c rfl
    rw [bytes_cons, bytes_of_not_isWide (not_isWide_of_breaks hc)]
    simp [inWord, hc, structural_of_breaks hc]

theorem isExtent_next? {t : Text} {l : Lexeme} (h : next? t = some l) (start stop : Nat) :
    IsExtent (outside.marks t.bytes) start stop ↔
      (start = l.gap.byteLength ∧ stop = l.gap.byteLength + l.text.byteLength) ∨
        ∃ a b, start = l.gap.byteLength + l.text.byteLength + a ∧
          stop = l.gap.byteLength + l.text.byteLength + b ∧
          IsExtent (outside.marks l.rest.bytes) a b := by
  have hgap := marks_gap (isGap_of_next? h)
  have hbefore : Seam (outside.marks l.gap.bytes)
      (outside.marks l.text.bytes ++ outside.marks l.rest.bytes) := by
    refine .inl fun m hm => ?_
    obtain ⟨hs, hm⟩ := hgap m (List.mem_of_getLast? hm)
    simp [inWord, breaks, hs, hm]
  have htext : Seam (outside.marks l.text.bytes) (outside.marks l.rest.bytes) ∧
      ∀ a b, IsExtent (outside.marks l.text.bytes) a b ↔ a = 0 ∧ b = l.text.byteLength := by
    rcases next?_shape h with ⟨c, hc, htext⟩ | ⟨hclear, hbreak⟩
    · have hbreaks : breaks c = true := by rw [breaks, hc, Bool.or_true]
      have hmarks : outside.marks l.text.bytes = [(c, true)] := by
        rw [htext, bytes_of_not_isWide (not_isWide_of_breaks hbreaks), marks_cons, marks_nil,
          structural_of_breaks hbreaks]
      have hone : l.text.byteLength = 1 := by
        rw [← length_marks_bytes outside, hmarks, List.length_singleton]
      rw [hmarks, hone]
      exact ⟨.inl (by simp [inWord, hbreaks]), fun a b => isExtent_parenthesis hc⟩
    · have hne : outside.marks l.text.bytes ≠ [] := by
        rw [← List.length_pos_iff, length_marks, List.length_pos_iff]
        exact bytes_ne_nil (text_ne_nil h)
      refine ⟨.inr (head_marks_of_atBreak hbreak), fun a b => ?_⟩
      rw [isExtent_word hne (inWord_of_clear hclear), length_marks_bytes]
  rw [marks_of_next? h, isExtent_append hbefore]
  simp only [isExtent_append htext.1, htext.2, not_isExtent_of_gap hgap, length_marks_bytes,
    false_or]
  constructor
  · rintro ⟨a, b, rfl, rfl, ⟨rfl, rfl⟩ | ⟨a, b, rfl, rfl, hrest⟩⟩
    · exact .inl ⟨rfl, rfl⟩
    · exact .inr ⟨a, b, (Nat.add_assoc _ _ _).symm, (Nat.add_assoc _ _ _).symm, hrest⟩
  · rintro (⟨rfl, rfl⟩ | ⟨a, b, rfl, rfl, hrest⟩)
    · exact ⟨0, _, rfl, rfl, .inl ⟨rfl, rfl⟩⟩
    · exact ⟨_, _, Nat.add_assoc _ _ _, Nat.add_assoc _ _ _, .inr ⟨a, b, rfl, rfl, hrest⟩⟩

end Lexeme

namespace Token

open Lexeme

variable {offset : Nat} {t : Text} {l : Lexeme}

theorem stop_token (l : Lexeme) (offset : Nat) :
    (l.token offset).stop = offset + (l.gap.byteLength + l.text.byteLength) := Nat.add_assoc _ _ _

theorem exists_scanFrom_iff (offset : Nat) (t : Text) (start stop : Nat) :
    (∃ k ∈ scanFrom offset t, k.start = start ∧ k.stop = stop) ↔
      ∃ a b, start = offset + a ∧ stop = offset + b ∧ IsExtent (outside.marks t.bytes) a b := by
  fun_induction scanFrom offset t with
  | case1 offset t h =>
    have hgap := marks_gap (isGap_of_next?_eq_none h)
    simp [not_isExtent_of_gap hgap]
  | case2 offset t l h _ ih =>
    constructor
    · rintro ⟨k, hk, rfl, rfl⟩
      rcases List.mem_cons.1 hk with rfl | hk
      · exact ⟨_, _, rfl, stop_token l offset, (isExtent_next? h _ _).2 (.inl ⟨rfl, rfl⟩)⟩
      · obtain ⟨a, b, ha, hb, hextent⟩ := ih.1 ⟨k, hk, rfl, rfl⟩
        rw [stop_token, Nat.add_assoc] at ha hb
        exact ⟨_, _, ha, hb, (isExtent_next? h _ _).2 (.inr ⟨a, b, rfl, rfl, hextent⟩)⟩
    · rintro ⟨a, b, rfl, rfl, hextent⟩
      rcases (isExtent_next? h a b).1 hextent with ⟨rfl, rfl⟩ | ⟨a, b, rfl, rfl, hrest⟩
      · exact ⟨l.token offset, List.mem_cons_self .., rfl, stop_token l offset⟩
      · have hshift : ∀ n, offset + (l.gap.byteLength + l.text.byteLength + n) =
            (l.token offset).stop + n := fun n => by rw [stop_token, Nat.add_assoc offset]
        obtain ⟨k, hk, hstart, hstop⟩ := ih.2 ⟨a, b, hshift a, hshift b, hrest⟩
        exact ⟨k, List.mem_cons_of_mem _ hk, hstart, hstop⟩

def CutFrom (t : Text) (k : Token) : Prop :=
  ∃ before behind, before ++ k.text ++ behind = t ∧ before.byteLength = k.start ∧
    outside.after before.bytes = outside ∧
    (behind = [] ∨ outside.after (before ++ k.text).bytes = outside)

theorem exists_cut_of_mem_scanFrom {k : Token} (hk : k ∈ scanFrom offset t) :
    k.text ≠ [] ∧ ∃ before behind, before ++ k.text ++ behind = t ∧
      k.start = offset + before.byteLength ∧ Closed before ∧
      (behind = [] ∨ Closed (before ++ k.text)) := by
  fun_induction scanFrom offset t with
  | case1 => cases hk
  | case2 offset t l h _ ih =>
    have hgap := closed_gap (isGap_of_next? h)
    rcases List.mem_cons.1 hk with rfl | hk
    · refine ⟨text_ne_nil h, l.gap, l.rest, append_of_next? h, rfl, hgap, ?_⟩
      by_cases hrest : l.rest = []
      · exact .inl hrest
      · exact .inr (hgap.append (closed_text_of_next? h hrest))
    · obtain ⟨hne, before, behind, happ, hstart, hbefore, hbehind⟩ := ih hk
      have hrest : l.rest ≠ [] := by
        rw [← happ]
        simp [hne]
      have hclosed : Closed (l.gap ++ l.text) := hgap.append (closed_text_of_next? h hrest)
      refine ⟨hne, l.gap ++ l.text ++ before, behind, ?_, ?_, hclosed.append hbefore, ?_⟩
      · rw [← append_of_next? h, ← happ]
        simp only [List.append_assoc]
      · rw [hstart, stop_token, byteLength_append, byteLength_append, Nat.add_assoc]
      · refine hbehind.imp_right fun hword => ?_
        rw [List.append_assoc]
        exact hclosed.append hword

theorem pairwise_scanFrom (offset : Nat) (t : Text) :
    (scanFrom offset t).Pairwise fun k l => k.stop ≤ l.start := by
  fun_induction scanFrom offset t with
  | case1 => exact .nil
  | case2 offset t l h _ ih =>
    refine List.pairwise_cons.2 ⟨fun k hk => ?_, ih⟩
    obtain ⟨-, before, behind, -, hstart, -⟩ := exists_cut_of_mem_scanFrom hk
    omega

/-- A byte of a text belongs to a token or is structural white space. -/
theorem mem_scanFrom_or_gap {i : Nat} {m : Char × Bool}
    (hm : (outside.marks t.bytes)[i]? = some m) :
    (∃ k ∈ scanFrom offset t, k.start ≤ offset + i ∧ offset + i < k.stop) ∨
      m.2 = true ∧ Text.isGap m.1 = true := by
  fun_induction scanFrom offset t generalizing i with
  | case1 offset t h => exact .inr (marks_gap (isGap_of_next?_eq_none h) m (List.mem_of_getElem? hm))
  | case2 offset t l h _ ih =>
    rw [marks_of_next? h] at hm
    rcases Nat.lt_or_ge i l.gap.byteLength with hi | hi
    · rw [List.getElem?_append_left (by rwa [length_marks_bytes])] at hm
      exact .inr (marks_gap (isGap_of_next? h) m (List.mem_of_getElem? hm))
    · rw [List.getElem?_append_right (by rwa [length_marks_bytes]), length_marks_bytes] at hm
      rcases Nat.lt_or_ge (i - l.gap.byteLength) l.text.byteLength with hlt | hge
      · refine .inl ⟨l.token offset, List.mem_cons_self .., ?_, ?_⟩
        · exact Nat.add_le_add_left hi offset
        · rw [stop_token]
          omega
      · rw [List.getElem?_append_right (by rwa [length_marks_bytes]), length_marks_bytes] at hm
        refine (ih hm).imp_left ?_
        rintro ⟨k, hk, hstart, hstop⟩
        rw [stop_token] at hstart hstop
        exact ⟨k, List.mem_cons_of_mem _ hk, by omega, by omega⟩

/-- The tokens of a text are, in their order, the longest runs of bytes of a word and the single
parentheses that a scan over all its bytes sees. They start and stop between characters and outside
literals, and what they leave of the text is structural white space. -/
theorem scan_extents (t : Text) :
    (∀ start stop, (∃ k ∈ scan t, k.start = start ∧ k.stop = stop) ↔
      IsRun (outside.marks t.bytes) start stop ∨ IsLone (outside.marks t.bytes) start stop) ∧
    (scan t).Pairwise (fun k l => k.stop ≤ l.start) ∧
    (∀ k ∈ scan t, k.start < k.stop ∧ CutFrom t k) ∧
    ∀ i m, (outside.marks t.bytes)[i]? = some m →
      (∃ k ∈ scan t, k.start ≤ i ∧ i < k.stop) ∨ m.2 = true ∧ Text.isGap m.1 = true := by
  refine ⟨fun start stop => ?_, pairwise_scanFrom 0 t, fun k hk => ?_, fun i m hm => ?_⟩
  · rw [scan, exists_scanFrom_iff]
    simp [IsExtent]
  · obtain ⟨hne, before, behind, happ, hstart, hbefore, hbehind⟩ := exists_cut_of_mem_scanFrom hk
    rw [Nat.zero_add] at hstart
    refine ⟨?_, before, behind, happ, hstart.symm, ?_, ?_⟩
    · rw [stop, ← length_bytes]
      exact Nat.lt_add_of_pos_right (List.length_pos_iff.2 (bytes_ne_nil hne))
    · rwa [after_bytes]
    · rwa [after_bytes]
  · have hbyte := @mem_scanFrom_or_gap 0 t i m hm
    rwa [Nat.zero_add] at hbyte

theorem scan_extents_wide :
    ⟨['('], 7⟩ ∈ scan "é=\"(\" (b".toList ∧ CutFrom "é=\"(\" (b".toList ⟨['('], 7⟩ ∧
      (outside.marks (bytes "é=\"(\" (b".toList))[4]? = some ('(', false) ∧
      ∃ k ∈ scan "é=\"(\" (b".toList, k.start ≤ 4 ∧ 4 < k.stop := by
  have hmem : ⟨['('], 7⟩ ∈ scan "é=\"(\" (b".toList := by decide +kernel
  have hmark : (outside.marks (bytes "é=\"(\" (b".toList))[4]? = some ('(', false) := by decide
  obtain ⟨-, -, hcut, hcover⟩ := scan_extents "é=\"(\" (b".toList
  exact ⟨hmem, (hcut _ hmem).2, hmark, (hcover 4 _ hmark).resolve_right fun h => nomatch h.1⟩

end Token

end FilterQuery
