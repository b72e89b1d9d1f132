import FilterQuery.Proofs.Naming
import Mathlib.Data.List.Forall2
import Mathlib.Data.List.Induction
set_option autoImplicit false

/-!
Where the words of a name end. The words of a run of letters and digits end where its case turns,
and in snake case a name has these words in small letters. A name of ASCII characters keeps its
segments, its letters and its digits, and gains nothing but underscores.
-/

namespace FilterQuery

namespace Letter

def OneCase (t : Text) : Prop := ∀ c ∈ t, isUpper c = true → isLower c = false

theorem oneCase_of_ascii {t : Text} (h : t.IsAscii) : OneCase t := by
  intro c hc hupper
  have hascii := h c hc
  rw [isUpper, if_pos hascii, Text.isUpperLetter_iff] at hupper
  rw [isLower, if_pos hascii, ← Bool.not_eq_true, Text.isLowerLetter_iff]
  omega

def IsCased (c : Char) : Prop := isLower c = true ∨ isUpper c = true

instance (c : Char) : Decidable (IsCased c) := inferInstanceAs (Decidable (_ ∨ _))

def Uncased (t : Text) : Prop := ∀ c ∈ t, ¬IsCased c

end Letter

namespace Casing

theorem next_of_cased {c : Char} (h : Letter.IsCased c) (j k : Casing) : j.next c = k.next c := by
  rcases h with h | h <;> simp [next, h]

theorem next_of_not_cased {c : Char} (h : ¬Letter.IsCased c) (k : Casing) : k.next c = k := by
  simp only [Letter.IsCased, not_or] at h
  simp [next, h]

/-- For characters that start with a cased one it does not matter what is before them. -/
theorem foldl_next_of_cased {d : Char} {t before after : Text} (hd : Letter.IsCased d)
    (happ : before ++ after = d :: t) (hne : before ≠ []) (j k : Casing) :
    before.foldl next j = before.foldl next k := by
  obtain ⟨c, before, rfl⟩ := List.exists_cons_of_ne_nil hne
  obtain rfl : c = d := (List.cons.inj happ).1
  rw [List.foldl_cons, List.foldl_cons, next_of_cased hd j k]

theorem next_eq_lower_iff (c : Char) : uncased.next c = lower ↔ Letter.isLower c = true := by
  rw [next]
  split
  · simp_all
  · split <;> simp_all

theorem next_eq_upper_iff (c : Char) :
    uncased.next c = upper ↔ Letter.isLower c = false ∧ Letter.isUpper c = true := by
  rw [next]
  split
  · simp_all
  · split <;> simp_all

theorem foldl_next_of_uncased {t : Text} (h : Letter.Uncased t) (k : Casing) :
    t.foldl next k = k := by
  induction t with
  | nil => rfl
  | cons c t ih =>
    obtain ⟨hc, ht⟩ := List.forall_mem_cons.1 h
    rw [List.foldl_cons, next_of_not_cased hc, ih ht]

/-- The case of a text is that of its last letter with a case. -/
theorem foldl_next_append {front digits : Text} {a : Char} (ha : Letter.IsCased a)
    (h : Letter.Uncased digits) (k : Casing) :
    (front ++ a :: digits).foldl next k = uncased.next a := by
  rw [List.foldl_append, List.foldl_cons, foldl_next_of_uncased h, next_of_cased ha]

theorem exists_last_cased {t : Text} (h : t.foldl next .uncased ≠ .uncased) :
    ∃ (front : Text) (a : Char) (digits : Text),
      t = front ++ a :: digits ∧ Letter.IsCased a ∧ Letter.Uncased digits := by
  induction t using List.reverseRecOn with
  | nil => exact absurd rfl h
  | append_singleton t c ih =>
    by_cases hc : Letter.IsCased c
    · exact ⟨t, c, [], rfl, hc, by simp [Letter.Uncased]⟩
    · rw [List.foldl_append, List.foldl_cons, List.foldl_nil, next_of_not_cased hc] at h
      obtain ⟨front, a, digits, rfl, ha, hdigits⟩ := ih h
      refine ⟨front, a, digits ++ [c], by simp, ha, ?_⟩
      intro d hd
      rcases List.mem_append.1 hd with hd | hd
      · exact hdigits d hd
      · rw [List.mem_singleton.1 hd]
        exact hc

/-- Behind characters of this case a word ends before this text. -/
def EndsBefore (k : Casing) : Text → Prop
  | [] => False
  | c :: t => Letter.isUpper c = true ∧
      (k = lower ∨ k = upper ∧ ∃ d ∈ t.head?, Letter.isLower d = true)

end Casing

namespace SnakeCase

def EndsAt (ws : List Text) (before : Text) : Prop :=
  ∃ u us, u :: us <+: ws ∧ (u :: us).flatten = before

theorem endsAt_modifyHead {ws : List Text} (h : ws ≠ []) (c : Char) (before : Text) :
    EndsAt (ws.modifyHead (c :: ·)) (c :: before) ↔ EndsAt ws before := by
  obtain ⟨w, ws, rfl⟩ := List.exists_cons_of_ne_nil h
  simp [EndsAt, List.cons_prefix_cons]

theorem not_endsAt_modifyHead {ws : List Text} (h : ws ≠ []) (c : Char) :
    ¬EndsAt (ws.modifyHead (c :: ·)) [] := by
  obtain ⟨w, ws, rfl⟩ := List.exists_cons_of_ne_nil h
  simp [EndsAt, List.cons_prefix_cons]

theorem endsAt_cons (w : Text) (ws : List Text) (before : Text) :
    EndsAt (w :: ws) (w ++ before) ↔ before = [] ∨ EndsAt ws before := by
  constructor
  · rintro ⟨u, us, hpre, hflat⟩
    obtain rfl := (List.cons_prefix_cons.1 hpre).1
    rw [List.flatten_cons, List.append_cancel_left_eq] at hflat
    cases us with
    | nil => exact .inl hflat.symm
    | cons v us => exact .inr ⟨v, us, (List.cons_prefix_cons.1 hpre).2, hflat⟩
  · rintro (rfl | ⟨u, us, hpre, rfl⟩)
    · exact ⟨w, [], by simp⟩
    · exact ⟨w, u :: us, by simpa using hpre, by simp⟩

theorem endsAt_letter_cons (c : Char) (ws : List Text) (before : Text) :
    EndsAt ([c] :: ws) (c :: before) ↔ before = [] ∨ EndsAt ws before := endsAt_cons [c] ws before

theorem endsAt_nil_cons (ws : List Text) (before : Text) :
    EndsAt ([] :: ws) before ↔ before = [] ∨ EndsAt ws before := endsAt_cons [] ws before

theorem endsAt_nil_iff {k : Casing} {c : Char} {t : Text} (hcased : Letter.OneCase (c :: t))
    (hk : k = .lower → Letter.isUpper c = false) :
    EndsAt (splitCase k (c :: t)) [] ↔ k.EndsBefore (c :: t) := by
  have hnot (h : ¬(k = .upper ∧ Letter.isUpper c = true ∧ ∃ d ∈ t.head?, Letter.isLower d = true)) :
      ¬k.EndsBefore (c :: t) := by
    rintro ⟨hc, hlower | ⟨hupper, hbehind⟩⟩
    · simp [hk hlower] at hc
    · exact h ⟨hupper, hc, hbehind⟩
  cases t with
  | nil => exact iff_of_false (by simp [splitCase, EndsAt, List.cons_prefix_cons]) (hnot (by simp))
  | cons d t =>
    rw [splitCase]
    split
    · rename_i h
      have hd := hcased d (by simp) h.2
      exact iff_of_false (by simp [EndsAt, List.cons_prefix_cons]) (hnot (by simp [hd]))
    split
    · rename_i h
      exact iff_of_true ⟨[], [], by simp⟩ ⟨h.2.1, .inr ⟨h.1, d, rfl, h.2.2⟩⟩
    · rename_i h
      exact iff_of_false (not_endsAt_modifyHead (splitCase_ne_nil (List.cons_ne_nil d t) _) c)
        (hnot (by simpa using h))

/-- The scan of a run, from a case that it has read, ends its words where the case turns. No capital
is read behind a small letter, as the word has ended before it. -/
theorem endsAt_splitCase_iff {k : Casing} {before after : Text} (hafter : after ≠ [])
    (hcased : Letter.OneCase (before ++ after))
    (hk : k = .lower → ∀ c ∈ (before ++ after).head?, Letter.isUpper c = false) :
    EndsAt (splitCase k (before ++ after)) before ↔
      (before.foldl Casing.next k).EndsBefore after := by
  induction before generalizing k with
  | nil =>
    obtain ⟨c, t, rfl⟩ := List.exists_cons_of_ne_nil hafter
    exact endsAt_nil_iff hcased (by simpa using hk)
  | cons c before ih =>
    obtain ⟨d, t, happ⟩ :=
      List.exists_cons_of_ne_nil (List.append_ne_nil_of_right_ne_nil before hafter)
    have hne (k : Casing) : splitCase k (d :: t) ≠ [] := splitCase_ne_nil (List.cons_ne_nil d t) k
    rw [List.cons_append, happ] at hcased hk
    obtain ⟨-, hrest⟩ := List.forall_mem_cons.1 hcased
    rw [happ] at ih
    rw [List.cons_append, happ, splitCase, List.foldl_cons]
    split
    · -- A word ends behind the small letter, and the capital is read with no case before it.
      rename_i h
      rw [endsAt_letter_cons, @ih .uncased hrest nofun]
      by_cases hbefore : before = []
      · obtain rfl : after = d :: t := by simpa [hbefore] using happ
        simp [hbefore, Casing.EndsBefore, h]
      · rw [Casing.foldl_next_of_cased (.inr h.2) happ hbefore .uncased (k.next c),
          or_iff_right hbefore]
    split
    · -- A word ends before the capital, and the small letter is read with no case before it.
      rename_i h
      rw [endsAt_nil_cons, or_iff_right (List.cons_ne_nil _ _), endsAt_modifyHead (hne _),
        @ih .uncased hrest nofun]
      by_cases hbefore : before = []
      · obtain rfl : after = d :: t := by simpa [hbefore] using happ
        have hd : Letter.isUpper d = false := by
          by_contra hupper
          have hlower := hrest d (by simp) (by simpa using hupper)
          simp [h.2.2] at hlower
        simp [hbefore, Casing.EndsBefore, hd]
      · rw [Casing.foldl_next_of_cased (.inl h.2.2) happ hbefore]
    · rename_i h _
      rw [endsAt_modifyHead (hne _), ih hrest (by simpa using h)]

/-- Where a word of a run ends and the next one starts. Characters without a case, the digits, go
with the letter before them. -/
inductive WordBreak : Text → Text → Prop
  /-- Between a small letter and a capital. -/
  | capital {front digits behind : Text} {a c : Char} (ha : Letter.isLower a = true)
      (hdigits : Letter.Uncased digits) (hc : Letter.isUpper c = true) :
      WordBreak (front ++ a :: digits) (c :: behind)
  /-- Before the last of several capitals, if a small letter follows it. -/
  | lastCapital {front digits behind : Text} {a c d : Char} (ha : Letter.isUpper a = true)
      (hdigits : Letter.Uncased digits) (hc : Letter.isUpper c = true)
      (hd : Letter.isLower d = true) :
      WordBreak (front ++ a :: digits) (c :: d :: behind)

theorem wordBreak_iff {before after : Text} (hcased : Letter.OneCase before) :
    WordBreak before after ↔ (before.foldl Casing.next .uncased).EndsBefore after := by
  constructor
  · intro h
    cases h with
    | capital ha hdigits hc =>
      rw [Casing.foldl_next_append (.inl ha) hdigits]
      exact ⟨hc, .inl ((Casing.next_eq_lower_iff _).2 ha)⟩
    | lastCapital ha hdigits hc hd =>
      have hlower := hcased _ (by simp) ha
      rw [Casing.foldl_next_append (.inr ha) hdigits]
      exact ⟨hc, .inr ⟨(Casing.next_eq_upper_iff _).2 ⟨hlower, ha⟩, _, rfl, hd⟩⟩
  · intro h
    cases after with
    | nil => exact h.elim
    | cons c behind =>
      obtain ⟨hc, hcase⟩ := h
      have hne : before.foldl Casing.next .uncased ≠ .uncased := by
        rcases hcase with hcase | ⟨hcase, -⟩ <;> simp [hcase]
      obtain ⟨front, a, digits, rfl, ha, hdigits⟩ := Casing.exists_last_cased hne
      rw [Casing.foldl_next_append ha hdigits] at hcase
      rcases hcase with hlower | ⟨hupper, d, hhead, hd⟩
      · exact .capital ((Casing.next_eq_lower_iff a).1 hlower) hdigits hc
      · obtain ⟨behind, rfl⟩ := List.head?_eq_some_iff.1 hhead
        exact .lastCapital ((Casing.next_eq_upper_iff a).1 hupper).2 hdigits hc hd

structure IsSplit (run : Text) (ws : List Text) : Prop where
  flatten : ws.flatten = run
  ne_nil : ∀ w ∈ ws, w ≠ []
  ends_iff : ∀ before after, before ++ after = run →
    ((∃ us vs, us ≠ [] ∧ vs ≠ [] ∧ us ++ vs = ws ∧ us.flatten = before ∧ vs.flatten = after) ↔
      WordBreak before after)

theorem isSplit_splitCase {run : Text} (hcased : Letter.OneCase run) :
    IsSplit run (splitCase .uncased run) where
  flatten := flatten_splitCase .uncased run
  ne_nil := (splitCase_words_ne_nil .uncased run).2 nofun
  ends_iff := by
    rintro before after rfl
    have hne := (splitCase_words_ne_nil .uncased (before ++ after)).2 nofun
    have hflat := flatten_splitCase .uncased (before ++ after)
    have hbefore : Letter.OneCase before := fun c hc => hcased c (List.mem_append_left after hc)
    have hends (hafter : after ≠ []) :=
      endsAt_splitCase_iff (k := .uncased) hafter hcased nofun
    rw [wordBreak_iff hbefore]
    constructor
    · rintro ⟨us, vs, hus, hvs, happ, hus', hvs'⟩
      obtain ⟨u, us, rfl⟩ := List.exists_cons_of_ne_nil hus
      obtain ⟨v, vs, rfl⟩ := List.exists_cons_of_ne_nil hvs
      have hafter : after ≠ [] := by
        rw [← hvs', List.flatten_cons]
        exact List.append_ne_nil_of_left_ne_nil (hne v (by simp [← happ])) _
      exact (hends hafter).1 ⟨u, us, ⟨v :: vs, happ⟩, hus'⟩
    · intro h
      have hafter : after ≠ [] := by
        rintro rfl
        exact h
      obtain ⟨u, us, ⟨vs, happ⟩, hus⟩ := (hends hafter).2 h
      rw [← happ, List.flatten_append, hus, List.append_cancel_left_eq] at hflat
      refine ⟨u :: us, vs, List.cons_ne_nil _ _, ?_, happ, hus, hflat⟩
      rintro rfl
      exact hafter hflat.symm

/-- A segment in snake case: the runs between the characters that are no letters and no digits, each
as its words, all in small letters with underscores between. -/
def Spells (s spelled : Text) : Prop :=
  ∃ runs, List.Forall₂ IsSplit (s.splitOnP fun c => !Letter.isAlphanumeric c) runs ∧
    spelled = Text.join ['_'] (runs.flatten.map Text.lower)

theorem pieces_eq_flatten (s : Text) : pieces s =
    ((s.splitOnP fun c => !Letter.isAlphanumeric c).map (splitCase .uncased)).flatten := by
  rw [pieces, Text.words_eq_filter_splitOnP, ← List.flatMap_def]
  -- an empty run has no words
  induction s.splitOnP fun c => !Letter.isAlphanumeric c with
  | nil => rfl
  | cons run runs ih => cases run <;> simp [splitCase, ih]

theorem spells_segment {s : Text} (h : s.IsAscii) : Spells s (segment s) := by
  refine ⟨(s.splitOnP fun c => !Letter.isAlphanumeric c).map (splitCase .uncased), ?_, ?_⟩
  · rw [List.forall₂_map_right_iff, List.forall₂_same]
    intro run hrun
    refine isSplit_splitCase (Letter.oneCase_of_ascii fun c hc => h c ?_)
    have hflat : c ∈ (s.splitOnP fun c => !Letter.isAlphanumeric c).flatten :=
      List.mem_flatten.2 ⟨run, hrun, hc⟩
    rw [Text.flatten_splitOnP] at hflat
    exact List.mem_of_mem_filter hflat
  · rw [segment_eq, map_lowerWord_pieces h, pieces_eq_flatten]

end SnakeCase

namespace Naming

theorem mem_snakeCase_apply {t : Text} {c : Char} (h : t.IsAscii) (hc : c ∈ snakeCase.apply t) :
    Text.isSmall c = true ∨ c = '_' ∨ c = '.' := by
  rw [apply_snakeCase] at hc
  rcases Text.mem_join hc with hc | ⟨s, hs, hc⟩
  · exact .inr (.inr (List.mem_singleton.1 hc))
  · obtain ⟨u, hu, rfl⟩ := List.mem_map.1 hs
    rcases SnakeCase.mem_segment (isAscii_of_mem_splitOn h hu) hc with hc | hc
    · exact .inr (.inl hc)
    · exact .inl hc

/-- The letters and digits of a name in snake case are those of the name in small letters. -/
theorem filter_snakeCase_apply {t : Text} (h : t.IsAscii) :
    (snakeCase.apply t).filter Text.isLetterOrDigit =
      Text.lower (t.filter Text.isLetterOrDigit) := by
  have hlower : Text.lower ((snakeCase.apply t).filter Text.isLetterOrDigit) =
      ((snakeCase.apply t).filter Text.isLetterOrDigit).map id := by
    refine List.map_congr_left fun c hc => ?_
    obtain ⟨hmem, hletter⟩ := List.mem_filter.1 hc
    rcases mem_snakeCase_apply h hmem with hsmall | rfl | rfl
    · exact Text.lowerLetter_of_not_upper (Text.isUpperLetter_of_isSmall hsmall)
    · exact absurd hletter (by decide)
    · exact absurd hletter (by decide)
  calc (snakeCase.apply t).filter Text.isLetterOrDigit
      = Text.lower ((snakeCase.apply t).filter Text.isLetterOrDigit) := by rw [hlower, List.map_id]
    _ = Text.lower (t.filter Text.isLetterOrDigit) := folded_apply snakeCase h

/-- Names of ASCII characters in snake case stay as they are. They have the segments of the name that
they were made from, its letters and digits in small letters, and nothing else but underscores; each
segment is spelled with underscores between its words. -/
theorem apply_snakeCase_spells (t : Text) (h : t.IsAscii) :
    snakeCase.apply (snakeCase.apply t) = snakeCase.apply t ∧
      ((snakeCase.apply t).splitOn '.').length = (t.splitOn '.').length ∧
      (snakeCase.apply t).filter Text.isLetterOrDigit =
        Text.lower (t.filter Text.isLetterOrDigit) ∧
      (∀ c ∈ snakeCase.apply t, Text.isLetterOrDigit c = true ∨ c = '_' ∨ c = '.') ∧
      List.Forall₂ SnakeCase.Spells (t.splitOn '.') ((snakeCase.apply t).splitOn '.') := by
  refine ⟨apply_apply snakeCase h, length_splitOn_apply snakeCase t, filter_snakeCase_apply h,
    fun c hc => ?_, ?_⟩
  · exact (mem_snakeCase_apply h hc).imp_left Text.isLetterOrDigit_of_isSmall
  · rw [splitOn_apply, List.forall₂_map_right_iff, List.forall₂_same]
    exact fun s hs => SnakeCase.spells_segment (isAscii_of_mem_splitOn h hs)

theorem apply_snakeCase_spells_mixed :
    let name : Text := "userID..HTTPServer2Go-x__9".toList
    let spelled : Text := "user_id..http_server2_go_x_9".toList
    name.IsAscii ∧ snakeCase.apply name = spelled ∧
      snakeCase.apply spelled = spelled ∧
      (spelled.splitOn '.').length = (name.splitOn '.').length ∧
      spelled.filter Text.isLetterOrDigit = Text.lower (name.filter Text.isLetterOrDigit) ∧
      (∀ c ∈ spelled, Text.isLetterOrDigit c = true ∨ c = '_' ∨ c = '.') ∧
      List.Forall₂ SnakeCase.Spells (name.splitOn '.') (spelled.splitOn '.') := by
  intro name spelled
  have hascii : name.IsAscii := by decide
  have hspelled : snakeCase.apply name = spelled := by decide
  have h := apply_snakeCase_spells name hascii
  rw [hspelled] at h
  exact ⟨hascii, hspelled, h⟩

end Naming

end FilterQuery

