import FilterQuery.Naming
import FilterQuery.Proofs.Number.Numeral
set_option autoImplicit false

/-!
Texts as words and as segments: what is read between separators and put together again, and the
letters and digits that a text has in any case.
-/

namespace FilterQuery

namespace Text

def IsAscii (t : Text) : Prop := ∀ c ∈ t, c.toNat < 128

instance (t : Text) : Decidable t.IsAscii := List.decidableBAll (fun c : Char => c.toNat < 128) t

theorem isUpperLetter_iff (c : Char) : isUpperLetter c = true ↔ 65 ≤ c.toNat ∧ c.toNat ≤ 90 := by
  simp only [isUpperLetter, Bool.and_eq_true, decide_eq_true_eq, Char.le_def,
    UInt32.le_iff_toNat_le]
  exact Iff.rfl

theorem isLowerLetter_iff (c : Char) : isLowerLetter c = true ↔ 97 ≤ c.toNat ∧ c.toNat ≤ 122 := by
  simp only [isLowerLetter, Bool.and_eq_true, decide_eq_true_eq, Char.le_def,
    UInt32.le_iff_toNat_le]
  exact Iff.rfl

theorem toNat_lowerLetter {c : Char} (h : isUpperLetter c = true) :
    (lowerLetter c).toNat = c.toNat + 32 := by
  have hc := (isUpperLetter_iff c).1 h
  have hvalid : (c.toNat + 32).isValidChar := Or.inl (by omega)
  rw [lowerLetter, if_pos h, Char.ofNat, dif_pos hvalid]
  rfl

theorem lowerLetter_of_not_upper {c : Char} (h : isUpperLetter c = false) : lowerLetter c = c := by
  simp [lowerLetter, h]

def isSmall (c : Char) : Bool := isLowerLetter c || isDigit c

theorem isSmall_iff (c : Char) :
    isSmall c = true ↔ 97 ≤ c.toNat ∧ c.toNat ≤ 122 ∨ 48 ≤ c.toNat ∧ c.toNat ≤ 57 := by
  rw [isSmall, Bool.or_eq_true, isLowerLetter_iff, isDigit_iff]

theorem isUpperLetter_of_isSmall {c : Char} (h : isSmall c = true) : isUpperLetter c = false := by
  have hc := (isSmall_iff c).1 h
  rw [← Bool.not_eq_true, isUpperLetter_iff]
  omega

theorem isSmall_lowerLetter {c : Char} (h : isLetterOrDigit c = true) :
    isSmall (lowerLetter c) = true := by
  cases hu : isUpperLetter c with
  | true =>
    have hc := (isUpperLetter_iff c).1 hu
    rw [isSmall_iff, toNat_lowerLetter hu]
    omega
  | false =>
    rw [lowerLetter_of_not_upper hu]
    simpa [isSmall, isLetterOrDigit, isLetter, hu] using h

theorem isLetterOrDigit_of_isSmall {c : Char} (h : isSmall c = true) :
    isLetterOrDigit c = true := by
  simp only [isSmall, Bool.or_eq_true] at h
  rcases h with h | h <;> simp [isLetterOrDigit, isLetter, h]

theorem lowerLetter_lowerLetter (c : Char) : lowerLetter (lowerLetter c) = lowerLetter c := by
  cases hu : isUpperLetter c with
  | true =>
    have hc := (isUpperLetter_iff c).1 hu
    apply lowerLetter_of_not_upper
    rw [← Bool.not_eq_true, isUpperLetter_iff, toNat_lowerLetter hu]
    omega
  | false => rw [lowerLetter_of_not_upper hu, lowerLetter_of_not_upper hu]

theorem isLetterOrDigit_lowerLetter (c : Char) :
    isLetterOrDigit (lowerLetter c) = isLetterOrDigit c := by
  cases hu : isUpperLetter c with
  | true =>
    have hc : isLetterOrDigit c = true := by simp [isLetterOrDigit, isLetter, hu]
    rw [hc, isLetterOrDigit_of_isSmall (isSmall_lowerLetter hc)]
  | false => rw [lowerLetter_of_not_upper hu]

/-! Runs between separators. -/

section Words

variable {separates : Char → Bool}

theorem words_cons_separator {c : Char} (h : separates c = true) (t : Text) :
    words separates (c :: t) = words separates t := by
  simp [words, h]

theorem words_cons_cons {c : Char} (h : separates c = false) (d : Char) (t : Text) :
    words separates (c :: d :: t) =
      if separates d then [c] :: words separates (d :: t)
      else (words separates (d :: t)).modifyHead (c :: ·) := by
  rw [words, if_neg (by simp [h])]

theorem words_eq_filter_splitOnP (t : Text) :
    words separates t = (t.splitOnP separates).filter fun w => !w.isEmpty := by
  induction t with
  | nil => simp [words]
  | cons c t ih =>
    cases hc : separates c with
    | true => simp [words_cons_separator hc, List.splitOnP_cons_eq_if_modifyHead, hc, ih]
    | false =>
      cases t with
      | nil => simp [words, List.splitOnP_cons_eq_if_modifyHead, hc]
      | cons d t =>
        obtain ⟨w, ws, hws⟩ := List.exists_cons_of_ne_nil (List.splitOnP_ne_nil separates t)
        rw [words_cons_cons hc, ih]
        cases hd : separates d <;> simp [List.splitOnP_cons_eq_if_modifyHead, hc, hd, hws]

theorem words_append_separator {c : Char} (h : separates c = true) (u v : Text) :
    words separates (u ++ c :: v) = words separates u ++ words separates v := by
  simp only [words_eq_filter_splitOnP, List.splitOnP_append_cons u v h, List.filter_append]

theorem words_of_forall {u : Text} (hne : u ≠ []) (h : ∀ c ∈ u, separates c = false) :
    words separates u = [u] := by
  simp [words_eq_filter_splitOnP, List.splitOnP_eq_singleton h, hne]

theorem flatten_splitOnP (t : Text) :
    (t.splitOnP separates).flatten = t.filter fun c => !separates c := by
  induction t with
  | nil => simp
  | cons c t ih =>
    obtain ⟨w, ws, hws⟩ := List.exists_cons_of_ne_nil (List.splitOnP_ne_nil separates t)
    rw [hws] at ih
    cases hc : separates c <;> simp_all [List.splitOnP_cons_eq_if_modifyHead]

theorem mem_of_mem_splitOn {a c : Char} {t s : Text} (hs : s ∈ t.splitOn a) (hc : c ∈ s) :
    c ∈ t ∧ c ≠ a := by
  have hflat : c ∈ (t.splitOn a).flatten := List.mem_flatten.2 ⟨s, hs, hc⟩
  rw [List.splitOn_eq_splitOnP, flatten_splitOnP] at hflat
  simpa using hflat

theorem length_splitOn (a : Char) (t : Text) : (t.splitOn a).length = t.count a + 1 := by
  induction t with
  | nil => rfl
  | cons c t ih =>
    rw [List.splitOn_eq_splitOnP] at ih ⊢
    rw [List.splitOnP_cons_eq_if_modifyHead]
    by_cases hc : c = a <;> simp [hc, ih]

theorem splitOn_join_of_splitOn {a : Char} {t : Text} {ss : List Text}
    (h : ∀ s ∈ ss, s ∈ t.splitOn a) (hne : ss ≠ []) : (join [a] ss).splitOn a = ss :=
  List.splitOn_intercalate a (fun s hs ha => (mem_of_mem_splitOn (h s hs) ha).2 rfl) hne

theorem flatten_words (t : Text) :
    (words separates t).flatten = t.filter fun c => !separates c := by
  rw [words_eq_filter_splitOnP, List.flatten_filter_not_isEmpty, flatten_splitOnP]

theorem words_join {c : Char} (h : separates c = true) {ws : List Text}
    (hws : ∀ w ∈ ws, w ≠ [] ∧ ∀ d ∈ w, separates d = false) :
    words separates (join [c] ws) = ws := by
  induction ws with
  | nil => simp [words]
  | cons w ws ih =>
    obtain ⟨⟨hne, hw⟩, hws⟩ := List.forall_mem_cons.1 hws
    cases ws with
    | nil => simpa using words_of_forall hne hw
    | cons v ws =>
      rw [join_cons_cons, List.singleton_append, words_append_separator h, words_of_forall hne hw,
        ih hws]
      rfl

end Words

/-! The letters and digits of a name. -/

@[simp] theorem folded_nil : folded [] = [] := rfl

theorem folded_cons (c : Char) (t : Text) :
    folded (c :: t) = if isLetterOrDigit c then lowerLetter c :: folded t else folded t := by
  cases h : isLetterOrDigit c <;> simp [folded, lower, h]

@[simp] theorem folded_append (t u : Text) : folded (t ++ u) = folded t ++ folded u := by
  simp [folded, lower]

theorem folded_lower (t : Text) : folded (lower t) = folded t := by
  induction t with
  | nil => rfl
  | cons c t ih =>
    rw [lower, List.map_cons, folded_cons, folded_cons, isLetterOrDigit_lowerLetter,
      lowerLetter_lowerLetter, ← lower, ih]

theorem folded_flatten (ts : List Text) : folded ts.flatten = ts.flatMap folded := by
  induction ts with
  | nil => rfl
  | cons t ts ih => rw [List.flatten_cons, folded_append, ih, List.flatMap_cons]

theorem mem_join {sep : Text} {ts : List Text} {c : Char} (h : c ∈ join sep ts) :
    c ∈ sep ∨ ∃ t ∈ ts, c ∈ t := by
  induction ts with
  | nil => simp at h
  | cons t ts ih =>
    cases ts with
    | nil => exact .inr ⟨t, by simp, by simpa using h⟩
    | cons u ts =>
      rw [join_cons_cons, List.mem_append, List.mem_append] at h
      rcases h with h | h | h
      · exact .inr ⟨t, by simp, h⟩
      · exact .inl h
      · exact (ih h).imp_right fun ⟨v, hv, hc⟩ => ⟨v, List.mem_cons_of_mem _ hv, hc⟩

theorem join_append {sep : Text} {ts us : List Text} (ht : ts ≠ []) (hu : us ≠ []) :
    join sep (ts ++ us) = join sep ts ++ sep ++ join sep us := by
  induction ts with
  | nil => exact absurd rfl ht
  | cons t ts ih =>
    cases ts with
    | nil =>
      obtain ⟨u, us, rfl⟩ := List.exists_cons_of_ne_nil hu
      simp
    | cons v ts =>
      have ih := ih (by simp)
      rw [List.cons_append] at ih
      simp [ih]

/-- A mark that is no letter and no digit does not count. -/
theorem folded_join {c : Char} (h : isLetterOrDigit c = false) (ts : List Text) :
    folded (join [c] ts) = ts.flatMap folded := by
  induction ts with
  | nil => rfl
  | cons t ts ih =>
    cases ts with
    | nil => simp
    | cons u ts =>
      rw [join_cons_cons, folded_append, folded_append, ih, folded_cons, h]
      simp

end Text

namespace Letter

theorem isAlphanumeric_of_ascii {c : Char} (h : c.toNat < 128) :
    isAlphanumeric c = Text.isLetterOrDigit c := by
  simp [isAlphanumeric, h]

theorem lower_of_ascii {c : Char} (h : c.toNat < 128) : lower c = [Text.lowerLetter c] := by
  simp [lower, h]

theorem isUpper_of_isSmall {c : Char} (h : Text.isSmall c = true) : isUpper c = false := by
  have hc := (Text.isSmall_iff c).1 h
  rw [isUpper, if_pos (by omega), Text.isUpperLetter_of_isSmall h]

end Letter

end FilterQuery
