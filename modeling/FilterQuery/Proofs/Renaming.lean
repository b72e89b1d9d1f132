import FilterQuery.Proofs.Naming
set_option autoImplicit false

/-!
Names of any characters that are renamed twice. The second time may break a name at other places,
but it keeps the ASCII letters and digits that the name has in any case: only two letters beyond
ASCII have one of ASCII as lower case, and no letter has one of these two.
-/

namespace FilterQuery

theorem Text.folded_eq_nil_iff {t : Text} :
    t.folded = [] ↔ ∀ c ∈ t, isLetterOrDigit c = false := by
  simp [folded, lower]

theorem Text.point_mem_iff {t : Text} : '.' ∈ t ↔ 1 < (t.splitOn '.').length := by
  rw [length_splitOn, ← List.count_pos_iff]
  omega

namespace Letter

/-- The numbers of the capital I with a dot above and of the sign for kelvin. -/
def dottedOrKelvin : List Nat := [0x130, 0x212A]

/-- A run that maps no number to one of these two, and to one of ASCII only the last of them. -/
def settles (r : CharRun) : Bool :=
  dottedOrKelvin.all (fun n => r.image + (r.last - r.first) < n || n < r.image) &&
    (128 ≤ r.image || (r.first == 0x212A && r.last == 0x212A))

set_option maxRecDepth 20000 in
theorem settles_of_mem_lowerMapping {r : CharRun} (h : r ∈ lowerMapping) : settles r = true := by
  have hall : lowerMapping.all settles = true := by
    -- The characters are written out first, as evaluation cannot take so long a string apart.
    rw [lowerMapping, CharRun.readAll, String.toList_ofList]
    decide +kernel
  exact List.all_eq_true.1 hall r h

set_option maxRecDepth 20000 in
theorem exists_kelvin_lowerMapping : ∃ r ∈ lowerMapping, r.holds 0x212A = true := by
  have hany : lowerMapping.any (fun r => r.holds 0x212A) = true := by
    rw [lowerMapping, CharRun.readAll, String.toList_ofList]
    decide +kernel
  exact List.any_eq_true.1 hany

theorem settles_of_find? {n : Nat} {r : CharRun}
    (h : lowerMapping.find? (fun r => r.holds n) = some r) :
    settles r = true ∧ r.first ≤ n ∧ n ≤ r.last := by
  have hholds : r.holds n = true := by simpa using List.find?_some h
  simp only [CharRun.holds, Bool.and_eq_true, decide_eq_true_eq] at hholds
  exact ⟨settles_of_mem_lowerMapping (List.mem_of_find?_eq_some h), hholds.1⟩

theorem toNat_ofNat (n : Nat) : (Char.ofNat n).toNat = n ∨ (Char.ofNat n).toNat = 0 := by
  by_cases hvalid : n.isValidChar
  · rw [Char.ofNat, dif_pos hvalid]
    exact .inl rfl
  · rw [Char.ofNat, dif_neg hvalid]
    exact .inr rfl

theorem folded_singleton_eq_nil {c : Char} (h : c.toNat = 0 ∨ 128 ≤ c.toNat) :
    Text.folded [c] = [] := by
  have hc : Text.isLetterOrDigit c = false := by
    rw [← Bool.not_eq_true]
    simp only [Text.isLetterOrDigit, Text.isLetter, Bool.or_eq_true, Text.isUpperLetter_iff,
      Text.isLowerLetter_iff, Text.isDigit_iff]
    omega
  rw [Text.folded_cons, hc]
  rfl

/-- A letter beyond ASCII has none of ASCII as lower case, but for two. -/
theorem folded_lower_of_wide {c : Char} (hwide : 128 ≤ c.toNat)
    (h : c.toNat ∉ dottedOrKelvin) : (lower c).folded = [] := by
  simp only [dottedOrKelvin, List.mem_cons, List.not_mem_nil, or_false, not_or] at h
  rw [lower, if_neg (Nat.not_lt.2 hwide), if_neg h.1]
  split
  · rename_i r hfind
    obtain ⟨hsettles, hfirst, hlast⟩ := settles_of_find? hfind
    simp only [settles, Bool.and_eq_true, Bool.or_eq_true, decide_eq_true_eq, beq_iff_eq] at hsettles
    refine folded_singleton_eq_nil ?_
    rcases toNat_ofNat (c.toNat - r.first + r.image) with hn | hn <;> omega
  · exact folded_singleton_eq_nil (.inr hwide)

theorem toNat_lowerLetter_lt {c : Char} (h : c.toNat < 128) :
    (Text.lowerLetter c).toNat < 128 := by
  cases hupper : Text.isUpperLetter c with
  | true =>
    have hc := (Text.isUpperLetter_iff c).1 hupper
    rw [Text.toNat_lowerLetter hupper]
    omega
  | false => rwa [Text.lowerLetter_of_not_upper hupper]

theorem not_mem_of_find? {n : Nat} {r : CharRun}
    (h : lowerMapping.find? (fun r => r.holds n) = some r) :
    (Char.ofNat (n - r.first + r.image)).toNat ∉ dottedOrKelvin := by
  obtain ⟨hsettles, hfirst, hlast⟩ := settles_of_find? h
  rw [settles, Bool.and_eq_true, List.all_eq_true] at hsettles
  intro hmem
  have hrange := hsettles.1 _ hmem
  simp only [Bool.or_eq_true, decide_eq_true_eq] at hrange
  rcases toNat_ofNat (n - r.first + r.image) with hn | hn
  · omega
  · rw [hn] at hmem
    exact absurd hmem (by decide)

theorem not_mem_of_mem_lower {c d : Char} (h : d ∈ lower c) : d.toNat ∉ dottedOrKelvin := by
  rw [lower] at h
  split at h
  · rename_i hascii
    obtain rfl := List.mem_singleton.1 h
    have hlower := toNat_lowerLetter_lt hascii
    simp only [dottedOrKelvin, List.mem_cons, List.not_mem_nil, or_false]
    omega
  split at h
  · simp only [List.mem_cons, List.not_mem_nil, or_false] at h
    rcases h with rfl | rfl <;> decide
  rename_i hdotted
  split at h
  · rename_i r hfind
    obtain rfl := List.mem_singleton.1 h
    exact not_mem_of_find? hfind
  · rename_i hfind
    obtain rfl := List.mem_singleton.1 h
    obtain ⟨r, hr, hholds⟩ := exists_kelvin_lowerMapping
    simp only [dottedOrKelvin, List.mem_cons, List.not_mem_nil, or_false, not_or]
    refine ⟨hdotted, fun hkelvin => absurd hholds ?_⟩
    rw [← hkelvin]
    simpa using List.find?_eq_none.1 hfind r hr

/-- The letters and digits of ASCII that are left of any other character but these two in lower
case. -/
theorem folded_lower {c : Char} (h : c.toNat ∉ dottedOrKelvin) :
    (if isAlphanumeric c then (lower c).folded else []) = Text.folded [c] := by
  by_cases hwide : 128 ≤ c.toNat
  · rw [folded_lower_of_wide hwide h, folded_singleton_eq_nil (.inr hwide), ite_self]
  · have hascii : c.toNat < 128 := Nat.lt_of_not_le hwide
    rw [isAlphanumeric_of_ascii hascii, lower_of_ascii hascii]
    cases hc : Text.isLetterOrDigit c with
    | true => exact Text.folded_lower [c]
    | false => simp [Text.folded_cons, hc]

set_option maxRecDepth 20000 in
theorem isAlphanumeric_dotted :
    isAlphanumeric 'İ' = true ∧ isAlphanumeric (Char.ofNat 0x307) = false := by
  rw [isAlphanumeric, isAlphanumeric, inRuns, inRuns, inRuns, inRuns, alphabeticRuns, numericRuns,
    CharRun.readAll, CharRun.readAll, String.toList_ofList, String.toList_ofList]
  decide +kernel

end Letter

namespace SnakeCase

theorem folded_lowerWord (w : Text) :
    (lowerWord w).folded = w.flatMap fun c => (Letter.lower c).folded := by
  fun_induction lowerWord w with
  | case1 => rfl
  | case2 =>
    have hsigma : (Letter.lower 'Σ').folded = [] :=
      Letter.folded_lower_of_wide (by decide) (by decide)
    rw [List.flatMap_cons, hsigma]
    rfl
  | case3 => simp
  | case4 c d t ih =>
    rw [Text.folded_append, ih]
    rfl

theorem folded_segment_eq (t : Text) :
    (segment t).folded =
      (t.filter Letter.isAlphanumeric).flatMap fun c => (Letter.lower c).folded := by
  rw [segment_eq, Text.folded_join (by decide), List.flatMap_map, ← flatten_pieces,
    List.flatMap_def, List.flatMap_def, List.map_flatten, List.flatten_flatten, List.map_map]
  refine congrArg List.flatten (List.map_congr_left fun w _ => ?_)
  rw [folded_lowerWord, List.flatMap_def]
  rfl

theorem not_mem_of_mem_segment {t : Text} {d : Char} (h : d ∈ segment t) :
    d.toNat ∉ Letter.dottedOrKelvin := by
  have hword : ∀ w : Text, d ∈ lowerWord w → d.toNat ∉ Letter.dottedOrKelvin := by
    intro w hd
    fun_induction lowerWord w with
    | case1 => cases hd
    | case2 =>
      rw [List.mem_singleton.1 hd]
      decide
    | case3 c _ => exact Letter.not_mem_of_mem_lower hd
    | case4 c e t ih => exact (List.mem_append.1 hd).elim Letter.not_mem_of_mem_lower ih
  rw [segment_eq] at h
  rcases Text.mem_join h with hd | ⟨w, hw, hd⟩
  · rw [List.mem_singleton.1 hd]
    decide
  · obtain ⟨v, -, rfl⟩ := List.mem_map.1 hw
    exact hword v hd

theorem folded_segment_of_forall {t : Text} (h : ∀ c ∈ t, c.toNat ∉ Letter.dottedOrKelvin) :
    (segment t).folded = t.folded := by
  rw [folded_segment_eq]
  induction t with
  | nil => rfl
  | cons c t ih =>
    rw [List.forall_mem_cons] at h
    have hcons : Text.folded (c :: t) = Text.folded [c] ++ Text.folded t := Text.folded_append [c] t
    rw [hcons, ← Letter.folded_lower h.1, ← ih h.2]
    cases hc : Letter.isAlphanumeric c <;> simp [hc]

theorem folded_segment_segment (t : Text) : (segment (segment t)).folded = (segment t).folded :=
  folded_segment_of_forall fun _ => not_mem_of_mem_segment

theorem segment_eq_nil_iff {t : Text} (h : t.IsAscii) : segment t = [] ↔ t.folded = [] := by
  constructor
  · intro hnil
    rw [← folded_segment h, hnil, Text.folded_nil]
  · intro hfolded
    have hnone : (pieces t).flatten = [] := by
      rw [flatten_pieces, List.filter_eq_nil_iff]
      intro c hc
      rw [Letter.isAlphanumeric_of_ascii (h c hc), Text.folded_eq_nil_iff.1 hfolded c hc]
      exact Bool.false_ne_true
    have hpieces : pieces t = [] := by
      rw [List.eq_nil_iff_forall_not_mem]
      exact fun w hw => (mem_pieces hw).1 (List.flatten_eq_nil_iff.1 hnone w hw)
    rw [segment_eq, hpieces]
    rfl

end SnakeCase

namespace Naming

theorem point_mem_apply (n : Naming) (t : Text) : '.' ∈ n.apply t ↔ '.' ∈ t := by
  rw [Text.point_mem_iff, length_splitOn_apply, ← Text.point_mem_iff]

theorem folded_apply_apply (n : Naming) (t : Text) :
    (n.apply (n.apply t)).folded = (n.apply t).folded := by
  cases n with
  | asIs => rfl
  | snakeCase =>
    have hsegments : ((t.splitOn '.').map SnakeCase.segment).flatMap
          (fun s => (SnakeCase.segment s).folded) =
        (t.splitOn '.').flatMap fun s => (SnakeCase.segment s).folded := by
      simp only [List.flatMap_map, SnakeCase.folded_segment_segment]
    rw [apply_snakeCase (snakeCase.apply t), splitOn_apply, Text.folded_join (by decide),
      List.flatMap_map, hsegments, apply_snakeCase, Text.folded_join (by decide), List.flatMap_map]

/-- Snake case need not be reached at once: a capital I with a dot above has its dot apart in lower
case, and the next time the dot goes. -/
theorem snakeCase_apply_dotted :
    snakeCase.apply ['İ'] = ['i', Char.ofNat 0x307] ∧
      snakeCase.apply ['i', Char.ofNat 0x307] = ['i'] := by
  have hi : Letter.isAlphanumeric 'i' = true := by decide
  have hsmall : Letter.lower 'i' = ['i'] := by decide
  have hcapital : Letter.lower 'İ' = ['i', Char.ofNat 0x307] := by decide
  have hone : ['İ'].splitOn '.' = [['İ']] := by decide
  have htwo : ['i', Char.ofNat 0x307].splitOn '.' = [['i', Char.ofNat 0x307]] := by decide
  simp [apply_snakeCase, hone, htwo, SnakeCase.segment, Text.words, SnakeCase.splitCase,
    SnakeCase.lowerWord, Text.join, Letter.isAlphanumeric_dotted, hi, hsmall, hcapital]

theorem apply_eq_nil_iff (n : Naming) {t : Text} (h : t.IsAscii) (hne : t ≠ []) :
    n.apply t = [] ↔ n = .snakeCase ∧ '.' ∉ t ∧ t.folded = [] := by
  cases n with
  | asIs => simp [apply, hne]
  | snakeCase =>
    rw [and_iff_right rfl]
    constructor
    · intro hnil
      have hpoint : '.' ∉ t := by
        rw [← point_mem_apply snakeCase, hnil]
        exact List.not_mem_nil
      refine ⟨hpoint, ?_⟩
      rw [← folded_apply snakeCase h, hnil, Text.folded_nil]
    · rintro ⟨hpoint, hfolded⟩
      have hsplit : t.splitOn '.' = [t] := List.splitOn_eq_singleton hpoint
      rw [apply_snakeCase, hsplit, List.map_singleton, (SnakeCase.segment_eq_nil_iff h).2 hfolded]
      rfl

end Naming

end FilterQuery
