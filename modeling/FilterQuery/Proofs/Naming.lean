import FilterQuery.Proofs.Words
set_option autoImplicit false

/-!
Names and their spellings. A name of ASCII characters in snake case stays as it is when it is put
in snake case again, and it has the letters and digits of the name it was made from.
-/

namespace FilterQuery

namespace Letter

set_option maxRecDepth 20000 in
theorem lt_image_of_mem_lowerMapping {r : CharRun} (h : r ∈ lowerMapping) : 46 < r.image := by
  have hall : lowerMapping.all (fun r => decide (46 < r.image)) = true := by
    -- The characters are written out first, as evaluation cannot take so long a string apart.
    rw [lowerMapping, CharRun.readAll, String.toList_ofList]
    decide +kernel
  exact of_decide_eq_true (List.all_eq_true.1 hall r h)

theorem ofNat_ne_point {n : Nat} (h : 46 < n) : Char.ofNat n ≠ '.' := by
  intro hc
  have hnumber : (Char.ofNat n).toNat = 46 := congrArg Char.toNat hc
  rw [Char.ofNat] at hnumber
  by_cases hvalid : n.isValidChar
  · rw [dif_pos hvalid] at hnumber
    exact absurd hnumber (Nat.ne_of_gt h)
  · rw [dif_neg hvalid] at hnumber
    cases hnumber

theorem point_not_mem_lower {c : Char} (h : isAlphanumeric c = true) : '.' ∉ lower c := by
  intro hc
  by_cases hascii : c.toNat < 128
  · rw [lower_of_ascii hascii] at hc
    rw [isAlphanumeric_of_ascii hascii] at h
    have hsmall := Text.isSmall_lowerLetter h
    rw [← List.mem_singleton.1 hc] at hsmall
    cases hsmall
  rw [lower, if_neg hascii] at hc
  split at hc
  · revert hc
    decide
  split at hc
  · rename_i r hfind
    have himage := lt_image_of_mem_lowerMapping (List.mem_of_find?_eq_some hfind)
    exact ofNat_ne_point (Nat.lt_add_left _ himage) (List.mem_singleton.1 hc).symm
  · rw [← List.mem_singleton.1 hc] at hascii
    exact hascii (by decide)

end Letter

namespace SnakeCase

theorem splitCase_ne_nil {t : Text} (h : t ≠ []) (k : Casing) : splitCase k t ≠ [] := by
  fun_induction splitCase k t with
  | case1 => exact absurd rfl h
  | case2 => simp
  | case3 => simp
  | case4 => simp
  | case5 _ _ _ _ _ _ ih => simpa using ih (by simp)

theorem flatten_splitCase (k : Casing) (t : Text) : (splitCase k t).flatten = t := by
  have hhead (k : Casing) (c d : Char) (t : Text) :
      ((splitCase k (d :: t)).modifyHead (c :: ·)).flatten =
        c :: (splitCase k (d :: t)).flatten := by
    obtain ⟨w, ws, hws⟩ := List.exists_cons_of_ne_nil (splitCase_ne_nil (List.cons_ne_nil d t) k)
    simp [hws]
  fun_induction splitCase k t with
  | case1 => rfl
  | case2 => rfl
  | case3 _ _ _ _ _ ih => simp [ih]
  | case4 _ _ _ _ _ _ ih => rw [List.flatten_cons, hhead, ih, List.nil_append]
  | case5 _ _ _ _ _ _ ih => rw [hhead, ih]

/-- A word is empty only if it is the first and goes on behind a capital letter. -/
theorem splitCase_words_ne_nil (k : Casing) (t : Text) :
    (∀ w ∈ (splitCase k t).tail, w ≠ []) ∧ (k ≠ .upper → ∀ w ∈ splitCase k t, w ≠ []) := by
  have hhead {k : Casing} {t : Text} (c : Char) (h : ∀ w ∈ (splitCase k t).tail, w ≠ []) :
      ∀ w ∈ (splitCase k t).modifyHead (c :: ·), w ≠ [] := by
    cases hs : splitCase k t with
    | nil => simp
    | cons v vs => simpa [hs] using h
  fun_induction splitCase k t with
  | case1 => simp
  | case2 => simp
  | case3 _ _ _ _ _ ih =>
    have hall := ih.2 (by decide)
    exact ⟨hall, fun _ => List.forall_mem_cons.2 ⟨by simp, hall⟩⟩
  | case4 _ _ _ _ _ hk ih => exact ⟨hhead _ ih.1, fun h => absurd hk.1 h⟩
  | case5 _ _ _ _ _ _ ih =>
    exact ⟨fun w hw => hhead _ ih.1 w (List.mem_of_mem_tail hw), fun _ => hhead _ ih.1⟩

theorem splitCase_of_not_upper {t : Text} (hne : t ≠ [])
    (h : ∀ c ∈ t, Letter.isUpper c = false) (k : Casing) : splitCase k t = [t] := by
  fun_induction splitCase k t with
  | case1 => exact absurd rfl hne
  | case2 => rfl
  | case3 _ _ _ _ hd _ => simp_all
  | case4 _ _ _ _ _ hc _ => simp_all
  | case5 _ _ _ _ _ _ ih =>
    rw [ih (by simp) fun c hc => h c (List.mem_cons_of_mem _ hc)]
    rfl

theorem lowerWord_of_ascii {t : Text} (h : t.IsAscii) : lowerWord t = Text.lower t := by
  fun_induction lowerWord t with
  | case1 => rfl
  | case2 => exact absurd (h 'Σ' (by simp)) (by decide)
  | case3 c _ => rw [Letter.lower_of_ascii (h c (by simp))]; rfl
  | case4 c d t ih =>
    rw [Letter.lower_of_ascii (h c (by simp)), ih fun e he => h e (List.mem_cons_of_mem _ he)]
    rfl

def pieces (t : Text) : List Text :=
  (Text.words (fun c => !Letter.isAlphanumeric c) t).flatMap (splitCase .uncased)

theorem segment_eq (t : Text) : segment t = Text.join ['_'] ((pieces t).map lowerWord) := by
  rw [pieces, List.map_flatMap]
  rfl

theorem flatten_flatMap_splitCase (k : Casing) (runs : List Text) :
    (runs.flatMap (splitCase k)).flatten = runs.flatten := by
  induction runs with
  | nil => rfl
  | cons run runs ih =>
    rw [List.flatMap_cons, List.flatten_append, flatten_splitCase, ih, List.flatten_cons]

theorem flatten_pieces (t : Text) : (pieces t).flatten = t.filter Letter.isAlphanumeric := by
  rw [pieces, flatten_flatMap_splitCase, Text.flatten_words]
  simp

theorem mem_pieces {t w : Text} (h : w ∈ pieces t) :
    w ≠ [] ∧ ∀ c ∈ w, c ∈ t ∧ Letter.isAlphanumeric c = true := by
  obtain ⟨run, -, hw⟩ := List.mem_flatMap.1 h
  refine ⟨(splitCase_words_ne_nil .uncased run).2 (by decide) w hw, fun c hc => ?_⟩
  have hflat : c ∈ (pieces t).flatten := List.mem_flatten.2 ⟨w, h, hc⟩
  rw [flatten_pieces] at hflat
  exact List.mem_filter.1 hflat

theorem map_lowerWord_pieces {t : Text} (h : t.IsAscii) :
    (pieces t).map lowerWord = (pieces t).map Text.lower :=
  List.map_congr_left fun _ hw => lowerWord_of_ascii fun c hc => h c ((mem_pieces hw).2 c hc).1

def IsPart (w : Text) : Prop := w ≠ [] ∧ ∀ c ∈ w, Text.isSmall c = true

theorem isPart_of_mem {t w : Text} (h : t.IsAscii) (hw : w ∈ (pieces t).map lowerWord) :
    IsPart w := by
  rw [map_lowerWord_pieces h] at hw
  obtain ⟨v, hv, rfl⟩ := List.mem_map.1 hw
  obtain ⟨hne, hall⟩ := mem_pieces hv
  refine ⟨by simpa [Text.lower] using hne, fun c hc => ?_⟩
  obtain ⟨d, hd, rfl⟩ := List.mem_map.1 hc
  obtain ⟨hdt, halnum⟩ := hall d hd
  rw [Letter.isAlphanumeric_of_ascii (h d hdt)] at halnum
  exact Text.isSmall_lowerLetter halnum

namespace IsPart

variable {w : Text}

theorem isAscii (h : IsPart w) : w.IsAscii := by
  intro c hc
  have hc := (Text.isSmall_iff c).1 (h.2 c hc)
  omega

theorem isAlphanumeric (h : IsPart w) {c : Char} (hc : c ∈ w) :
    Letter.isAlphanumeric c = true := by
  rw [Letter.isAlphanumeric_of_ascii (h.isAscii c hc),
    Text.isLetterOrDigit_of_isSmall (h.2 c hc)]

theorem lowerWord_eq (h : IsPart w) : lowerWord w = w := by
  have hmap : w.map Text.lowerLetter = w.map id := List.map_congr_left fun c hc =>
    Text.lowerLetter_of_not_upper (Text.isUpperLetter_of_isSmall (h.2 c hc))
  rw [lowerWord_of_ascii h.isAscii, Text.lower, hmap, List.map_id]

theorem splitCase_eq (h : IsPart w) (k : Casing) : splitCase k w = [w] :=
  splitCase_of_not_upper h.1 (fun c hc => Letter.isUpper_of_isSmall (h.2 c hc)) k

end IsPart

theorem flatMap_splitCase {ws : List Text} (h : ∀ w ∈ ws, IsPart w) (k : Casing) :
    ws.flatMap (splitCase k) = ws := by
  induction ws with
  | nil => rfl
  | cons w ws ih =>
    obtain ⟨hw, hws⟩ := List.forall_mem_cons.1 h
    rw [List.flatMap_cons, hw.splitCase_eq, ih hws]
    rfl

theorem segment_join {ws : List Text} (h : ∀ w ∈ ws, IsPart w) :
    segment (Text.join ['_'] ws) = Text.join ['_'] ws := by
  have hwords : Text.words (fun c => !Letter.isAlphanumeric c) (Text.join ['_'] ws) = ws :=
    Text.words_join (by decide) fun w hw =>
      ⟨(h w hw).1, fun c hc => by rw [(h w hw).isAlphanumeric hc]; rfl⟩
  have hlower : ws.map lowerWord = ws.map id :=
    List.map_congr_left fun w hw => (h w hw).lowerWord_eq
  rw [segment_eq, pieces, hwords, flatMap_splitCase h, hlower, List.map_id]

theorem segment_segment {t : Text} (h : t.IsAscii) : segment (segment t) = segment t := by
  rw [segment_eq t, segment_join fun _ => isPart_of_mem h]

theorem mem_segment {t : Text} {c : Char} (h : t.IsAscii) (hc : c ∈ segment t) :
    c = '_' ∨ Text.isSmall c = true := by
  rw [segment_eq] at hc
  rcases Text.mem_join hc with hc | ⟨w, hw, hc⟩
  · exact .inl (List.mem_singleton.1 hc)
  · exact .inr ((isPart_of_mem h hw).2 c hc)

theorem point_not_mem_lowerWord {w : Text} (h : ∀ c ∈ w, Letter.isAlphanumeric c = true) :
    '.' ∉ lowerWord w := by
  fun_induction lowerWord w with
  | case1 => simp
  | case2 => decide
  | case3 c _ => exact Letter.point_not_mem_lower (h c (by simp))
  | case4 c d t ih =>
    rw [List.mem_append, not_or]
    exact ⟨Letter.point_not_mem_lower (h c (by simp)),
      ih fun e he => h e (List.mem_cons_of_mem _ he)⟩

theorem point_not_mem_segment (t : Text) : '.' ∉ segment t := by
  rw [segment_eq]
  intro hc
  rcases Text.mem_join hc with hc | ⟨w, hw, hc⟩
  · exact absurd hc (by decide)
  · obtain ⟨v, hv, rfl⟩ := List.mem_map.1 hw
    exact point_not_mem_lowerWord (fun c hc => ((mem_pieces hv).2 c hc).2) hc

theorem folded_filter {t : Text} (h : t.IsAscii) :
    Text.folded (t.filter Letter.isAlphanumeric) = t.folded := by
  have hfilter : t.filter Letter.isAlphanumeric = t.filter Text.isLetterOrDigit :=
    List.filter_congr fun c hc => Letter.isAlphanumeric_of_ascii (h c hc)
  rw [hfilter, Text.folded, List.filter_filter, Text.folded]
  simp

theorem folded_segment {t : Text} (h : t.IsAscii) : (segment t).folded = t.folded := by
  rw [segment_eq, Text.folded_join (by decide), map_lowerWord_pieces h, List.flatMap_map]
  calc (pieces t).flatMap (fun w => (Text.lower w).folded)
      = (pieces t).flatMap Text.folded := by simp only [Text.folded_lower]
    _ = Text.folded (pieces t).flatten := (Text.folded_flatten _).symm
    _ = t.folded := by rw [flatten_pieces, folded_filter h]

end SnakeCase

namespace Naming

theorem isAscii_of_mem_splitOn {t s : Text} (h : t.IsAscii) (hs : s ∈ t.splitOn '.') :
    s.IsAscii := fun c hc => h c (Text.mem_of_mem_splitOn hs hc).1

theorem apply_snakeCase (t : Text) :
    snakeCase.apply t = Text.join ['.'] ((t.splitOn '.').map SnakeCase.segment) := rfl

theorem apply_append_point (n : Naming) (r f : Text) :
    n.apply (r ++ '.' :: f) = n.apply r ++ '.' :: n.apply f := by
  cases n with
  | asIs => rfl
  | snakeCase =>
    have hne (t : Text) : (t.splitOn '.').map SnakeCase.segment ≠ [] := by simp
    rw [apply, List.splitOn_append_cons_self, List.map_append, Text.join_append (hne r) (hne f)]
    simp [apply]

theorem splitOn_apply (t : Text) :
    (snakeCase.apply t).splitOn '.' = (t.splitOn '.').map SnakeCase.segment := by
  refine List.splitOn_intercalate '.' (fun s hs => ?_) (by simp)
  obtain ⟨u, -, rfl⟩ := List.mem_map.1 hs
  exact SnakeCase.point_not_mem_segment u

theorem length_splitOn_apply (n : Naming) (t : Text) :
    ((n.apply t).splitOn '.').length = (t.splitOn '.').length := by
  cases n with
  | asIs => rfl
  | snakeCase => rw [splitOn_apply, List.length_map]

theorem apply_apply (n : Naming) {t : Text} (h : t.IsAscii) : n.apply (n.apply t) = n.apply t := by
  cases n with
  | asIs => rfl
  | snakeCase =>
    have hsegments : ((t.splitOn '.').map SnakeCase.segment).map SnakeCase.segment =
        (t.splitOn '.').map SnakeCase.segment := by
      rw [List.map_map]
      exact List.map_congr_left fun s hs =>
        SnakeCase.segment_segment (isAscii_of_mem_splitOn h hs)
    rw [apply_snakeCase (snakeCase.apply t), splitOn_apply, hsegments, apply_snakeCase]

theorem folded_splitOn (t : Text) : (t.splitOn '.').flatMap Text.folded = t.folded := by
  rw [← Text.folded_join (c := '.') (by decide), Text.join_splitOn]

theorem folded_apply (n : Naming) {t : Text} (h : t.IsAscii) : (n.apply t).folded = t.folded := by
  cases n with
  | asIs => rfl
  | snakeCase =>
    rw [apply, Text.folded_join (by decide), List.flatMap_map, ← folded_splitOn t]
    rw [List.flatMap_def, List.flatMap_def]
    exact congrArg List.flatten (List.map_congr_left fun s hs =>
      SnakeCase.folded_segment (isAscii_of_mem_splitOn h hs))

end Naming

namespace Resolution

variable {r : Resolution}

theorem same_iff_folded {a b : Text} :
    same .flexible a b = true ↔ Text.folded a = Text.folded b := beq_iff_eq

@[simp] theorem same_refl (r : Resolution) (a : Text) : r.same a a = true := by
  cases r <;> simp [same, looselyEqual]

theorem same_symm {a b : Text} (h : r.same a b = true) : r.same b a = true := by
  cases r <;> simp_all [same, looselyEqual]

theorem same_trans {a b c : Text} (h : r.same a b = true) (h' : r.same b c = true) :
    r.same a c = true := by
  cases r <;> simp_all [same, looselyEqual]

theorem find?_eq_some {names : List Text} {name n : Text} (h : r.find? names name = some n) :
    n ∈ names ∧ r.same n name = true := by
  have hfound {f : Text → Bool} (h : names.find? f = some n) : n ∈ names ∧ f n = true :=
    ⟨List.mem_of_find?_eq_some h, List.find?_some h⟩
  cases r with
  | strict => exact hfound h
  | flexible =>
    rcases Option.or_eq_some_iff.1 h with h | ⟨-, h⟩
    · obtain ⟨hmem, heq⟩ := hfound h
      exact ⟨hmem, by rw [beq_iff_eq.1 heq, same_refl]⟩
    · exact hfound h

theorem find?_of_mem {names : List Text} {a : Text} (h : a ∈ names) :
    r.find? names a = some a := by
  have hexact : names.find? (· == a) = some a := by
    cases hfind : names.find? (· == a) with
    | none => exact absurd (beq_self_eq_true a) (List.find?_eq_none.1 hfind a h)
    | some b =>
      have hb : (b == a) = true := by simpa using List.find?_some hfind
      rw [eq_of_beq hb]
  cases r with
  | strict => exact hexact
  | flexible => simp only [find?, hexact, Option.some_or]

/-- Of two names that are the same, and not listed as they are spelled, it does not matter which is
looked up. -/
theorem find?_congr {names : List Text} {a b : Text} (ha : a ∉ names) (hb : b ∉ names)
    (h : r.same a b = true) : r.find? names a = r.find? names b := by
  have hexact {a : Text} (ha : a ∉ names) : names.find? (· == a) = none :=
    List.find?_eq_none.2 fun n hn heq => ha (eq_of_beq heq ▸ hn)
  cases r with
  | strict => rw [eq_of_beq h]
  | flexible =>
    simp only [find?, hexact ha, hexact hb, Option.none_or]
    rw [same_iff_folded] at h
    simp only [looselyEqual, h]

/-- A name is found if it is the same as a listed one; that its own spelling goes first does not
matter here. -/
theorem isSome_find? (r : Resolution) (names : List Text) (name : Text) :
    (r.find? names name).isSome = true ↔ ∃ n ∈ names, r.same n name = true := by
  cases r with
  | strict => simp [find?, same]
  | flexible =>
    simp only [find?, same, Option.isSome_or, Bool.or_eq_true, List.find?_isSome, beq_iff_eq]
    constructor
    · rintro (⟨n, hn, rfl⟩ | h)
      · exact ⟨n, hn, same_refl .flexible n⟩
      · exact h
    · exact .inr

end Resolution

end FilterQuery
