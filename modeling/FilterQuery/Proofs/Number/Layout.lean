import FilterQuery.Value
import FilterQuery.Proofs.Number.Numeral
import FilterQuery.Proofs.Number.Shortest
set_option autoImplicit false

/-!
The text of a finite binary number: digits, perhaps a point with more digits, perhaps an exponent.
It reads back as the number, and never as an integer.
-/

namespace FilterQuery

namespace Numeral

def compose (whole fraction : Text) (exponent : Option Int) : Text :=
  whole ++ (if fraction = [] then [] else '.' :: fraction) ++
    (exponent.map fun n => 'e' :: Text.ofInt n).getD []

theorem takeWhile_digits {u v : Text} (hu : ∀ c ∈ u, Text.isDigit c = true)
    (hv : ∀ c ∈ v.head?, Text.isDigit c = false) :
    (u ++ v).takeWhile Text.isDigit = u ∧ (u ++ v).dropWhile Text.isDigit = v := by
  rw [List.takeWhile_append_of_pos hu, List.dropWhile_append_of_pos hu]
  cases v with
  | nil => simp
  | cons c v => simp [hv c (by simp)]

theorem readExponent_getD (exponent : Option Int) :
    readExponent ((exponent.map fun n => 'e' :: Text.ofInt n).getD []) = some (exponent.getD 0) := by
  cases exponent with
  | none => rfl
  | some n => simp [readExponent, Text.toInt?_ofInt]

theorem exponent_head (exponent : Option Int) :
    ∀ c ∈ ((exponent.map fun n => 'e' :: Text.ofInt n).getD []).head?, c = 'e' := by
  cases exponent with
  | none => simp
  | some n => simp

theorem readUnsigned_compose (s : Bool) {whole fraction : Text} (exponent : Option Int)
    (hw : ∀ c ∈ whole, Text.isDigit c = true) (hf : ∀ c ∈ fraction, Text.isDigit c = true)
    (hne : whole ≠ []) :
    readUnsigned s (compose whole fraction exponent) =
      some (Binary64.ofDecimal s (Nat.ofDigitChars 10 (whole ++ fraction) 0)
        (exponent.getD 0 - fraction.length)) := by
  have hexp : ∀ c ∈ ((exponent.map fun n => 'e' :: Text.ofInt n).getD []).head?,
      Text.isDigit c = false := by
    intro c hc
    rw [exponent_head exponent c hc]
    decide
  have hread := readExponent_getD exponent
  rw [compose]
  generalize (exponent.map fun n => 'e' :: Text.ofInt n).getD [] = tail at *
  by_cases hnil : fraction = []
  · subst hnil
    obtain ⟨htake, hdrop⟩ := takeWhile_digits hw hexp
    rw [if_pos rfl, List.append_nil]
    simp only [readUnsigned, htake, hdrop]
    cases tail with
    | nil => simp [hne, hread]
    | cons c r =>
      have hc : c ≠ '.' := by
        rintro rfl
        simp [readExponent] at hread
      simp [hne, hc, hread]
  · obtain ⟨htake, hdrop⟩ := takeWhile_digits (v := '.' :: (fraction ++ tail)) hw
      (by
        intro c hc
        cases hc
        decide)
    obtain ⟨ftake, fdrop⟩ := takeWhile_digits hf hexp
    rw [if_neg hnil, List.append_assoc, List.cons_append]
    simp only [readUnsigned, htake, hdrop, ftake, fdrop]
    simp [hne, hread]

theorem toNat?_eq_none {t : Text} {c : Char} (hc : c ∈ t) (hd : Text.isDigit c = false) :
    Text.toNat? t = none := by
  have hall : t.all Text.isDigit = false := List.all_eq_false.2 ⟨c, hc, by simp [hd]⟩
  simp [Text.toNat?, hall]

theorem toNat?_compose {whole fraction : Text} {exponent : Option Int}
    (h : fraction ≠ [] ∨ exponent ≠ none) : Text.toNat? (compose whole fraction exponent) = none := by
  rcases h with h | h
  · refine toNat?_eq_none (c := '.') ?_ (by decide)
    simp [compose, h]
  · obtain ⟨n, rfl⟩ := Option.ne_none_iff_exists'.1 h
    refine toNat?_eq_none (c := 'e') ?_ (by decide)
    simp [compose]

theorem readWord_of_digit (s : Bool) {c : Char} (h : Text.isDigit c = true) (t : Text) :
    readWord s (c :: t) = none := by
  have hc := (Text.isDigit_iff c).1 h
  have hlow : Text.lowerLetter c = c := by
    have : Text.isUpperLetter c = false := by
      simp only [Text.isUpperLetter, Bool.and_eq_false_iff, decide_eq_false_iff_not, Char.le_def,
        UInt32.le_iff_toNat_le]
      exact .inl (by change ¬(65 ≤ c.toNat); omega)
    simp [Text.lowerLetter, this]
  have hn : c ≠ 'n' := by
    rintro rfl
    exact absurd h (by decide)
  have hi : c ≠ 'i' := by
    rintro rfl
    exact absurd h (by decide)
  simp [readWord, Text.lower, hlow, hn, hi]

end Numeral

namespace Decimal

structure Parts (d : Decimal) (t : Text) where
  whole : Text
  fraction : Text
  exponent : Option Int
  text_eq : t = Numeral.compose whole fraction exponent
  whole_ne_nil : whole ≠ []
  whole_digits : ∀ c ∈ whole, Text.isDigit c = true
  fraction_digits : ∀ c ∈ fraction, Text.isDigit c = true
  not_integral : fraction ≠ [] ∨ exponent ≠ none
  value_eq : (Nat.ofDigitChars 10 (whole ++ fraction) 0 : ℚ) *
    10 ^ (exponent.getD 0 - fraction.length : Int) = d.digits * 10 ^ d.exponent

theorem isDigit_of_mem_zeros {n : Nat} {c : Char} (h : c ∈ List.replicate n '0') :
    Text.isDigit c = true := by
  rw [(List.mem_replicate.1 h).2]
  decide

section

variable (d : Decimal)

/-- The point among the digits, or behind all of them if a power of ten follows. -/
theorem parts_of_point {n : Nat} {exponent : Option Int} (hn : 0 < n)
    (hfraction : n < (Text.ofNat d.digits).length ∨ exponent ≠ none)
    (hplace : exponent.getD 0 - ((Text.ofNat d.digits).length - n : Nat) = d.exponent) :
    Nonempty (Parts d (Numeral.compose ((Text.ofNat d.digits).take n)
      ((Text.ofNat d.digits).drop n) exponent)) := by
  refine ⟨⟨_, _, _, rfl, ?_, ?_, ?_, ?_, ?_⟩⟩
  · rw [ne_eq, List.take_eq_nil_iff, not_or]
    exact ⟨hn.ne', Text.ofNat_ne_nil _⟩
  · exact fun c hc => Text.isDigit_of_mem_ofNat (List.mem_of_mem_take hc)
  · exact fun c hc => Text.isDigit_of_mem_ofNat (List.mem_of_mem_drop hc)
  · exact hfraction.imp_left fun h => by rwa [ne_eq, List.drop_eq_nil_iff, not_le]
  · rw [List.take_append_drop, Text.ofDigitChars_ofNat, List.length_drop, hplace]

/-- Zeros behind the digits, and no fraction but a zero. -/
theorem parts_of_integral (h : 0 ≤ d.exponent) :
    Nonempty (Parts d (Numeral.compose
      (Text.ofNat d.digits ++ List.replicate d.exponent.toNat '0') ['0'] none)) := by
  obtain ⟨n, hn⟩ := Int.eq_ofNat_of_zero_le h
  refine ⟨⟨_, _, _, rfl, ?_, ?_, ?_, ?_, ?_⟩⟩
  · simp [Text.ofNat_ne_nil]
  · exact List.forall_mem_append.2 ⟨fun _ => Text.isDigit_of_mem_ofNat, fun _ => isDigit_of_mem_zeros⟩
  · simp [show Text.isDigit '0' = true by decide]
  · simp
  · rw [Nat.ofDigitChars_append, Nat.ofDigitChars_append, Text.ofDigitChars_ofNat,
      Nat.ofDigitChars_replicate_zero, hn]
    simp only [Int.toNat_natCast, Nat.ofDigitChars, Option.getD_none]
    norm_num
    ring

/-- Zeros between the point and the digits. -/
theorem parts_of_below_one {n : Nat}
    (h : (n + (Text.ofNat d.digits).length : Int) = -d.exponent) :
    Nonempty (Parts d (Numeral.compose ['0'] (List.replicate n '0' ++ Text.ofNat d.digits) none)) := by
  refine ⟨⟨_, _, _, rfl, by simp, ?_, ?_, ?_, ?_⟩⟩
  · simp [show Text.isDigit '0' = true by decide]
  · exact List.forall_mem_append.2 ⟨fun _ => isDigit_of_mem_zeros, fun _ => Text.isDigit_of_mem_ofNat⟩
  · simp [Text.ofNat_ne_nil]
  · rw [Nat.ofDigitChars_append, Nat.ofDigitChars_append, Nat.ofDigitChars_replicate_zero,
      show Nat.ofDigitChars 10 ['0'] 0 = 0 from rfl, Nat.mul_zero, Text.ofDigitChars_ofNat]
    simp only [List.length_append, List.length_replicate, Option.getD_none]
    congr 2
    omega

theorem positional_parts : Nonempty (Parts d (d.positional true)) := by
  have hcompose {t u : Text} (hu : u ≠ []) : t ++ '.' :: u = Numeral.compose t u none := by
    simp [Numeral.compose, hu]
  unfold positional
  dsimp only
  by_cases hexp : 0 ≤ d.exponent
  · rw [if_pos hexp, if_pos rfl, hcompose (by simp)]
    exact parts_of_integral d hexp
  · rw [if_neg hexp]
    by_cases hlen : (Text.ofNat d.digits).length ≤ (-d.exponent).toNat
    · have hfraction : List.replicate ((-d.exponent).toNat - (Text.ofNat d.digits).length) '0' ++
          Text.ofNat d.digits ≠ [] := by simp [Text.ofNat_ne_nil]
      have hparts := parts_of_below_one d
        (n := (-d.exponent).toNat - (Text.ofNat d.digits).length) (by omega)
      rw [if_pos hlen, List.append_assoc]
      rwa [← hcompose hfraction] at hparts
    · rw [if_neg hlen, hcompose (by rw [ne_eq, List.drop_eq_nil_iff]; omega)]
      exact parts_of_point d (by omega) (.inl (by omega)) (by rw [Option.getD_none]; omega)

theorem scientific_parts : Nonempty (Parts d (d.scientific false)) := by
  have hpos := List.length_pos_iff.2 (Text.ofNat_ne_nil d.digits)
  have hcompose : d.scientific false = Numeral.compose ((Text.ofNat d.digits).take 1)
      ((Text.ofNat d.digits).drop 1) (some d.leading) := by
    simp [scientific, Numeral.compose]
  rw [hcompose]
  refine parts_of_point d one_pos (.inr (by simp)) ?_
  rw [Option.getD_some, leading]
  omega

end

end Decimal

namespace Binary64

theorem write_parts (s : Bool) (m : Nat) (e : Int) (hc : Canonical m e) :
    ∃ body, (finite s m e hc).write Value.floatLayout = (if s then ['-'] else []) ++ body ∧
      Nonempty (Decimal.Parts (Decimal.shortest .up m e) body) := by
  have hbody : Nonempty (Decimal.Parts (Decimal.shortest .up m e)
      (if -4 ≤ (Decimal.shortest .up m e).leading ∧ (Decimal.shortest .up m e).leading ≤ 15 then
        (Decimal.shortest .up m e).positional true
      else (Decimal.shortest .up m e).scientific false)) := by
    split
    · exact Decimal.positional_parts _
    · exact Decimal.scientific_parts _
  exact ⟨_, rfl, hbody⟩

theorem ofDecimal_of_parts {s : Bool} {m : Nat} {e : Int} (hc : Canonical m e) {t : Text}
    (p : Decimal.Parts (Decimal.shortest .up m e) t) :
    ofDecimal s (Nat.ofDigitChars 10 (p.whole ++ p.fraction) 0)
      (p.exponent.getD 0 - p.fraction.length) = finite s m e hc := by
  have hvalue := p.value_eq
  have ten : (10 : ℚ) ^ (p.exponent.getD 0 - p.fraction.length : Int) ≠ 0 :=
    (zpow_pos (by norm_num) _).ne'
  rcases Nat.eq_zero_or_pos m with rfl | hm
  · have he : e = -1074 := by
      obtain ⟨-, -, -, h | h⟩ := hc.bounds
      · exact h
      · omega
    subst he
    simp only [Decimal.shortest, if_true, Nat.cast_zero, zero_mul, mul_eq_zero, ten, or_false,
      Nat.cast_eq_zero] at hvalue
    simp [ofDecimal, hvalue, zero]
  · have hwithin := Decimal.within_shortest .up hc hm
    rw [← hvalue] at hwithin
    refine ofDecimal_eq s hc hm ?_ hwithin
    rcases Nat.eq_zero_or_pos (Nat.ofDigitChars 10 (p.whole ++ p.fraction) 0) with h0 | hpos
    · have hx := hwithin.pos hm
      rw [h0] at hx
      simp at hx
    · exact hpos

theorem readMagnitude_of_parts {s : Bool} {m : Nat} {e : Int} (hc : Canonical m e) {t : Text}
    (p : Decimal.Parts (Decimal.shortest .up m e) t) :
    Numeral.readMagnitude s t = some (finite s m e hc) := by
  obtain ⟨c, r, hcons⟩ := List.exists_cons_of_ne_nil p.whole_ne_nil
  have hdigit : Text.isDigit c = true := p.whole_digits c (by simp [hcons])
  have hword : Numeral.readWord s t = none := by
    rw [p.text_eq, Numeral.compose, hcons]
    exact Numeral.readWord_of_digit s hdigit _
  rw [Numeral.readMagnitude, hword, Option.none_or, p.text_eq,
    Numeral.readUnsigned_compose s p.exponent p.whole_digits p.fraction_digits p.whole_ne_nil,
    ofDecimal_of_parts hc p]

theorem eq_cons_of_parts {d : Decimal} {t : Text} (p : Decimal.Parts d t) :
    ∃ c r, t = c :: r ∧ Text.isDigit c = true := by
  obtain ⟨c, r, hcons⟩ := List.exists_cons_of_ne_nil p.whole_ne_nil
  have hd := p.whole_digits c (by simp [hcons])
  rw [p.text_eq, Numeral.compose, hcons, List.append_assoc]
  exact ⟨c, _, rfl, hd⟩

theorem write_eq_cons {x : Binary64} (h : x.isFinite = true) :
    ∃ c r, x.write Value.floatLayout = c :: r ∧ (Text.isDigit c = true ∨ c = '-') := by
  cases x with
  | nan => cases h
  | infinite s => cases h
  | finite s m e hc =>
    obtain ⟨body, hbody, ⟨p⟩⟩ := write_parts s m e hc
    rw [hbody]
    cases s with
    | true => exact ⟨'-', body, rfl, .inr rfl⟩
    | false =>
      obtain ⟨c, r, hcons, hd⟩ := eq_cons_of_parts p
      exact ⟨c, r, hcons, .inl hd⟩

theorem read_write {x : Binary64} (h : x.isFinite = true) :
    readBinary64 (x.write Value.floatLayout) = some x := by
  cases x with
  | nan => cases h
  | infinite s => cases h
  | finite s m e hc =>
    obtain ⟨body, hbody, ⟨p⟩⟩ := write_parts s m e hc
    rw [hbody]
    cases s with
    | true => exact readMagnitude_of_parts hc p
    | false =>
      obtain ⟨c, r, rfl, hd⟩ := eq_cons_of_parts p
      have hminus : c ≠ '-' := by
        rintro rfl
        exact absurd hd (by decide)
      have hplus : c ≠ '+' := by
        rintro rfl
        exact absurd hd (by decide)
      simp only [Bool.false_eq_true, if_false, List.nil_append]
      rw [readBinary64]
      · exact readMagnitude_of_parts hc p
      · intro t ht
        exact hminus (List.cons.inj ht).1
      · intro t ht
        exact hplus (List.cons.inj ht).1

theorem readInt64_write {x : Binary64} (h : x.isFinite = true) :
    readInt64 (x.write Value.floatLayout) = none := by
  cases x with
  | nan => cases h
  | infinite s => cases h
  | finite s m e hc =>
    obtain ⟨body, hbody, ⟨p⟩⟩ := write_parts s m e hc
    have hnat : Text.toNat? body = none := by
      rw [p.text_eq]
      exact Numeral.toNat?_compose p.not_integral
    have hint : Text.toInt? ((finite s m e hc).write Value.floatLayout) = none := by
      rw [hbody]
      cases s with
      | true =>
        change (Text.toNat? body).map _ = none
        rw [hnat]
        rfl
      | false =>
        obtain ⟨c, r, rfl, hd⟩ := eq_cons_of_parts p
        change Text.toInt? (c :: r) = none
        rw [Text.toInt?_of_digit hd, hnat]
        rfl
    rw [readInt64, hint]

end Binary64

end FilterQuery
