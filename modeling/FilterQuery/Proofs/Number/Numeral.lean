import FilterQuery.Number.Numeral
import Mathlib.Algebra.Group.Nat.Defs
set_option autoImplicit false

/-!
Decimal numerals: the numeral of a number holds digits only and reads back, for natural numbers,
integers and integers of 64 bits, and with zeros in front.
-/

namespace FilterQuery

namespace Text

theorem isDigit_iff (c : Char) : isDigit c = true ↔ 48 ≤ c.toNat ∧ c.toNat ≤ 57 := by
  simp only [isDigit, Bool.and_eq_true, decide_eq_true_eq, Char.le_def, UInt32.le_iff_toNat_le]
  exact Iff.rfl

theorem isDigit_of_mem_ofNat {n : Nat} {c : Char} (h : c ∈ ofNat n) : isDigit c = true := by
  have hc := Nat.isDigit_of_mem_toDigits (by decide) (by decide) h
  simp only [Char.isDigit, ge_iff_le, Bool.and_eq_true, decide_eq_true_eq] at hc
  simpa [isDigit, Char.le_def] using hc

theorem ofNat_ne_nil (n : Nat) : ofNat n ≠ [] := Nat.toDigits_ne_nil

theorem ofDigitChars_ofNat (n : Nat) : Nat.ofDigitChars 10 (ofNat n) 0 = n :=
  Nat.ofDigitChars_ten_toDigits

theorem toNat?_ofNat (n : Nat) : toNat? (ofNat n) = some n := by
  have hall : (ofNat n).all isDigit = true := List.all_eq_true.2 fun c hc => isDigit_of_mem_ofNat hc
  simp [toNat?, ofNat_ne_nil, hall, ofDigitChars_ofNat]

theorem ofNat_eq_cons (n : Nat) : ∃ c t, ofNat n = c :: t ∧ isDigit c = true := by
  obtain ⟨c, t, h⟩ := List.exists_cons_of_ne_nil (ofNat_ne_nil n)
  exact ⟨c, t, h, isDigit_of_mem_ofNat (by rw [h]; simp)⟩

theorem toInt?_of_digit {c : Char} (h : isDigit c = true) (t : Text) :
    toInt? (c :: t) = (toNat? (c :: t)).map Int.ofNat := by
  have hc := (isDigit_iff c).1 h
  unfold toInt?
  split
  · rename_i heq
    cases heq
    exact absurd hc (by decide)
  · rename_i heq
    cases heq
    exact absurd hc (by decide)
  · rfl

theorem toInt?_ofNat (n : Nat) : toInt? (ofNat n) = some (n : Int) := by
  obtain ⟨c, t, h, hc⟩ := ofNat_eq_cons n
  rw [h, toInt?_of_digit hc, ← h, toNat?_ofNat]
  rfl

theorem toInt?_ofInt (n : Int) : toInt? (ofInt n) = some n := by
  cases n with
  | ofNat n => exact toInt?_ofNat n
  | negSucc n =>
    simp only [ofInt, toInt?, toNat?_ofNat, Option.map_some, Option.some.injEq]
    exact Int.negSucc_eq n ▸ rfl

theorem mem_ofInt {n : Int} {c : Char} (h : c ∈ ofInt n) : isDigit c = true ∨ c = '-' := by
  cases n with
  | ofNat n => exact .inl (isDigit_of_mem_ofNat h)
  | negSucc n =>
    rcases List.mem_cons.1 h with h | h
    · exact .inr h
    · exact .inl (isDigit_of_mem_ofNat h)

theorem ofInt_ne_nil (n : Int) : ofInt n ≠ [] := by
  cases n with
  | ofNat n => exact ofNat_ne_nil n
  | negSucc n => exact List.cons_ne_nil _ _

theorem length_padded {width n : Nat} (hw : 0 < width) (h : n < 10 ^ width) :
    (padded width n).length = width := by
  have hlen : (ofNat n).length ≤ width := (Nat.length_toDigits_le_iff (by decide) hw).2 h
  simp only [padded, List.length_append, List.length_replicate]
  omega

theorem isDigit_of_mem_padded {width n : Nat} {c : Char} (h : c ∈ padded width n) :
    isDigit c = true := by
  simp only [padded, List.mem_append, List.mem_replicate] at h
  rcases h with ⟨-, rfl⟩ | h
  · decide
  · exact isDigit_of_mem_ofNat h

theorem ofDigitChars_padded (width n : Nat) : Nat.ofDigitChars 10 (padded width n) 0 = n := by
  rw [padded, Nat.ofDigitChars_append, Nat.ofDigitChars_replicate_zero, Nat.mul_zero,
    ofDigitChars_ofNat]

/-- Digits read behind a number stay below the next number with as many zeros. -/
theorem ofDigitChars_lt {t : Text} (h : ∀ c ∈ t, isDigit c = true) (n : Nat) :
    Nat.ofDigitChars 10 t n < 10 ^ t.length * (n + 1) := by
  induction t generalizing n with
  | nil => simp
  | cons c t ih =>
    rw [List.forall_mem_cons] at h
    have hc := (isDigit_iff c).1 h.1
    have hzero : '0'.toNat = 48 := rfl
    rw [Nat.ofDigitChars_cons, hzero]
    calc Nat.ofDigitChars 10 t (10 * n + (c.toNat - 48))
        < 10 ^ t.length * (10 * n + (c.toNat - 48) + 1) := ih h.2 _
      _ ≤ 10 ^ t.length * (10 * (n + 1)) := Nat.mul_le_mul_left _ (by omega)
      _ = 10 ^ (c :: t).length * (n + 1) := by rw [List.length_cons, Nat.pow_succ, Nat.mul_assoc]

end Text

theorem readInt64_ofInt (n : Int64) : readInt64 (Text.ofInt n.toInt) = some n := by
  have hlow : Int64.minValue.toInt ≤ n.toInt := Int64.le_iff_toInt_le.1 (Int64.minValue_le n)
  have hhigh : n.toInt ≤ Int64.maxValue.toInt := Int64.le_iff_toInt_le.1 (Int64.le_maxValue n)
  rw [readInt64, Text.toInt?_ofInt]
  simp only [hlow, hhigh, and_self, if_true, Int64.ofInt_toInt]

end FilterQuery
