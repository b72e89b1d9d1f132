import FilterQuery.Literal
import FilterQuery.Proofs.Quoted
import FilterQuery.Proofs.Number.Layout
import FilterQuery.Proofs.Time.Timestamp
set_option autoImplicit false

/-!
Values as literals. A value that can be written is the value of a literal: a quoted one, or a bare
word of letters, digits, points and minus signs in which no two points meet and none comes last.
-/

namespace FilterQuery

namespace Text

def isPlain (c : Char) : Bool := isLetterOrDigit c || c = '.' || c = '-'

theorem ne_of_isPlain {c d : Char} (hc : isPlain c = true) (hd : isPlain d = false) : c ≠ d := by
  rintro rfl
  rw [hc] at hd
  cases hd

theorem isPlain_of_isDigit {c : Char} (h : isDigit c = true) : isPlain c = true := by
  simp [isPlain, isLetterOrDigit, h]

theorem isPlain_bounds {c : Char} (h : isPlain c = true) : 45 ≤ c.toNat ∧ c.toNat ≤ 122 := by
  simp only [isPlain, isLetterOrDigit, isLetter, isUpperLetter, isLowerLetter, isDigit,
    Bool.or_eq_true, Bool.and_eq_true, decide_eq_true_eq, Char.le_def,
    UInt32.le_iff_toNat_le] at h
  rcases h with ((((h | h) | h) | h) | h)
  · exact ⟨Nat.le_trans (by decide) h.1, Nat.le_trans h.2 (by decide)⟩
  · exact ⟨Nat.le_trans (by decide) h.1, Nat.le_trans h.2 (by decide)⟩
  · exact ⟨Nat.le_trans (by decide) h.1, Nat.le_trans h.2 (by decide)⟩
  · subst h
    decide
  · subst h
    decide

theorem isBlank_of_isPlain {c : Char} (h : isPlain c = true) : isBlank c = false := by
  obtain ⟨hlow, hhigh⟩ := isPlain_bounds h
  simp only [isBlank, Bool.or_eq_false_iff, Bool.and_eq_false_iff, decide_eq_false_iff_not]
  omega

/-- Behind every point stands another character than a point. -/
def PointsInside : Text → Prop
  | [] => True
  | c :: t => (c = '.' → ∃ d ∈ t.head?, d ≠ '.') ∧ PointsInside t

theorem PointsInside.append_left {u v : Text} (hu : '.' ∉ u) (hv : PointsInside v) :
    PointsInside (u ++ v) := by
  induction u with
  | nil => exact hv
  | cons c u ih =>
    rw [List.mem_cons, not_or] at hu
    exact ⟨fun h => absurd h.symm hu.1, ih hu.2⟩

theorem pointsInside_of_not_mem {t : Text} (h : '.' ∉ t) : PointsInside t := by
  simpa using PointsInside.append_left (v := []) h trivial

structure IsBare (t : Text) : Prop where
  ne_nil : t ≠ []
  plain : ∀ c ∈ t, isPlain c = true
  points : PointsInside t

theorem IsBare.cons {c : Char} {t : Text} (hc : isPlain c = true) (hp : c ≠ '.')
    (ht : IsBare t) : IsBare (c :: t) :=
  ⟨List.cons_ne_nil c t, List.forall_mem_cons.2 ⟨hc, ht.plain⟩, fun h => absurd h hp, ht.points⟩

theorem isBare_ofInt (n : Int) : IsBare (ofInt n) := by
  refine ⟨ofInt_ne_nil n, fun c hc => ?_, pointsInside_of_not_mem fun hc => ?_⟩
  · rcases mem_ofInt hc with h | rfl
    · exact isPlain_of_isDigit h
    · decide
  · exact absurd (mem_ofInt hc) (by decide)

end Text

namespace Numeral

theorem isBare_compose {whole fraction : Text} {exponent : Option Int} (hne : whole ≠ [])
    (hw : ∀ c ∈ whole, Text.isDigit c = true) (hf : ∀ c ∈ fraction, Text.isDigit c = true) :
    Text.IsBare (compose whole fraction exponent) := by
  have hpoint : Text.isDigit '.' ≠ true := by decide
  have hexponent : Text.PointsInside ((exponent.map fun n => 'e' :: Text.ofInt n).getD []) := by
    cases exponent with
    | none => trivial
    | some n => exact ⟨fun h => absurd h (by decide), (Text.isBare_ofInt n).points⟩
  refine ⟨by simp [compose, hne], fun c hc => ?_, ?_⟩
  · simp only [compose, List.mem_append] at hc
    rcases hc with (hc | hc) | hc
    · exact Text.isPlain_of_isDigit (hw c hc)
    · split at hc
      · cases hc
      · rcases List.mem_cons.1 hc with rfl | hc
        · decide
        · exact Text.isPlain_of_isDigit (hf c hc)
    · cases exponent with
      | none => cases hc
      | some n =>
        rcases List.mem_cons.1 hc with rfl | hc
        · decide
        · exact (Text.isBare_ofInt n).plain c hc
  · rw [compose, List.append_assoc]
    refine Text.PointsInside.append_left (fun hc => hpoint (hw _ hc)) ?_
    cases fraction with
    | nil => exact hexponent
    | cons d fraction =>
      rw [if_neg (List.cons_ne_nil d fraction)]
      refine ⟨fun _ => ⟨d, rfl, ?_⟩, ?_⟩
      · rintro rfl
        exact hpoint (hf _ (List.mem_cons_self ..))
      · exact Text.PointsInside.append_left (fun hc => hpoint (hf _ hc)) hexponent

end Numeral

theorem Binary64.isBare_write {x : Binary64} (h : x.isFinite = true) :
    Text.IsBare (x.write Value.floatLayout) := by
  cases x with
  | nan => cases h
  | infinite s => cases h
  | finite s m e hc =>
    obtain ⟨body, hbody, ⟨p⟩⟩ := write_parts s m e hc
    have hbare : Text.IsBare body := by
      rw [p.text_eq]
      exact Numeral.isBare_compose p.whole_ne_nil p.whole_digits p.fraction_digits
    rw [hbody]
    cases s with
    | true => exact hbare.cons (by decide) (by decide)
    | false => exact hbare

namespace Literal

def write : Literal → Text
  | quoted t => Quoted.write t
  | bare t => t

def IsWritten : Literal → Prop
  | quoted _ => True
  | bare t => Text.IsBare t

end Literal

def Value.Writable : Value → Prop
  | .int _ | .bool _ | .null => True
  | .float x => x.isFinite = true
  | .text t => Timestamp.read t = none
  | .time t => t.InYears ∧ t.OnClock
  | .list _ => False

instance : (v : Value) → Decidable v.Writable
  | .int _ => isTrue trivial
  | .float x => inferInstanceAs (Decidable (x.isFinite = true))
  | .bool _ => isTrue trivial
  | .text t => inferInstanceAs (Decidable (Timestamp.read t = none))
  | .time t => inferInstanceAs (Decidable (t.InYears ∧ t.OnClock))
  | .null => isTrue trivial
  | .list _ => isFalse id

namespace Literal

theorem bareValue_of_number {c : Char} {t : Text} (h : Text.isDigit c = true ∨ c = '-') {v : Value}
    (hv : bareNumber? (c :: t) = some v) : bareValue (c :: t) = v := by
  have hne : ∀ d : Char, Text.isLetter d = true → c ≠ d := by
    rintro d hd rfl
    rcases h with h | rfl
    · simp only [Text.isLetter, Text.isUpperLetter, Text.isLowerLetter, Bool.or_eq_true,
        Bool.and_eq_true, decide_eq_true_eq, Char.le_def, UInt32.le_iff_toNat_le] at hd
      have hc := (Text.isDigit_iff c).1 h
      rcases hd with hd | hd
      · exact absurd (Nat.le_trans hd.1 hc.2) (by decide)
      · exact absurd (Nat.le_trans hd.1 hc.2) (by decide)
    · exact absurd hd (by decide)
  have ht : c ≠ 't' := hne 't' (by decide)
  have hf : c ≠ 'f' := hne 'f' (by decide)
  have hn : c ≠ 'n' := hne 'n' (by decide)
  have hN : c ≠ 'N' := hne 'N' (by decide)
  simp [bareValue, ht, hf, hn, hN, hv]

theorem exists_of_writable {v : Value} (h : v.Writable) :
    ∃ l : Literal, l.IsWritten ∧ l.write = v.write ∧ l.value = v := by
  cases v with
  | int n =>
    refine ⟨.bare (Text.ofInt n.toInt), Text.isBare_ofInt _, by rw [Value.write]; rfl, ?_⟩
    obtain ⟨c, t, hcons⟩ := List.exists_cons_of_ne_nil (Text.ofInt_ne_nil n.toInt)
    have hc := Text.mem_ofInt (n := n.toInt) (c := c) (by rw [hcons]; simp)
    have hnumber : bareNumber? (Text.ofInt n.toInt) = some (.int n) := by
      rw [bareNumber?, readInt64_ofInt]
    rw [hcons] at hnumber ⊢
    exact bareValue_of_number hc hnumber
  | float x =>
    refine ⟨.bare (x.write Value.floatLayout), Binary64.isBare_write h, by rw [Value.write]; rfl, ?_⟩
    have hx : x.isFinite = true := h
    have hnumber : bareNumber? (x.write Value.floatLayout) = some (.float x) := by
      rw [bareNumber?, Binary64.readInt64_write hx, Binary64.read_write hx]
      simp [hx]
    obtain ⟨c, t, hcons, hc⟩ := Binary64.write_eq_cons hx
    rw [hcons] at hnumber ⊢
    exact bareValue_of_number hc hnumber
  | bool b =>
    refine ⟨.bare (boolText b), ?_, by rw [Value.write]; rfl, ?_⟩
    · cases b
      all_goals exact ⟨by decide, List.all_eq_true.1 (by decide),
        Text.pointsInside_of_not_mem (by decide)⟩
    · cases b <;> rfl
  | text t =>
    refine ⟨.quoted t, trivial, by rw [Value.write]; rfl, ?_⟩
    have hread : Timestamp.read t = none := h
    simp [value, textValue, hread]
  | time t =>
    refine ⟨.quoted t.write, trivial, by rw [Value.write]; rfl, ?_⟩
    simp [value, textValue, Timestamp.read_write h.1 h.2]
  | null =>
    refine ⟨.bare "null".toList, ?_, by rw [Value.write]; rfl, rfl⟩
    exact ⟨by decide, List.all_eq_true.1 (by decide), Text.pointsInside_of_not_mem (by decide)⟩
  | list vs => cases h

end Literal

end FilterQuery
