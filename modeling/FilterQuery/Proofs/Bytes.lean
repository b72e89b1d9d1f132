import FilterQuery.Proofs.Quoted
set_option autoImplicit false

/-!
A scan over bytes. The delimiters are ASCII and the bytes of any other character are not, so a scan
over the UTF-8 bytes of a text stands where the scan over its characters stands, and marks each byte
as that one marks the character.
-/

namespace FilterQuery

namespace Text

/-- The UTF-8 bytes of a text, each as the character of its number. -/
def bytes (t : Text) : Text := t.flatMap fun c => (String.utf8EncodeChar c).map Char.ofUInt8

@[simp] theorem bytes_nil : bytes [] = [] := rfl

theorem bytes_cons (c : Char) (t : Text) : bytes (c :: t) = bytes [c] ++ bytes t := by simp [bytes]

@[simp] theorem bytes_append (t u : Text) : bytes (t ++ u) = bytes t ++ bytes u := by simp [bytes]

theorem length_bytes (t : Text) : t.bytes.length = t.byteLength := by
  induction t with
  | nil => rfl
  | cons c t ih =>
    rw [bytes_cons, List.length_append, ih, byteLength_cons]
    simp [bytes, String.length_utf8EncodeChar]

theorem bytes_ne_nil {t : Text} (h : t ≠ []) : t.bytes ≠ [] := by
  obtain ⟨c, t, rfl⟩ := List.exists_cons_of_ne_nil h
  rw [← List.length_pos_iff, length_bytes, byteLength_cons]
  exact Nat.add_pos_left c.utf8Size_pos _

def IsWide (c : Char) : Prop := 128 ≤ c.toNat

instance (c : Char) : Decidable (IsWide c) := inferInstanceAs (Decidable (128 ≤ c.toNat))

theorem ne_of_isWide {c d : Char} (hc : IsWide c) (hd : ¬IsWide d) : c ≠ d := by
  rintro rfl
  exact hd hc

theorem bytes_of_not_isWide {c : Char} (h : ¬IsWide c) : bytes [c] = [c] := by
  have hval : c.val.toNat ≤ 127 := Nat.le_of_not_lt h
  have hbyte : Char.ofUInt8 (UInt8.ofNat c.val.toNat) = c := by
    refine Char.ext (UInt32.toNat_inj.1 ((UInt8.toNat_toUInt32 _).trans ?_))
    rw [UInt8.toNat_ofNat']
    omega
  simp only [bytes, List.flatMap_cons, List.flatMap_nil, String.utf8EncodeChar, if_pos hval,
    List.map_cons, List.map_nil, hbyte, List.append_nil]

theorem bytes_of_forall_not_isWide {t : Text} (h : ∀ c ∈ t, ¬IsWide c) : t.bytes = t := by
  induction t with
  | nil => rfl
  | cons c t ih =>
    rw [List.forall_mem_cons] at h
    rw [bytes_cons, bytes_of_not_isWide h.1, ih h.2]
    rfl

theorem isWide_ofUInt8 {b : UInt8} (h : 128 ≤ b.toNat) : IsWide (Char.ofUInt8 b) := by
  have hval : (Char.ofUInt8 b).toNat = b.toNat := UInt8.toNat_toUInt32 b
  rwa [IsWide, hval]

theorem isWide_of_mem_bytes {c b : Char} (h : IsWide c) (hb : b ∈ bytes [c]) : IsWide b := by
  have hval : ¬c.val.toNat ≤ 127 := Nat.not_le_of_lt h
  simp only [bytes, List.flatMap_cons, List.flatMap_nil, List.append_nil] at hb
  obtain ⟨x, hx, rfl⟩ := List.mem_map.1 hb
  refine isWide_ofUInt8 ?_
  simp only [String.utf8EncodeChar, if_neg hval] at hx
  -- each byte is a remainder with 128 or more added to it
  repeat' split at hx
  all_goals
    simp only [List.mem_cons, List.not_mem_nil, or_false] at hx
    rcases hx with rfl | rfl | rfl | rfl
    all_goals
      rw [UInt8.toNat_ofNat']
      omega

end Text

namespace QuoteState

open Text

theorem next_of_isWide {c : Char} (h : IsWide c) :
    ∀ q : QuoteState, q.next c = if q = .outside then .outside else .inside := by
  have hquote : c ≠ '"' := ne_of_isWide h (by decide)
  have hslash : c ≠ '\\' := ne_of_isWide h (by decide)
  intro q
  cases q <;> simp [next, hquote, hslash]

theorem structural_of_isWide {c : Char} (h : IsWide c) (q : QuoteState) :
    q.structural c = (q == .outside) := by
  have hquote : c ≠ '"' := ne_of_isWide h (by decide)
  simp [structural, hquote]

theorem marks_of_isWide {t : Text} (h : ∀ c ∈ t, IsWide c) (q : QuoteState) :
    q.marks t = t.map fun c => (c, q == .outside) := by
  induction t generalizing q with
  | nil => rfl
  | cons c t ih =>
    rw [List.forall_mem_cons] at h
    rw [marks_cons, ih h.2, structural_of_isWide h.1, next_of_isWide h.1, List.map_cons]
    cases q <;> rfl

theorem after_of_isWide {t : Text} (h : ∀ c ∈ t, IsWide c) (hne : t ≠ []) (q : QuoteState) :
    q.after t = if q = .outside then .outside else .inside := by
  induction t generalizing q with
  | nil => exact absurd rfl hne
  | cons c t ih =>
    rw [List.forall_mem_cons] at h
    rw [after_cons, next_of_isWide h.1]
    by_cases ht : t = []
    · rw [ht, after_nil]
    · rw [ih h.2 ht]
      cases q <;> rfl

/-- What a scan makes of one character it makes of the bytes of the character. -/
theorem scan_bytes_singleton (q : QuoteState) (c : Char) :
    q.after (bytes [c]) = q.next c ∧ q.marks (bytes [c]) = (bytes [c]).map (·, q.structural c) := by
  by_cases h : IsWide c
  · have hbytes : ∀ b ∈ bytes [c], IsWide b := fun _ hb => isWide_of_mem_bytes h hb
    rw [after_of_isWide hbytes (bytes_ne_nil (List.cons_ne_nil _ _)), next_of_isWide h,
      marks_of_isWide hbytes, structural_of_isWide h]
    exact ⟨rfl, rfl⟩
  · rw [bytes_of_not_isWide h]
    exact ⟨rfl, rfl⟩

@[simp] theorem after_bytes (q : QuoteState) (t : Text) : q.after t.bytes = q.after t := by
  induction t generalizing q with
  | nil => rfl
  | cons c t ih => rw [bytes_cons, after_append, (scan_bytes_singleton q c).1, ih, after_cons]

theorem marks_bytes (q : QuoteState) (t : Text) :
    q.marks t.bytes = (q.marks t).flatMap fun m => (bytes [m.1]).map (·, m.2) := by
  induction t generalizing q with
  | nil => rfl
  | cons c t ih =>
    obtain ⟨hafter, hmarks⟩ := scan_bytes_singleton q c
    rw [bytes_cons, marks_append, hafter, hmarks, ih, marks_cons, List.flatMap_cons]

theorem length_marks (q : QuoteState) (t : Text) : (q.marks t).length = t.length := by
  induction t generalizing q with
  | nil => rfl
  | cons c t ih => rw [marks_cons, List.length_cons, ih, List.length_cons]

theorem length_marks_bytes (q : QuoteState) (t : Text) :
    (q.marks t.bytes).length = t.byteLength := by
  rw [length_marks, length_bytes]

theorem exists_mark_of_byte {q : QuoteState} {t : Text} {m : Char × Bool}
    (hm : m ∈ q.marks t.bytes) : ∃ n ∈ q.marks t, m.1 ∈ bytes [n.1] ∧ m.2 = n.2 := by
  rw [marks_bytes, List.mem_flatMap] at hm
  obtain ⟨n, hn, hm⟩ := hm
  obtain ⟨b, hb, rfl⟩ := List.mem_map.1 hm
  exact ⟨n, hn, hb, rfl⟩

/-- What no structural character has no structural byte has, if only ASCII characters can have
it. -/
theorem Clear.bytes {p : Char → Bool} {q : QuoteState} {t : Text}
    (hp : ∀ c, IsWide c → p c = false) (h : q.Clear p t) : q.Clear p t.bytes := by
  intro m hm hs
  obtain ⟨n, hn, hb, hmark⟩ := exists_mark_of_byte hm
  by_cases hwide : IsWide n.1
  · exact hp _ (isWide_of_mem_bytes hwide hb)
  · rw [bytes_of_not_isWide hwide, List.mem_singleton] at hb
    rw [hb]
    exact h n hn (hmark ▸ hs)

end QuoteState

end FilterQuery
