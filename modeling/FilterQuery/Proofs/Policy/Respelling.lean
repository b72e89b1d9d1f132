import FilterQuery.Proofs.Policy.Resolve
set_option autoImplicit false

/-!
Spellings of one name. Under flexible resolution a policy sees the letters and digits of a name in
any case, so that it says the same of two spellings of one name.
-/

namespace FilterQuery.Policy

variable {p : Policy}

theorem isIgnored_congr (hp : p.resolution = .flexible) {m n : Text}
    (h : (p.rename m).folded = (p.rename n).folded) : p.isIgnored m = p.isIgnored n := by
  rw [Bool.eq_iff_iff, isIgnored_iff, isIgnored_iff, hp]
  simp only [Resolution.same_iff_folded, h]

theorem isAllowed_congr (hp : p.resolution = .flexible) {m n : Text}
    (h : (p.rename m).folded = (p.rename n).folded) : p.isAllowed m = p.isAllowed n := by
  rw [Bool.eq_iff_iff, isAllowed_iff, isAllowed_iff, hp]
  simp only [Resolution.same_iff_folded, h]

theorem admits_congr (hp : p.resolution = .flexible) {m n : Text} (hm : m ≠ []) (hn : n ≠ [])
    (h : (p.rename m).folded = (p.rename n).folded) : p.admits m = p.admits n := by
  rw [Bool.eq_iff_iff, admits_iff, admits_iff, isIgnored_congr hp h, isAllowed_congr hp h]
  simp [hm, hn]

theorem admitsNested_of_no_whitelist (hw : p.whitelist = false) (relation field : Text) :
    p.admitsNested relation field = true ↔ field ≠ [] ∧ p.isIgnored field = false ∧
      p.isIgnored (qualified relation field) = false := by
  unfold admitsNested resolveNested
  rw [hw]
  split
  · rename_i h
    simp only [Option.isSome_none, Bool.false_eq_true, false_iff]
    rintro ⟨hne, hfield, hqualified⟩
    simp [hne, hfield, hqualified] at h
  · rename_i h
    simpa using h

theorem rename_qualified (p : Policy) (relation field : Text) :
    p.rename (qualified relation field) = qualified (p.rename relation) (p.rename field) :=
  p.naming.apply_append_point relation field

theorem admitsNested_congr (hp : p.resolution = .flexible) (hw : p.whitelist = false)
    (relation : Text) {m n : Text} (hm : m ≠ []) (hn : n ≠ [])
    (h : (p.rename m).folded = (p.rename n).folded) :
    p.admitsNested relation m = p.admitsNested relation n := by
  have hqualified : (p.rename (qualified relation m)).folded =
      (p.rename (qualified relation n)).folded := by
    rw [rename_qualified, rename_qualified, qualified, qualified, Text.folded_append,
      Text.folded_append, Text.folded_cons, Text.folded_cons, h]
  rw [Bool.eq_iff_iff, admitsNested_of_no_whitelist hw, admitsNested_of_no_whitelist hw,
    isIgnored_congr hp h, isIgnored_congr hp hqualified]
  simp [hm, hn]

/-- Two spellings have the same letters and digits in any case. A relation may be written in any
way too, but the same one for both. -/
theorem verdicts_of_respelling (hp : p.resolution = .flexible) {m n : Text} (hm : m ≠ [])
    (hn : n ≠ []) (ham : m.IsAscii) (han : n.IsAscii) (h : m.folded = n.folded) :
    p.isIgnored m = p.isIgnored n ∧ p.isAllowed m = p.isAllowed n ∧ p.admits m = p.admits n ∧
      (p.whitelist = false → ∀ relation, p.admitsNested relation m = p.admitsNested relation n) := by
  have hrename : (p.rename m).folded = (p.rename n).folded := by
    rw [rename, rename, p.naming.folded_apply ham, p.naming.folded_apply han, h]
  exact ⟨isIgnored_congr hp hrename, isAllowed_congr hp hrename, admits_congr hp hm hn hrename,
    fun hw relation => admitsNested_congr hp hw relation hm hn hrename⟩

theorem verdicts_of_respelling_qualified :
    let p : Policy := (empty .snakeCase .flexible).ignore ["orders.UserID".toList]
    let m : Text := "orders.user id".toList
    let n : Text := "ORDERSUserId".toList
    (p.resolution = .flexible ∧ m ≠ [] ∧ n ≠ [] ∧ m.IsAscii ∧ n.IsAscii ∧ m.folded = n.folded) ∧
      p.rename m ≠ p.rename n ∧ p.isIgnored m = true ∧
      p.isIgnored m = p.isIgnored n ∧ p.isAllowed m = p.isAllowed n ∧ p.admits m = p.admits n ∧
      (p.whitelist = false → ∀ relation, p.admitsNested relation m = p.admitsNested relation n) := by
  intro p m n
  have hfolded : m.folded = n.folded := by decide
  exact ⟨⟨rfl, by decide, by decide, by decide, by decide, hfolded⟩, by decide, by decide,
    verdicts_of_respelling rfl (by decide) (by decide) (by decide) (by decide) hfolded⟩

end FilterQuery.Policy
