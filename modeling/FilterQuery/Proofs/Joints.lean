import FilterQuery.Proofs.Section
set_option autoImplicit false

/-!
Where the sections of a load block part. The cut ends a block at its own bracket exactly if the
square brackets inside it balance, and the split finds the sections exactly if no bar stands at the
top of one and no bracket is left open at the end of one that is followed by another.
-/

namespace FilterQuery.LoadSection

open QuoteState Condition

/-- The square brackets of a text balance: no prefix closes more than it opens. -/
structure Squared (t : Text) : Prop where
  closed : Closed t
  even : bracketBalance .outside t = 0
  prefixes : ∀ u, u <+: t → 0 ≤ bracketBalance .outside u

instance (t : Text) : Decidable (Squared t) :=
  decidable_of_iff (outside.after t = outside ∧ bracketBalance .outside t = 0 ∧
      ∀ u ∈ t.inits, 0 ≤ bracketBalance .outside u)
    ⟨fun ⟨hc, he, hp⟩ => ⟨hc, he, fun u hu => hp u ((List.mem_inits u t).2 hu)⟩,
      fun ⟨hc, he, hp⟩ => ⟨hc, he, fun u hu => hp u ((List.mem_inits u t).1 hu)⟩⟩

theorem exists_bracketNesting {q : QuoteState} {depth : Nat} {c : Char}
    (h : ¬(q.structural c = true ∧ c = ']' ∧ depth + 1 ≤ 1)) :
    ∃ d : Nat, bracketNesting q (depth + 1) c = d + 1 ∧ (d : Int) = depth + bracketBalance q [c] := by
  rw [bracketNesting, bracketBalance, bracketBalance]
  by_cases hopen : q.structural c = true ∧ c = '['
  · exact ⟨depth + 1, by rw [if_pos hopen], by rw [if_pos hopen]; omega⟩
  · by_cases hclose : q.structural c = true ∧ c = ']'
    · have hdepth : 0 < depth := by
        by_contra hzero
        exact h ⟨hclose.1, hclose.2, by omega⟩
      exact ⟨depth - 1, by rw [if_neg hopen, if_pos hclose]; omega,
        by rw [if_neg hopen, if_pos hclose]; omega⟩
    · exact ⟨depth, by rw [if_neg hopen, if_neg hclose], by
        rw [if_neg hopen, if_neg hclose]; omega⟩

theorem cutBlock_eq_iff {q : QuoteState} {depth : Nat} {t : Text} :
    cutBlock q (depth + 1) (t ++ [']']) = some (t, []) ↔ q.after t = .outside ∧
      depth + bracketBalance q t = 0 ∧ ∀ u, u <+: t → 0 ≤ depth + bracketBalance q u := by
  induction t generalizing q depth with
  | nil =>
    have hstructural : q.structural ']' = true ↔ q = .outside := by cases q <;> decide
    rw [List.nil_append, cutBlock]
    by_cases hc : q.structural ']' = true ∧ ']' = ']' ∧ depth + 1 ≤ 1
    · rw [if_pos hc]
      simp [bracketBalance, hstructural.1 hc.1, show depth = 0 by omega]
    · rw [if_neg hc, cutBlock]
      simp only [bracketBalance, after_nil]
      refine iff_of_false (by simp) fun h => hc ⟨hstructural.2 h.1, rfl, by omega⟩
  | cons c t ih =>
    have hbalance (u : Text) : bracketBalance q (c :: u) =
        bracketBalance q [c] + bracketBalance (q.next c) u := bracketBalance_append q [c] u
    rw [List.cons_append, cutBlock]
    by_cases hc : q.structural c = true ∧ c = ']' ∧ depth + 1 ≤ 1
    · rw [if_pos hc]
      refine iff_of_false (by simp) fun h => ?_
      have hfirst := h.2.2 [c] (List.prefix_append [c] t)
      rw [bracketBalance, if_neg (fun hopen => by simp [hc.2.1] at hopen), if_pos ⟨hc.1, hc.2.1⟩,
        bracketBalance] at hfirst
      omega
    · obtain ⟨d, hnesting, hd⟩ := exists_bracketNesting hc
      rw [if_neg hc, hnesting, hbalance, after_cons, ← Int.add_assoc, ← hd]
      refine Iff.trans ?_ ((@ih (q.next c) d).trans (and_congr_right' (and_congr_right'
        ⟨fun h u hu => ?_, fun h u hu => ?_⟩)))
      · simp
      · rcases List.prefix_cons_iff.1 hu with rfl | ⟨v, rfl, hv⟩
        · simp [bracketBalance]
        · rw [hbalance, ← Int.add_assoc, ← hd]
          exact h v hv
      · have hlonger := h (c :: u) ((List.prefix_cons_inj c).2 hu)
        rwa [hbalance, ← Int.add_assoc, ← hd] at hlonger

/-- The cut ends a block at its own bracket exactly if the square brackets inside it balance. -/
theorem cut_eq_iff {t : Text} : cut (t ++ [']']) = some (t, []) ↔ Squared t := by
  have hcut := @cutBlock_eq_iff .outside 0 t
  simp only [Int.natCast_zero, Int.zero_add] at hcut
  rw [cut]
  exact hcut.trans ⟨fun h => ⟨h.1, h.2.1, h.2.2⟩, fun h => ⟨h.closed, h.even, h.prefixes⟩⟩

def depthAfter : QuoteState → Nat → Text → Nat
  | _, depth, [] => depth
  | q, depth, c :: t => depthAfter (q.next c) (nesting q depth c) t

/-- No bar stands outside all literals, brackets and parentheses. -/
def BarsWithin (q : QuoteState) (depth : Nat) (t : Text) : Prop :=
  ∀ u v, t = u ++ '|' :: v → q.after u = .outside → depthAfter q depth u ≠ 0

theorem barsWithin_nil (q : QuoteState) (depth : Nat) : BarsWithin q depth [] := by
  simp [BarsWithin]

theorem barsWithin_cons {q : QuoteState} {depth : Nat} {c : Char} {t : Text} :
    BarsWithin q depth (c :: t) ↔ ¬(q.structural c = true ∧ c = '|' ∧ depth = 0) ∧
      BarsWithin (q.next c) (nesting q depth c) t := by
  constructor
  · refine fun h => ⟨?_, fun u v happ => h (c :: u) v (congrArg (c :: ·) happ)⟩
    rintro ⟨hs, rfl, hdepth⟩
    exact h [] t rfl ((structural_iff q _).1 hs).1 hdepth
  · rintro ⟨hc, h⟩ u v happ hafter hdepth
    cases u with
    | nil =>
      obtain ⟨rfl, rfl⟩ := List.cons.inj happ
      exact hc ⟨(structural_iff q _).2 ⟨hafter, by decide⟩, rfl, hdepth⟩
    | cons d u =>
      obtain ⟨rfl, hrest⟩ := List.cons.inj happ
      exact h u v hrest hafter hdepth

instance decidableBarsWithin : (q : QuoteState) → (depth : Nat) → (t : Text) →
    Decidable (BarsWithin q depth t)
  | q, depth, [] => isTrue (barsWithin_nil q depth)
  | q, depth, c :: t =>
    have := decidableBarsWithin (q.next c) (nesting q depth c) t
    decidable_of_iff _ barsWithin_cons.symm

theorem splitTop_append {q : QuoteState} {depth : Nat} {t : Text} (h : BarsWithin q depth t)
    (rest : Text) : splitTop '|' q depth (t ++ rest) =
      (splitTop '|' (q.after t) (depthAfter q depth t) rest).modifyHead (t ++ ·) := by
  induction t generalizing q depth with
  | nil =>
    rw [List.nil_append, after_nil, depthAfter]
    cases splitTop '|' q depth rest <;> rfl
  | cons c t ih =>
    obtain ⟨hc, ht⟩ := barsWithin_cons.1 h
    rw [List.cons_append, splitTop, if_neg hc, ih ht, after_cons, depthAfter]
    simp [Function.comp_def]

/-- The first part of a text has its bars within brackets, and if others follow, it ends outside all
brackets and they are the parts of the text behind it. -/
theorem exists_splitTop (q : QuoteState) (depth : Nat) (t : Text) :
    ∃ s ss, splitTop '|' q depth t = s :: ss ∧ t = Text.join ['|'] (s :: ss) ∧
      BarsWithin q depth s ∧ (ss ≠ [] → q.after s = .outside ∧ depthAfter q depth s = 0 ∧
        splitTop '|' .outside 0 (Text.join ['|'] ss) = ss) := by
  induction t generalizing q depth with
  | nil => exact ⟨[], [], rfl, rfl, barsWithin_nil q depth, fun hne => absurd rfl hne⟩
  | cons c t ih =>
    rw [splitTop]
    by_cases hc : q.structural c = true ∧ c = '|' ∧ depth = 0
    · rw [if_pos hc]
      obtain ⟨hs, rfl, rfl⟩ := hc
      obtain ⟨rfl, -⟩ := (structural_iff q _).1 hs
      obtain ⟨s, ss, hsplit, hjoin, -⟩ := ih .outside 0
      refine ⟨[], s :: ss, congrArg ([] :: ·) hsplit, ?_, barsWithin_nil _ _, fun _ => ?_⟩
      · rw [Text.join_cons_cons, ← hjoin]
        rfl
      · exact ⟨rfl, rfl, hjoin ▸ hsplit⟩
    · rw [if_neg hc]
      obtain ⟨s, ss, hsplit, hjoin, hbars, hrest⟩ := ih (q.next c) (nesting q depth c)
      refine ⟨c :: s, ss, by rw [hsplit]; rfl, ?_, barsWithin_cons.2 ⟨hc, hbars⟩, hrest⟩
      rw [hjoin]
      cases ss <;> rfl

/-- The split finds the sections of a block exactly if no bar stands at the top of one and none but
the last one leaves a literal, a bracket or a parenthesis open. -/
theorem splitTop_eq_iff {s : Text} {ss : List Text} :
    splitTop '|' .outside 0 (Text.join ['|'] (s :: ss)) = s :: ss ↔
      (∀ u ∈ s :: ss, BarsWithin .outside 0 u) ∧
        ∀ u ∈ (s :: ss).dropLast, Closed u ∧ depthAfter .outside 0 u = 0 := by
  induction ss generalizing s with
  | nil =>
    rw [Text.join_singleton]
    constructor
    · intro h
      obtain ⟨u, us, hsplit, -, hbars, -⟩ := exists_splitTop .outside 0 s
      cases h.symm.trans hsplit
      simpa using hbars
    · intro h
      have hsplit := splitTop_append (h.1 s (List.mem_singleton_self s)) []
      rw [List.append_nil, splitTop] at hsplit
      simpa using hsplit
  | cons t ss ih =>
    rw [List.dropLast_cons_cons]
    constructor
    · intro h
      obtain ⟨u, us, hsplit, -, hbars, hrest⟩ := exists_splitTop .outside 0
        (Text.join ['|'] (s :: t :: ss))
      cases h.symm.trans hsplit
      obtain ⟨hclosed, hdepth, hsplit⟩ := hrest (List.cons_ne_nil t ss)
      obtain ⟨hbarsAll, hends⟩ := ih.1 hsplit
      exact ⟨List.forall_mem_cons.2 ⟨hbars, hbarsAll⟩,
        List.forall_mem_cons.2 ⟨⟨hclosed, hdepth⟩, hends⟩⟩
    · rintro ⟨hbars, hends⟩
      obtain ⟨hbars, hbarsAll⟩ := List.forall_mem_cons.1 hbars
      obtain ⟨⟨hclosed, hdepth⟩, hends⟩ := List.forall_mem_cons.1 hends
      have hbar : splitTop '|' .outside 0 ('|' :: Text.join ['|'] (t :: ss)) =
          [] :: splitTop '|' .outside 0 (Text.join ['|'] (t :: ss)) := rfl
      rw [Text.join_cons_cons, List.singleton_append, splitTop_append hbars,
        hclosed, hdepth, hbar, ih.2 ⟨hbarsAll, hends⟩]
      simp

/-- The sections of a block that is cut and split where they are joined. -/
structure Apart (ss : List Text) : Prop where
  squared : Squared (Text.join ['|'] ss)
  bars : ∀ s ∈ ss, BarsWithin .outside 0 s
  ends : ∀ s ∈ ss.dropLast, Closed s ∧ depthAfter .outside 0 s = 0

instance (ss : List Text) : Decidable (Apart ss) :=
  decidable_of_iff (Squared (Text.join ['|'] ss) ∧ (∀ s ∈ ss, BarsWithin .outside 0 s) ∧
      ∀ s ∈ ss.dropLast, outside.after s = outside ∧ depthAfter .outside 0 s = 0)
    ⟨fun ⟨hs, hb, he⟩ => ⟨hs, hb, he⟩, fun ⟨hs, hb, he⟩ => ⟨hs, hb, he⟩⟩

theorem Apart.splitTop_join {ss : List Text} (h : Apart ss) (hne : ss ≠ []) :
    splitTop '|' .outside 0 (Text.join ['|'] ss) = ss := by
  cases ss with
  | nil => exact absurd rfl hne
  | cons s ss => exact splitTop_eq_iff.2 ⟨h.bars, h.ends⟩

/-- Sections that are neither cut nor split inside are told apart. -/
theorem apart_of_level {ss : List Text} (h : ∀ s ∈ ss, Uncut s ∧ Unsplit s) : Apart ss := by
  have hsquared := cut_eq_iff.1 (cut_join (fun s hs => (h s hs).1) [])
  cases ss with
  | nil => exact ⟨hsquared, by simp, by simp⟩
  | cons s ss =>
    obtain ⟨hbars, hends⟩ := splitTop_eq_iff.1 (LoadSection.splitTop_join fun u hu => (h u hu).2)
    exact ⟨hsquared, hbars, hends⟩

theorem closed_of_join {ss : List Text} (h : Closed (Text.join ['|'] ss))
    (hends : ∀ s ∈ ss.dropLast, Closed s) : ∀ s ∈ ss, Closed s := by
  induction ss with
  | nil => simp
  | cons s ss ih =>
    cases ss with
    | nil => simpa using h
    | cons t ss =>
      obtain ⟨hs, hends⟩ := List.forall_mem_cons.1 (List.dropLast_cons_cons ▸ hends)
      have hrest : Closed (Text.join ['|'] (t :: ss)) := by
        rw [Text.join_cons_cons, Closed, after_append, after_append, hs] at h
        exact h
      exact List.forall_mem_cons.2 ⟨hs, ih hrest hends⟩

theorem Apart.closed {ss : List Text} (h : Apart ss) : ∀ s ∈ ss, Closed s :=
  closed_of_join h.squared.closed fun s hs => (h.ends s hs).1

end FilterQuery.LoadSection
