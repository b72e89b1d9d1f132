import FilterQuery.Proofs.Bytes
import FilterQuery.Proofs.Location
import FilterQuery.Proofs.Spacing
set_option autoImplicit false

/-!
Where the symbols of operators stand. The search of a text for its first operator finds the first
of the bytes outside literals at which any symbol starts, and of the symbols that start there the
longest; what follows that symbol has no say in it.
-/

namespace FilterQuery

open QuoteState Text

namespace Text

theorem prefix_bytes_iff {s t : Text} (h : ∀ c ∈ s, ¬IsWide c) : s <+: t.bytes ↔ s <+: t := by
  induction s generalizing t with
  | nil => simp
  | cons d s ih =>
    rw [List.forall_mem_cons] at h
    cases t with
    | nil => simp
    | cons c t =>
      by_cases hc : IsWide c
      · obtain ⟨b, bs, hbytes⟩ := List.exists_cons_of_ne_nil (bytes_ne_nil (List.cons_ne_nil c []))
        have hb : IsWide b := isWide_of_mem_bytes hc (by simp [hbytes])
        rw [bytes_cons, hbytes, List.cons_append, List.cons_prefix_cons, List.cons_prefix_cons]
        simp only [(ne_of_isWide hb h.1).symm, (ne_of_isWide hc h.1).symm, false_and]
      · rw [bytes_cons, bytes_of_not_isWide hc, List.singleton_append, List.cons_prefix_cons,
          List.cons_prefix_cons, ih h.2]

end Text

namespace Operator

theorem symbol_ascii (o : Operator) : ∀ c ∈ o.symbol, ¬IsWide c := by
  have hall : table.all (fun o => o.symbol.all fun c => decide ¬IsWide c) = true := by decide
  intro c hc
  exact of_decide_eq_true (List.all_eq_true.1 (List.all_eq_true.1 hall o (mem_table o)) c hc)

theorem symbol_injective : Function.Injective symbol := by
  have hall : table.all (fun o => table.all fun p => decide (o.symbol = p.symbol → o = p)) = true := by
    decide
  intro o p
  exact of_decide_eq_true
    (List.all_eq_true.1 (List.all_eq_true.1 hall o (mem_table o)) p (mem_table p))

theorem table_pairwise : table.Pairwise fun o p => ¬o.symbol <+: p.symbol := by decide

theorem length_le_of_leading? {t : Text} {o p : Operator} (h : leading? t = some o)
    (hp : p.symbol <+: t) : p.symbol.length ≤ o.symbol.length := by
  obtain ⟨ho, as, bs, htable, hbefore⟩ := List.find?_eq_some_iff_append.1 h
  rw [List.isPrefixOf_iff_prefix] at ho
  have hpairwise := table_pairwise
  have hmem := mem_table p
  rw [htable] at hpairwise hmem
  rcases List.mem_append.1 hmem with hmem | hmem
  · have hnot := hbefore p hmem
    rw [List.isPrefixOf_iff_prefix.2 hp] at hnot
    cases hnot
  · rcases List.mem_cons.1 hmem with rfl | hmem
    · exact Nat.le_refl _
    · have hnot := List.rel_of_pairwise_cons (List.pairwise_append.1 hpairwise).2.1 hmem
      by_contra hlt
      exact hnot (List.prefix_of_prefix_length_le ho hp (by omega))

def StartsAt (o : Operator) (ms : List (Char × Bool)) (k : Nat) : Prop :=
  (∃ b, ms[k]? = some (b, true)) ∧ o.symbol <+: (ms.drop k).map Prod.fst

/-- At no structural byte before this one does a symbol start, and none that is longer starts
here. -/
structure IsFirst (o : Operator) (ms : List (Char × Bool)) (k : Nat) : Prop where
  starts : o.StartsAt ms k
  least : ∀ p l, StartsAt p ms l → k ≤ l
  longest : ∀ p, StartsAt p ms k → p.symbol.length ≤ o.symbol.length

theorem map_fst_marks (q : QuoteState) (t : Text) : (q.marks t).map Prod.fst = t := by
  induction t generalizing q with
  | nil => rfl
  | cons c t ih => rw [marks_cons, List.map_cons, ih]

theorem marks_bytes_cons (q : QuoteState) (c : Char) (t : Text) :
    q.marks (bytes (c :: t)) =
      (bytes [c]).map (·, q.structural c) ++ (q.next c).marks t.bytes := by
  obtain ⟨hafter, hmarks⟩ := scan_bytes_singleton q c
  rw [bytes_cons, marks_append, hafter, hmarks]

theorem length_bytes_singleton (c : Char) : (bytes [c]).length = c.utf8Size := by
  rw [length_bytes, byteLength_cons, byteLength_nil, Nat.add_zero]

section

variable {q : QuoteState} {c : Char} {t : Text} {o : Operator}

theorem startsAt_zero :
    o.StartsAt (q.marks (bytes (c :: t))) 0 ↔ q.structural c = true ∧ o.symbol <+: c :: t := by
  obtain ⟨b, bs, hbytes⟩ := List.exists_cons_of_ne_nil (bytes_ne_nil (List.cons_ne_nil c []))
  rw [StartsAt, List.drop_zero, map_fst_marks, prefix_bytes_iff o.symbol_ascii, marks_bytes_cons,
    hbytes]
  simp

theorem not_startsAt_inside {k : Nat} (hpos : 0 < k) (hk : k < c.utf8Size) :
    ¬o.StartsAt (q.marks (bytes (c :: t))) k := by
  rintro ⟨-, hsymbol⟩
  have hwide : IsWide c := by
    by_contra hnot
    have hone := length_bytes_singleton c
    rw [bytes_of_not_isWide hnot, List.length_singleton] at hone
    omega
  have hlt : k < (bytes [c]).length := by rwa [length_bytes_singleton]
  obtain ⟨d, u, hcons, -⟩ := symbol_head o
  have hd : ¬IsWide d := o.symbol_ascii d (by simp [hcons])
  rw [List.map_drop, map_fst_marks, bytes_cons, List.drop_append_of_le_length hlt.le,
    List.drop_eq_getElem_cons hlt, hcons, List.cons_append, List.cons_prefix_cons] at hsymbol
  exact hd (hsymbol.1 ▸ isWide_of_mem_bytes hwide (List.getElem_mem hlt))

theorem startsAt_behind (j : Nat) :
    o.StartsAt (q.marks (bytes (c :: t))) (c.utf8Size + j) ↔
      o.StartsAt ((q.next c).marks t.bytes) j := by
  have hlength : ((bytes [c]).map (·, q.structural c)).length = c.utf8Size := by
    rw [List.length_map, length_bytes_singleton]
  rw [StartsAt, StartsAt, marks_bytes_cons, ← hlength, List.drop_length_add_append,
    List.getElem?_append_right (by omega), Nat.add_sub_cancel_left]

theorem startsAt_cons {k : Nat} :
    o.StartsAt (q.marks (bytes (c :: t))) k ↔
      (k = 0 ∧ q.structural c = true ∧ o.symbol <+: c :: t) ∨
        ∃ j, k = c.utf8Size + j ∧ o.StartsAt ((q.next c).marks t.bytes) j := by
  have hsize := c.utf8Size_pos
  rcases Nat.lt_or_ge k c.utf8Size with hk | hk
  · have hnot : ¬∃ j, k = c.utf8Size + j ∧ o.StartsAt ((q.next c).marks t.bytes) j := by
      rintro ⟨j, rfl, -⟩
      omega
    rw [or_iff_left hnot]
    rcases Nat.eq_zero_or_pos k with rfl | hpos
    · rw [startsAt_zero, and_iff_right rfl]
    · exact iff_of_false (not_startsAt_inside hpos hk) fun h => hpos.ne' h.1
  · obtain ⟨j, rfl⟩ := Nat.exists_eq_add_of_le hk
    rw [startsAt_behind, or_iff_right fun h => by omega]
    constructor
    · exact fun h => ⟨j, rfl, h⟩
    · rintro ⟨i, hi, h⟩
      rwa [Nat.add_left_cancel hi]

end

theorem not_prefix_of_none {q : QuoteState} {c : Char} {t : Text}
    (h : (if q.structural c then leading? (c :: t) else none) = none) (o : Operator) :
    ¬(q.structural c = true ∧ o.symbol <+: c :: t) := by
  rintro ⟨hs, hsymbol⟩
  rw [if_pos hs] at h
  exact List.find?_eq_none.1 h o (mem_table o) (List.isPrefixOf_iff_prefix.2 hsymbol)

theorem findFrom_first (q : QuoteState) (t : Text) :
    match findFrom q t with
    | none => ∀ o k, ¬StartsAt o (q.marks t.bytes) k
    | some (before, o, _) => o.IsFirst (q.marks t.bytes) before.byteLength := by
  fun_induction findFrom q t with
  | case1 q =>
    rintro o k ⟨⟨b, hb⟩, -⟩
    cases hb
  | case2 q c t o h =>
    split at h
    · rename_i hs
      have hsymbol : o.symbol <+: c :: t := ⟨_, append_of_leading? h⟩
      exact ⟨startsAt_zero.2 ⟨hs, hsymbol⟩, fun _ l _ => Nat.zero_le l,
        fun p hp => length_le_of_leading? h (startsAt_zero.1 hp).2⟩
    · cases h
  | case3 q c t h ih =>
    -- no symbol starts with this character, so every start is at a byte behind it
    have hnone := not_prefix_of_none h
    cases hrest : findFrom (q.next c) t with
    | none =>
      rw [hrest] at ih
      rintro o k hstarts
      rcases startsAt_cons.1 hstarts with ⟨-, hhere⟩ | ⟨j, -, hbehind⟩
      · exact hnone o hhere
      · exact ih o j hbehind
    | some r =>
      obtain ⟨before, o, behind⟩ := r
      rw [hrest] at ih
      refine ⟨(startsAt_behind _).2 ih.starts, fun p l hp => ?_,
        fun p hp => ih.longest p ((startsAt_behind _).1 hp)⟩
      rcases startsAt_cons.1 hp with ⟨-, hhere⟩ | ⟨j, rfl, hbehind⟩
      · exact absurd hhere (hnone p)
      · exact Nat.add_le_add_left (ih.least p j hbehind) _

theorem find?_eq_none_iff {t : Text} :
    find? t = none ↔ ∀ o k, ¬StartsAt o (outside.marks t.bytes) k := by
  have hfirst := findFrom_first outside t
  rw [find?]
  cases h : findFrom outside t with
  | none =>
    rw [h] at hfirst
    exact iff_of_true rfl hfirst
  | some r =>
    rw [h] at hfirst
    exact iff_of_false (Option.some_ne_none r) fun hnone => hnone _ _ hfirst.starts

theorem IsFirst.unique {t before behind before' behind' : Text} {o o' : Operator}
    (happ : before ++ o.symbol ++ behind = t) (happ' : before' ++ o'.symbol ++ behind' = t)
    (h : o.IsFirst (outside.marks t.bytes) before.byteLength)
    (h' : o'.IsFirst (outside.marks t.bytes) before'.byteLength) :
    before = before' ∧ o = o' ∧ behind = behind' := by
  have hlength := Nat.le_antisymm (h.least _ _ h'.starts) (h'.least _ _ h.starts)
  rw [← happ, List.append_assoc, List.append_assoc] at happ'
  obtain ⟨rfl, hbehind⟩ := append_inj_of_byteLength happ'.symm hlength
  have hsize := Nat.le_antisymm (h'.longest _ h.starts) (h.longest _ h'.starts)
  obtain ⟨hsymbol, rfl⟩ := List.append_inj hbehind hsize
  exact ⟨rfl, symbol_injective hsymbol, rfl⟩

theorem find?_eq_some_iff {t before behind : Text} {o : Operator} :
    find? t = some (before, o, behind) ↔
      before ++ o.symbol ++ behind = t ∧
        o.IsFirst (outside.marks t.bytes) before.byteLength := by
  have hfirst := findFrom_first outside t
  constructor
  · intro h
    rw [find?] at h
    rw [h] at hfirst
    exact ⟨append_of_findFrom h, hfirst⟩
  · rintro ⟨happ, hisFirst⟩
    cases h : find? t with
    | none => exact absurd hisFirst.starts (find?_eq_none_iff.1 h _ _)
    | some r =>
      obtain ⟨before', o', behind'⟩ := r
      rw [find?] at h
      rw [h] at hfirst
      obtain ⟨rfl, rfl, rfl⟩ := IsFirst.unique happ (append_of_findFrom h) hisFirst hfirst
      rfl

/-- A text has no first operator exactly if no symbol starts at any of its bytes outside literals;
else the search gives the first of these bytes, the longest symbol that starts there and what stands
around it. Without what stands behind the symbol it gives the same. -/
theorem find?_leftmost_longest (t before behind : Text) (o : Operator) :
    (find? t = none ↔ ∀ p k, ¬StartsAt p (outside.marks t.bytes) k) ∧
      (find? t = some (before, o, behind) ↔
        before ++ o.symbol ++ behind = t ∧
          o.IsFirst (outside.marks t.bytes) before.byteLength) ∧
      (find? t = some (before, o, behind) → find? (before ++ o.symbol) = some (before, o, [])) := by
  refine ⟨find?_eq_none_iff, find?_eq_some_iff, fun h => ?_⟩
  have happ : before ++ o.symbol ++ behind = t := append_of_findFrom h
  rw [← happ, List.append_assoc] at h
  exact findFrom_symbol h

theorem find?_leftmost_longest_wide :
    let before : Text := "é\"=\\\"<\"".toList
    find? "é\"=\\\"<\".=^b=1".toList = some (before, .pattern .ilike, "b=1".toList) ∧
      byteLength before = 8 ∧
      IsFirst (.pattern .ilike) (outside.marks (bytes "é\"=\\\"<\".=^b=1".toList)) 8 ∧
      find? (before ++ ".=^".toList) = some (before, .pattern .ilike, []) := by
  intro before
  have hfind : find? "é\"=\\\"<\".=^b=1".toList = some (before, .pattern .ilike, "b=1".toList) := by
    decide
  obtain ⟨-, hfirst, hcut⟩ := find?_leftmost_longest _ before "b=1".toList (.pattern .ilike)
  exact ⟨hfind, rfl, (hfirst.1 hfind).2, hcut hfind⟩

end Operator

end FilterQuery
