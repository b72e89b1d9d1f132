import FilterQuery.Proofs.Sql.Columns
set_option autoImplicit false

/-!
The order that a statement asks for, read back from its text. From where that part begins the text
reads as the sort keys of the plan, in their order and with their directions, also where a field
comes twice.
-/

namespace FilterQuery.Sql

def readDirection (t : Text) : Option (Direction × Text) :=
  match "ASC".toList.isPrefixOf? t, "DESC".toList.isPrefixOf? t with
  | some rest, _ => some (.asc, rest)
  | none, some rest => some (.desc, rest)
  | none, none => none

theorem readDirection_directionWord (d : Direction) (r : Text) :
    readDirection (directionWord d ++ r) = some (d, r) := by
  cases d <;> rfl

theorem length_readDirection {t r : Text} {d : Direction} (h : readDirection t = some (d, r)) :
    r.length ≤ t.length := by
  have hle {p u : Text} (hp : p.isPrefixOf? t = some u) : u.length ≤ t.length := by
    rw [← Text.append_of_isPrefixOf? hp, List.length_append]
    exact Nat.le_add_left _ _
  unfold readDirection at h
  split at h
  · rename_i hasc
    cases h
    exact hle hasc
  · rename_i hdesc
    cases h
    exact hle hdesc
  · cases h

namespace Dialect

def readKey (d : Dialect) (t : Text) : Option (SortKey × Text) :=
  match t with
  | [] => none
  | c :: t =>
    if c ≠ d.mark then none
    else
      match _h : readName d.mark t with
      | none => none
      | some (s, '.' :: rest) =>
        (d.readKey rest).map fun (k, rest) => (⟨s ++ '.' :: k.field, k.direction⟩, rest)
      | some (s, ' ' :: rest) =>
        (readDirection rest).map fun (direction, rest) => (⟨s, direction⟩, rest)
      | some _ => none
termination_by t.length
decreasing_by
  have := length_readName _h
  simp only [List.length_cons] at this ⊢
  omega

theorem readKey_identifier (d : Dialect) (r s : Text) : r.head? ≠ some d.mark →
    d.readKey (d.identifier s ++ r) =
      match r with
      | '.' :: rest =>
        (d.readKey rest).map fun (k, rest) => (⟨s ++ '.' :: k.field, k.direction⟩, rest)
      | ' ' :: rest => (readDirection rest).map fun (direction, rest) => (⟨s, direction⟩, rest)
      | _ => none := by
  intro hr
  obtain ⟨u, hu, hread⟩ := readName_identifier hr s
  rw [hu, readKey]
  simp only [ne_eq, not_true_eq_false, if_false]
  split
  · rename_i hnone
    cases hread.symm.trans hnone
  · rename_i hpoint
    cases hread.symm.trans hpoint
    rfl
  · rename_i hblank
    cases hread.symm.trans hblank
    rfl
  · rename_i hpoint hblank hend
    cases hread.symm.trans hend
    split
    · exact (hpoint _ _ rfl).elim
    · exact (hblank _ _ rfl).elim
    · rfl

theorem length_readKey {d : Dialect} {t r : Text} {k : SortKey} (h : d.readKey t = some (k, r)) :
    r.length < t.length := by
  fun_induction readKey d t generalizing k with
  | case1 => cases h
  | case2 => cases h
  | case3 => cases h
  | case4 c t _ s rest hname ih =>
    obtain ⟨⟨k', r'⟩, hread, heq⟩ := Option.map_eq_some_iff.1 h
    cases heq
    have hrest := ih hread
    have hbehind := length_readName hname
    simp only [List.length_cons] at hbehind ⊢
    omega
  | case5 c t _ s rest hname =>
    obtain ⟨⟨direction, r'⟩, hread, heq⟩ := Option.map_eq_some_iff.1 h
    cases heq
    have hrest := length_readDirection hread
    have hbehind := length_readName hname
    simp only [List.length_cons] at hbehind ⊢
    omega
  | case6 => cases h

/-- Reads a list of sort keys, up to where no comma follows. -/
def readOrder (d : Dialect) (t : Text) : Option (List SortKey) :=
  match _h : d.readKey t with
  | none => none
  | some (k, ',' :: ' ' :: rest) => (d.readOrder rest).map (k :: ·)
  | some (k, _) => some [k]
termination_by t.length
decreasing_by
  have := length_readKey _h
  simp at this
  omega

def order? (d : Dialect) (t : Text) : Option (List SortKey) :=
  ("ORDER BY ".toList.isPrefixOf? t).bind d.readOrder

theorem readKey_segments (d : Dialect) (s : Text) (ss : List Text) (direction : Direction)
    (r : Text) :
    d.readKey (d.identifier s ++ (d.behindPoints ss ++ ' ' :: (directionWord direction ++ r))) =
      some (⟨Text.join ['.'] (s :: ss), direction⟩, r) := by
  induction ss generalizing s with
  | nil =>
    rw [behindPoints_nil, List.nil_append,
      readKey_identifier _ _ _ (by cases d <;> simp [mark])]
    simp [readDirection_directionWord]
  | cons u ss ih =>
    rw [behindPoints_cons_append, readKey_identifier _ _ _ (by simpa using Ne.symm d.mark_ne_point)]
    simp [ih]

end Dialect

namespace Style

variable {s : Style}

theorem readKey_sortKey (k : SortKey) (r : Text) :
    s.dialect.readKey (s.sortKey k ++ r) = some (k, r) := by
  obtain ⟨seg, segs, hsegs⟩ := List.exists_cons_of_ne_nil (List.splitOn_ne_nil '.' k.field)
  have hname : Text.join ['.'] (seg :: segs) = k.field := by
    rw [← hsegs, Text.join_splitOn]
  have htext : s.sortKey k ++ r = s.dialect.identifier seg ++
      (s.dialect.behindPoints segs ++ ' ' :: (directionWord k.direction ++ r)) := by
    rw [sortKey, Dialect.field, hsegs, Dialect.join_segments]
    simp
  rw [htext, Dialect.readKey_segments, hname]

theorem readOrder_sortKeys {r : Text} (hr : r.head? ≠ some ',') {ks : List SortKey}
    (hne : ks ≠ []) :
    s.dialect.readOrder (Text.join ", ".toList (ks.map s.sortKey) ++ r) = some ks := by
  induction ks with
  | nil => exact absurd rfl hne
  | cons k ks ih =>
    cases ks with
    | nil =>
      rw [List.map_cons, List.map_nil, Text.join_singleton, Dialect.readOrder]
      split
      · rename_i hnone
        cases (readKey_sortKey k r).symm.trans hnone
      · rename_i hcomma
        cases (readKey_sortKey k r).symm.trans hcomma
        exact absurd rfl hr
      · rename_i hend
        cases (readKey_sortKey k r).symm.trans hend
        rfl
    | cons l ls =>
      have hjoin : Text.join ", ".toList ((k :: l :: ls).map s.sortKey) ++ r = s.sortKey k ++
          ',' :: ' ' :: (Text.join ", ".toList ((l :: ls).map s.sortKey) ++ r) := by
        simp
      rw [hjoin, Dialect.readOrder]
      split
      · rename_i hnone
        cases (readKey_sortKey k _).symm.trans hnone
      · rename_i hcomma
        cases (readKey_sortKey k _).symm.trans hcomma
        rw [ih (by simp), Option.map_some]
      · rename_i hend hother
        cases (readKey_sortKey k _).symm.trans hother
        exact (hend _ rfl).elim

theorem content_order {p : Plan} (hne : p.request.sort ≠ []) (table : Text) :
    (s.part table p .order).content =
      "ORDER BY ".toList ++ Text.join ", ".toList (p.request.sort.map s.sortKey) := by
  have hpresent : (!p.request.sort.isEmpty) = true := by simpa using hne
  rw [part, clause, if_pos hpresent, Fragment.content_atom]
  rfl

/-- Wherever the part of the order stands in a statement, the text reads as the sort keys of the
plan from there on. -/
theorem order?_statement {p : Plan} (hne : p.request.sort ≠ []) (table : Text)
    (before after : List Part) :
    ∃ rest, (s.statement table p (before ++ .order :: after)).content =
        Fragment.spacedBehind (before.map (s.part table p)) ++ rest ∧
      s.dialect.order? rest = some p.request.sort := by
  have hcontent := content_order (s := s) hne table
  have hsome : (s.part table p .order).isEmpty = false := by
    rw [part, clause, if_pos (by simpa using hne)]
    rfl
  obtain ⟨rest, hrest, hstatement⟩ := Fragment.content_spaced_around hsome
    (before.map (s.part table p)) (after.map (s.part table p))
  refine ⟨(s.part table p .order).content ++ rest, ?_, ?_⟩
  · rw [statement, List.map_append, List.map_cons, hstatement]
  · have hend : rest.head? ≠ some ',' := by
      rcases hrest with rfl | ⟨t, rfl⟩ <;> simp
    rw [hcontent, List.append_assoc, Dialect.order?, Text.isPrefixOf?_append, Option.bind_some,
      readOrder_sortKeys hend hne]

end Style

end FilterQuery.Sql
