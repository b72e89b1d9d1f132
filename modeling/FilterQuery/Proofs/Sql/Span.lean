import FilterQuery.Proofs.Sql.Identifier
set_option autoImplicit false

/-!
What stands outside the quoted names of a piece of SQL. A quoted name is one span, or several that
touch where a mark is doubled, and nothing of it is outside; a text without marks is all outside.
The placeholders of a text are the question marks outside.
-/

namespace FilterQuery.Sql

/-- The characters outside the spans between quote marks, none if the last span does not end. -/
def outside? (mark : Char) (inside : Bool) : Text → Option Text
  | [] => if inside then none else some []
  | c :: t =>
    if c = mark then outside? mark (!inside) t
    else if inside then outside? mark true t
    else (outside? mark false t).map (c :: ·)

def Unmarked (t : Text) : Prop := ∀ c ∈ t, isMark c = false

instance (t : Text) : Decidable (Unmarked t) := List.decidableBAll _ t

structure Outside (d : Dialect) (t b : Text) : Prop where
  scan : outside? d.mark false t = some b
  unmarked : Unmarked b

theorem outside?_append {m : Char} {inside : Bool} {t b : Text} (h : outside? m inside t = some b)
    (u : Text) : outside? m inside (t ++ u) = (outside? m false u).map (b ++ ·) := by
  induction t generalizing inside b with
  | nil =>
    cases inside with
    | true => simp [outside?] at h
    | false =>
      cases h
      simp
  | cons c t ih =>
    rw [List.cons_append, outside?]
    rw [outside?] at h
    split at h
    · rw [if_pos ‹_›, ih h]
    · rw [if_neg ‹_›]
      split at h
      · rw [if_pos ‹_›, ih h]
      · obtain ⟨b', hb', rfl⟩ := Option.map_eq_some_iff.1 h
        rw [if_neg ‹_›, ih hb', Option.map_map]
        rfl

theorem outside?_unmarked {m : Char} (hm : isMark m = true) {t : Text} (h : Unmarked t) :
    outside? m false t = some t := by
  induction t with
  | nil => rfl
  | cons c t ih =>
    rw [Unmarked, List.forall_mem_cons] at h
    have hc : c ≠ m := by
      rintro rfl
      rw [hm] at h
      cases h.1
    simp [outside?, hc, ih h.2]

theorem outside?_quote (m : Char) (t : Text) : outside? m false (quote m t) = some [] := by
  have hbody : outside? m true (Text.replace m [m, m] t ++ [m]) = some [] := by
    rw [Text.replace]
    induction t with
    | nil => simp [outside?]
    | cons c t ih => by_cases hc : c = m <;> simp [hc, outside?, ih]
  simpa [quote, outside?] using hbody

namespace Outside

variable {d : Dialect}

theorem append {t u b c : Text} (ht : Outside d t b) (hu : Outside d u c) :
    Outside d (t ++ u) (b ++ c) where
  scan := by rw [outside?_append ht.scan, hu.scan, Option.map_some]
  unmarked := by
    intro x hx
    exact (List.mem_append.1 hx).elim (ht.unmarked x) (hu.unmarked x)

theorem of_unmarked {t : Text} (h : Unmarked t) : Outside d t t :=
  ⟨outside?_unmarked (isMark_mark d) h, h⟩

theorem identifier (t : Text) : Outside d (d.identifier t) [] :=
  ⟨outside?_quote _ _, by simp [Unmarked]⟩

theorem behindPoints (ss : List Text) :
    Outside d (d.behindPoints ss) (List.replicate ss.length '.') := by
  induction ss with
  | nil => exact (of_unmarked (List.forall_mem_nil _) : Outside d [] [])
  | cons s ss ih =>
    have hpoint : Outside d ['.'] ['.'] := of_unmarked (by decide)
    simpa [Dialect.behindPoints, List.replicate_succ] using (hpoint.append (identifier s)).append ih

theorem field (f : Text) :
    Outside d (d.field f) (List.replicate ((f.splitOn '.').length - 1) '.') := by
  obtain ⟨s, ss, hss⟩ := List.exists_cons_of_ne_nil (List.splitOn_ne_nil '.' f)
  rw [Dialect.field, hss, Dialect.join_segments]
  simpa using (identifier s).append (behindPoints ss)

end Outside

def Dialect.opened (d : Dialect) (inside : Bool) : Option Char :=
  if inside then some d.mark else none

theorem openMark_mark (d : Dialect) (inside : Bool) :
    openMark (d.opened inside) d.mark = d.opened !inside := by
  cases d <;> cases inside <;> rfl

theorem isPlaceholder_mark (d : Dialect) (inside : Bool) :
    isPlaceholder (d.opened inside) d.mark = false := by
  cases d <;> cases inside <;> rfl

theorem length_placeholdersFrom {d : Dialect} {inside : Bool} {t b : Text}
    (h : outside? d.mark inside t = some b) (hb : Unmarked b) (offset : Nat) :
    (placeholdersFrom (d.opened inside) offset t).length = b.count '?' := by
  induction t generalizing inside b offset with
  | nil =>
    cases inside with
    | true => simp [outside?] at h
    | false =>
      cases h
      rfl
  | cons c t ih =>
    rw [outside?] at h
    rw [placeholdersFrom]
    split at h
    · rename_i hc
      rw [hc, openMark_mark, isPlaceholder_mark, if_neg Bool.false_ne_true]
      exact ih h hb _
    · rename_i hc
      split at h
      · rename_i hinside
        subst hinside
        have hopen : openMark (d.opened true) c = d.opened true := by
          simp [openMark, Dialect.opened, hc]
        rw [hopen]
        exact ih h hb _
      · -- what is kept outside has no mark, so neither scan opens a name here
        rename_i houtside
        obtain ⟨b', hb', rfl⟩ := Option.map_eq_some_iff.1 h
        rw [Unmarked, List.forall_mem_cons] at hb
        rw [Bool.not_eq_true] at houtside
        subst houtside
        have hopen : openMark (d.opened false) c = d.opened false := by
          simp [openMark, Dialect.opened, hb.1]
        have hplaceholder : isPlaceholder (d.opened false) c = (c == '?') := rfl
        rw [hopen, hplaceholder, List.count_cons, ← ih hb' hb.2 (offset + c.utf8Size)]
        split <;> rfl

theorem Outside.length_placeholders {d : Dialect} {t b : Text} (h : Outside d t b) :
    (placeholders t).length = b.count '?' := length_placeholdersFrom h.scan h.unmarked 0

end FilterQuery.Sql
