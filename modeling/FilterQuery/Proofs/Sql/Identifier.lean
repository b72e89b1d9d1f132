import FilterQuery.Sql.Statement
import FilterQuery.Sql.Explain
set_option autoImplicit false

/-!
Quoted names. A name is told by its quoted text, whatever stands behind it, as long as that starts
with neither a quote mark nor a point; and so is a field, its segments quoted one by one.
-/

namespace FilterQuery.Sql

theorem isMark_mark (d : Dialect) : isMark d.mark = true := by cases d <;> rfl

def readName (m : Char) : Text → Option (Text × Text)
  | [] => none
  | [c] => if c = m then some ([], []) else none
  | c :: d :: t =>
    if c ≠ m then (readName m (d :: t)).map fun (name, rest) => (c :: name, rest)
    else if d = m then (readName m t).map fun (name, rest) => (m :: name, rest)
    else some ([], d :: t)

theorem readName_of_ne {m c : Char} (hc : c ≠ m) (t : Text) :
    readName m (c :: t) = (readName m t).map fun (name, rest) => (c :: name, rest) := by
  cases t <;> simp [readName, hc]

theorem readName_mark (m : Char) (t : Text) :
    readName m (m :: m :: t) = (readName m t).map fun (name, rest) => (m :: name, rest) := by
  simp [readName]

theorem readName_closing {m : Char} {r : Text} (hr : r.head? ≠ some m) :
    readName m (m :: r) = some ([], r) := by
  cases r with
  | nil => simp [readName]
  | cons d u =>
    have hd : d ≠ m := by simpa using hr
    simp [readName, hd]

theorem readName_replace {m : Char} {r : Text} (hr : r.head? ≠ some m) (t : Text) :
    readName m (Text.replace m [m, m] t ++ m :: r) = some (t, r) := by
  induction t with
  | nil => exact readName_closing hr
  | cons c t ih =>
    rw [Text.replace] at ih ⊢
    by_cases hc : c = m
    · simp [hc, readName_mark, ih]
    · simp [hc, readName_of_ne hc, ih]

/-- A quoted name is told from its text, if no mark stands behind it. -/
theorem quote_append_inj {m : Char} {t u r r' : Text} (hr : r.head? ≠ some m)
    (hr' : r'.head? ≠ some m) (h : quote m t ++ r = quote m u ++ r') : t = u ∧ r = r' := by
  simp only [quote, List.cons_append, List.append_assoc, List.cons.injEq, true_and,
    List.nil_append] at h
  have hread := congrArg (readName m) h
  rw [readName_replace hr, readName_replace hr'] at hread
  simpa using hread

namespace Dialect

theorem mark_ne_point (d : Dialect) : d.mark ≠ '.' := by cases d <;> decide

def EndsField (d : Dialect) (r : Text) : Prop := r.head? ≠ some d.mark ∧ r.head? ≠ some '.'

def behindPoints (d : Dialect) (ss : List Text) : Text := ss.flatMap fun s => '.' :: d.identifier s

@[simp] theorem behindPoints_nil (d : Dialect) : d.behindPoints [] = [] := rfl

theorem behindPoints_cons_append (d : Dialect) (s : Text) (ss : List Text) (r : Text) :
    d.behindPoints (s :: ss) ++ r = '.' :: (d.identifier s ++ (d.behindPoints ss ++ r)) := by
  simp [behindPoints]

theorem join_segments (d : Dialect) (s : Text) (ss : List Text) :
    Text.join ['.'] ((s :: ss).map d.identifier) = d.identifier s ++ d.behindPoints ss := by
  induction ss generalizing s with
  | nil => simp
  | cons v ss ih =>
    rw [List.map_cons, List.map_cons, Text.join_cons_cons, ← List.map_cons, ih]
    simp [behindPoints]

theorem head?_behindPoints {d : Dialect} {r : Text} (hr : d.EndsField r) (ss : List Text) :
    (d.behindPoints ss ++ r).head? ≠ some d.mark := by
  cases ss with
  | nil => exact hr.1
  | cons s ss =>
    rw [behindPoints_cons_append]
    simpa using Ne.symm d.mark_ne_point

theorem behindPoints_append_inj {d : Dialect} {r r' : Text} (hr : d.EndsField r)
    (hr' : d.EndsField r') {ss ts : List Text}
    (h : d.behindPoints ss ++ r = d.behindPoints ts ++ r') : ss = ts ∧ r = r' := by
  induction ss generalizing ts with
  | nil =>
    cases ts with
    | nil => exact ⟨rfl, h⟩
    | cons t ts => exact absurd (congrArg List.head? h) hr.2
  | cons s ss ih =>
    cases ts with
    | nil => exact absurd (congrArg List.head? h.symm) hr'.2
    | cons t ts =>
      rw [behindPoints_cons_append, behindPoints_cons_append, List.cons.injEq] at h
      obtain ⟨rfl, hrest⟩ :=
        quote_append_inj (head?_behindPoints hr ss) (head?_behindPoints hr' ts) h.2
      obtain ⟨rfl, rfl⟩ := ih hrest
      exact ⟨rfl, rfl⟩

theorem field_append_inj {d : Dialect} {f g r r' : Text} (hr : d.EndsField r)
    (hr' : d.EndsField r') (h : d.field f ++ r = d.field g ++ r') : f = g ∧ r = r' := by
  have hf := Text.join_splitOn '.' f
  have hg := Text.join_splitOn '.' g
  rw [field, field] at h
  obtain ⟨s, ss, hss⟩ := List.exists_cons_of_ne_nil (List.splitOn_ne_nil '.' f)
  obtain ⟨t, ts, hts⟩ := List.exists_cons_of_ne_nil (List.splitOn_ne_nil '.' g)
  rw [hss, hts, join_segments, join_segments, List.append_assoc, List.append_assoc] at h
  obtain ⟨rfl, hrest⟩ :=
    quote_append_inj (head?_behindPoints hr ss) (head?_behindPoints hr' ts) h
  obtain ⟨rfl, rfl⟩ := behindPoints_append_inj hr hr' hrest
  exact ⟨hf.symm.trans ((hss.trans hts.symm) ▸ hg), rfl⟩

theorem head?_field (d : Dialect) (f : Text) : (d.field f).head? = some d.mark := by
  obtain ⟨s, ss, hss⟩ := List.exists_cons_of_ne_nil (List.splitOn_ne_nil '.' f)
  rw [field, hss, join_segments]
  rfl

end Dialect

namespace Style

theorem head?_field (s : Style) (f : Text) : (s.field f).content.head? = some s.dialect.mark := by
  unfold field
  cases s.relation with
  | none => exact s.dialect.head?_field f
  | some r => rfl

theorem field_append_inj {s : Style} {f g r r' : Text} (hr : s.dialect.EndsField r)
    (hr' : s.dialect.EndsField r') (h : (s.field f).content ++ r = (s.field g).content ++ r') :
    f = g ∧ r = r' := by
  unfold field at h
  cases hrel : s.relation with
  | none =>
    rw [hrel] at h
    exact Dialect.field_append_inj hr hr' h
  | some q =>
    rw [hrel] at h
    simp only [Fragment.atom, Dialect.column, List.append_assoc, List.cons_append,
      List.append_cancel_left_eq, List.cons.injEq, true_and] at h
    exact Dialect.field_append_inj hr hr' h

end Style

end FilterQuery.Sql
