import FilterQuery.Proofs.Sql.Fragment
import FilterQuery.Proofs.Sql.Identifier
set_option autoImplicit false

/-!
The columns that a statement selects, read back from its text. From where the part of the columns
begins the text reads as the names of the plan, whatever parts stand before and behind it.
-/

namespace FilterQuery.Sql

theorem length_readName {m : Char} {t name rest : Text} (h : readName m t = some (name, rest)) :
    rest.length < t.length := by
  fun_induction readName m t generalizing name with
  | case1 => cases h
  | case2 =>
    cases h
    simp
  | case3 => cases h
  | case4 c d t _ ih =>
    obtain ⟨⟨n, r⟩, hread, heq⟩ := Option.map_eq_some_iff.1 h
    cases heq
    exact Nat.lt_succ_of_lt (ih hread)
  | case5 c t _ ih =>
    obtain ⟨⟨n, r⟩, hread, heq⟩ := Option.map_eq_some_iff.1 h
    cases heq
    exact Nat.lt_succ_of_lt (Nat.lt_succ_of_lt (ih hread))
  | case6 =>
    cases h
    simp

namespace Dialect

/-- Reads a list of fields with their segments, up to where no point and no comma follows. -/
def readFields (d : Dialect) (t : Text) : Option (List (List Text)) :=
  match t with
  | [] => none
  | c :: t =>
    if c ≠ d.mark then none
    else
      match _h : readName d.mark t with
      | none => none
      | some (s, '.' :: rest) => (d.readFields rest).map fun fs => fs.modifyHead (s :: ·)
      | some (s, ',' :: ' ' :: rest) => (d.readFields rest).map fun fs => [s] :: fs
      | some (s, _) => some [[s]]
termination_by t.length
decreasing_by
  · have := length_readName _h
    simp at this ⊢
    omega
  · have := length_readName _h
    simp at this ⊢
    omega

/-- The columns that a text selects from its start on: all of them, or those that it names. -/
def selection? (d : Dialect) (t : Text) : Option (Option (List Text)) :=
  match "SELECT ".toList.isPrefixOf? t with
  | none => none
  | some ('*' :: _) => some none
  | some t => (d.readFields t).map fun fs => some (fs.map (Text.join ['.']))

theorem readName_identifier {d : Dialect} {r : Text} (hr : r.head? ≠ some d.mark) (s : Text) :
    ∃ t, d.identifier s ++ r = d.mark :: t ∧ readName d.mark t = some (s, r) := by
  refine ⟨Text.replace d.mark [d.mark, d.mark] s ++ d.mark :: r, ?_, readName_replace hr s⟩
  simp [identifier, quote]

theorem readFields_identifier (d : Dialect) (r s : Text) : r.head? ≠ some d.mark →
    d.readFields (d.identifier s ++ r) =
      match r with
      | '.' :: rest => (d.readFields rest).map fun fs => fs.modifyHead (s :: ·)
      | ',' :: ' ' :: rest => (d.readFields rest).map fun fs => [s] :: fs
      | _ => some [[s]] := by
  intro hr
  obtain ⟨u, hu, hread⟩ := readName_identifier hr s
  rw [hu, readFields]
  simp only [ne_eq, not_true_eq_false, if_false]
  split
  · rename_i hnone
    cases hread.symm.trans hnone
  · rename_i hpoint
    cases hread.symm.trans hpoint
    rfl
  · rename_i hcomma
    cases hread.symm.trans hcomma
    rfl
  · rename_i hpoint hcomma hend
    cases hread.symm.trans hend
    split
    · exact (hpoint _ rfl).elim
    · exact (hcomma _ rfl).elim
    · rfl

def EndsFields (d : Dialect) (r : Text) : Prop := d.EndsField r ∧ r.head? ≠ some ','

theorem endsFields_nil (d : Dialect) : d.EndsFields [] := by simp [EndsFields, EndsField]

theorem endsFields_blank (d : Dialect) (r : Text) : d.EndsFields (' ' :: r) := by
  cases d <;> simp [EndsFields, EndsField, mark]

theorem readFields_segments_end {d : Dialect} {r : Text} (hr : d.EndsFields r) (s : Text)
    (ss : List Text) :
    d.readFields (d.identifier s ++ (d.behindPoints ss ++ r)) = some [s :: ss] := by
  induction ss generalizing s with
  | nil =>
    rw [behindPoints_nil, List.nil_append, readFields_identifier _ _ _ hr.1.1]
    split
    · exact absurd rfl hr.1.2
    · exact absurd rfl hr.2
    · rfl
  | cons u ss ih =>
    rw [behindPoints_cons_append, readFields_identifier _ _ _ (by simpa using Ne.symm d.mark_ne_point)]
    simp [ih]

theorem readFields_segments_comma (d : Dialect) (s : Text) (ss : List Text) (t : Text) :
    d.readFields (d.identifier s ++ (d.behindPoints ss ++ ',' :: ' ' :: t)) =
      (d.readFields t).map fun fs => (s :: ss) :: fs := by
  induction ss generalizing s with
  | nil =>
    rw [behindPoints_nil, List.nil_append,
      readFields_identifier _ _ _ (by cases d <;> simp [mark])]
    rfl
  | cons u ss ih =>
    rw [behindPoints_cons_append, readFields_identifier _ _ _ (by simpa using Ne.symm d.mark_ne_point)]
    simp [ih, Function.comp_def]

theorem readFields_fields {d : Dialect} {r : Text} (hr : d.EndsFields r) {fs : List Text}
    (hne : fs ≠ []) :
    d.readFields (Text.join ", ".toList (fs.map d.field) ++ r) =
      some (fs.map fun f => f.splitOn '.') := by
  induction fs with
  | nil => exact absurd rfl hne
  | cons f fs ih =>
    obtain ⟨s, ss, hss⟩ := List.exists_cons_of_ne_nil (List.splitOn_ne_nil '.' f)
    have hfield : d.field f = d.identifier s ++ d.behindPoints ss := by
      rw [field, hss, join_segments]
    cases fs with
    | nil =>
      simp only [List.map_cons, List.map_nil, Text.join_singleton, hfield, hss]
      rw [List.append_assoc, readFields_segments_end hr]
    | cons g gs =>
      have hjoin : Text.join ", ".toList ((f :: g :: gs).map d.field) ++ r =
          d.identifier s ++ (d.behindPoints ss ++ ',' :: ' ' ::
            (Text.join ", ".toList ((g :: gs).map d.field) ++ r)) := by
        simp [hfield]
      rw [hjoin, readFields_segments_comma, ih (by simp)]
      simp [hss]

theorem selection?_all (d : Dialect) (r : Text) :
    d.selection? ("SELECT *".toList ++ r) = some none := by
  have hmark : "SELECT *".toList ++ r = "SELECT ".toList ++ '*' :: r := rfl
  rw [hmark, selection?, Text.isPrefixOf?_append]
  rfl

theorem selection?_fields {d : Dialect} {r : Text} (hr : d.EndsFields r) {fs : List Text}
    (hne : fs ≠ []) :
    d.selection? ("SELECT ".toList ++ (Text.join ", ".toList (fs.map d.field) ++ r)) =
      some (some fs) := by
  have hstar (t : Text) : Text.join ", ".toList (fs.map d.field) ++ r ≠ '*' :: t := by
    intro h
    have hread := readFields_fields hr hne
    rw [h, readFields, if_pos (by cases d <;> decide)] at hread
    cases hread
  have hfields : (fs.map fun f => f.splitOn '.').map (Text.join ['.']) = fs := by
    simp [Function.comp_def]
  rw [selection?, Text.isPrefixOf?_append]
  split
  · rename_i h
    cases h
  · rename_i h
    exact absurd (Option.some.inj h) (hstar _)
  · rename_i h
    cases h
    rw [readFields_fields hr hne, Option.map_some, hfields]

end Dialect

def Fragment.spacedBehind (fs : List Fragment) : Text :=
  fs.flatMap fun f => if f.isEmpty then [] else f.content ++ [' ']

/-- A piece that is not empty stands behind the pieces before it, and what follows it starts with a
blank. -/
theorem Fragment.content_spaced_around {f : Fragment} (hf : f.isEmpty = false)
    (before after : List Fragment) :
    ∃ rest, (rest = [] ∨ ∃ t, rest = ' ' :: t) ∧
      (spaced (before ++ f :: after)).content = spacedBehind before ++ (f.content ++ rest) := by
  induction before with
  | nil =>
    rw [List.nil_append, spaced, join_cons, if_neg (by simp [hf])]
    split
    · rename_i hall
      have hnone : after.filter (fun g => !g.isEmpty) = [] := by simpa using hall
      exact ⟨[], .inl rfl, by simp [join, hnone, spacedBehind]⟩
    · exact ⟨' ' :: (join [' '] after).content, .inr ⟨_, rfl⟩, by simp [spacedBehind]⟩
  | cons g before ih =>
    obtain ⟨rest, hrest, hcontent⟩ := ih
    refine ⟨rest, hrest, ?_⟩
    rw [spaced] at hcontent
    rw [List.cons_append, spaced, join_cons]
    cases hg : g.isEmpty with
    | true => simpa [spacedBehind, hg] using hcontent
    | false =>
      have hsome : (before ++ f :: after).all isEmpty = false := by simp [hf]
      simp [hsome, hcontent, spacedBehind, hg]

namespace Style

theorem isEmpty_columns (s : Style) (table : Text) (p : Plan) :
    (s.part table p .columns).isEmpty = false := by
  rw [part]
  split <;> rfl

theorem selection?_columns (s : Style) (table : Text) (p : Plan) {rest : Text}
    (hrest : s.dialect.EndsFields rest) :
    s.dialect.selection? ((s.part table p .columns).content ++ rest) =
      some (if p.selected = [] then none else some p.selected) := by
  by_cases hnone : p.selected = []
  · rw [part, if_pos (by simp [hnone]), if_pos hnone]
    exact s.dialect.selection?_all rest
  · rw [part, if_neg (by simpa using hnone), if_neg hnone, Fragment.content_atom, fields,
      List.append_assoc]
    exact Dialect.selection?_fields hrest hnone

/-- Wherever the part of the columns stands in a statement, the text reads as the names of the plan
from there on. -/
theorem selection?_statement (s : Style) (table : Text) (p : Plan) (before after : List Part) :
    ∃ rest, (s.statement table p (before ++ .columns :: after)).content =
        Fragment.spacedBehind (before.map (s.part table p)) ++ rest ∧
      s.dialect.selection? rest = some (if p.selected = [] then none else some p.selected) := by
  obtain ⟨rest, hrest, hcontent⟩ := Fragment.content_spaced_around (s.isEmpty_columns table p)
    (before.map (s.part table p)) (after.map (s.part table p))
  refine ⟨(s.part table p .columns).content ++ rest, ?_, s.selection?_columns table p ?_⟩
  · rw [statement, List.map_append, List.map_cons, hcontent]
  · rcases hrest with rfl | ⟨t, rfl⟩
    · exact s.dialect.endsFields_nil
    · exact s.dialect.endsFields_blank t

end Style

end FilterQuery.Sql
