import FilterQuery.Adapter
import FilterQuery.Proofs.Sql.Arguments
set_option autoImplicit false

/-!
A condition reads back to one canonical form. The texts of conditions are a prefix code: neither a
name nor a list nor a nested condition can be cut at two places, so whatever stands behind them the
first condition of a text, with its arguments, is the condition of one canonical form only.
-/

namespace FilterQuery

inductive Test.Form where
  | compare (c : Comparison)
  | pattern (k : PatternKind)
  | member (negated : Bool)
  | between
  | null (negated : Bool)
  deriving DecidableEq

def Test.form : Test → Form
  | .compare c _ => .compare c
  | .pattern k _ => .pattern k
  | .member n _ => .member n
  | .between _ _ => .between
  | .null n => .null n

namespace Test.Form

def all : List Form :=
  [.compare .eq, .compare .neq, .compare .gt, .compare .gte, .compare .lt, .compare .lte,
    .pattern .like, .pattern .ilike, .pattern .regex, .member false, .member true, .between,
    .null false, .null true]

theorem mem_all (k : Form) : k ∈ all := by
  cases k with
  | compare c => cases c <;> decide
  | pattern k => cases k <;> decide
  | member n => cases n <;> decide
  | between => decide
  | null n => cases n <;> decide

def opening : Form → Text
  | .pattern .ilike => "LOWER(".toList
  | _ => []

theorem opening_eq (k : Form) : k.opening = [] ∨ k.opening = "LOWER(".toList := by
  unfold opening
  split
  · exact .inr rfl
  · exact .inl rfl

/-- What stands behind the field, of a list only its first placeholder. -/
def phrase (d : Sql.Dialect) : Form → Text
  | .compare c => ' ' :: Sql.comparisonOperator c ++ " ?".toList
  | .pattern .like => " LIKE ?".toList
  | .pattern .ilike => ") LIKE LOWER(?)".toList
  | .pattern .regex => ' ' :: d.regexOperator Sql.defaultRegexOperator ++ " ?".toList
  | .member n => if n then " NOT IN (?".toList else " IN (?".toList
  | .between => " BETWEEN ? AND ?".toList
  | .null n => if n then " IS NOT NULL".toList else " IS NULL".toList

theorem phrase_prefix {d : Sql.Dialect} {k l : Form} (h : k.phrase d <+: l.phrase d) : k = l := by
  have hall : ∀ k ∈ all, ∀ l ∈ all, k.phrase d <+: l.phrase d → k = l := by cases d <;> decide
  exact hall k k.mem_all l l.mem_all h

theorem endsField_phrase (d : Sql.Dialect) (k : Form) (r : Text) :
    d.EndsField (k.phrase d ++ r) := by
  have hall : ∀ k ∈ all, k.phrase d ≠ [] ∧ (k.phrase d).head? ≠ some d.mark ∧
      (k.phrase d).head? ≠ some '.' := by cases d <;> decide
  obtain ⟨hne, hends⟩ := hall k k.mem_all
  obtain ⟨c, t, ht⟩ := List.exists_cons_of_ne_nil hne
  rw [ht] at hends ⊢
  exact hends

end Test.Form

namespace Sql

def listEnd (vs : List Value) : Text := vs.flatMap (fun _ => ", ?".toList) ++ [')']

theorem listEnd_append_inj {vs ws : List Value} {r r' : Text}
    (h : listEnd vs ++ r = listEnd ws ++ r') : vs.length = ws.length ∧ r = r' := by
  induction vs generalizing ws with
  | nil =>
    cases ws with
    | nil => simpa [listEnd] using h
    | cons w ws => simp [listEnd] at h
  | cons v vs ih =>
    cases ws with
    | nil => simp [listEnd] at h
    | cons w ws =>
      have hrest : listEnd vs ++ r = listEnd ws ++ r' := by simpa [listEnd] using h
      obtain ⟨hlength, rfl⟩ := ih hrest
      exact ⟨congrArg (· + 1) hlength, rfl⟩

namespace Fragment

theorem content_comparison {f g : Fragment} {operator : Text} (hf : f.isEmpty = false)
    (hoperator : operator ≠ []) (hg : g.isEmpty = false) :
    (comparison f operator g).content = f.content ++ (' ' :: operator ++ ' ' :: g.content) := by
  have hatom : (atom operator).isEmpty = false := by simpa [isEmpty, atom] using hoperator
  rw [comparison, spaced, join_pair _ hf hatom, join_pair _ hatom hg, join_single _ hg]
  rfl

theorem content_null {f : Fragment} (hf : f.isEmpty = false) (n : Bool) :
    (f.null n).content =
      f.content ++ (' ' :: if n then "IS NOT NULL".toList else "IS NULL".toList) := by
  have hatom : (atom (if n then "IS NOT NULL".toList else "IS NULL".toList)).isEmpty = false := by
    cases n <;> rfl
  rw [null, spaced, join_pair _ hf hatom, join_single _ hatom]
  rfl

theorem content_between {f : Fragment} (hf : f.isEmpty = false) (low high : Value) :
    (f.between (placeholder low) (placeholder high)).content =
      f.content ++ " BETWEEN ? AND ?".toList := by
  rw [between, spaced, join_pair _ hf rfl, join_pair _ rfl rfl, join_pair _ rfl rfl,
    join_pair _ rfl rfl, join_single _ rfl]
  rfl

theorem content_placeholders (v : Value) (vs : List Value) :
    (join ", ".toList ((v :: vs).map placeholder)).content ++ [')'] = '?' :: listEnd vs := by
  induction vs generalizing v with
  | nil => rfl
  | cons w vs ih =>
    rw [List.map_cons, List.map_cons, join_pair _ rfl rfl, ← List.map_cons, content_append,
      content_append, List.append_assoc, List.append_assoc, ih w]
    simp [listEnd]

theorem content_member {f : Fragment} (hf : f.isEmpty = false) (n : Bool) (v : Value)
    (vs : List Value) :
    (f.member n (v :: vs)).content =
      f.content ++ ((if n then " NOT IN (?".toList else " IN (?".toList) ++ listEnd vs) := by
  rw [member, List.isEmpty_cons, if_neg Bool.false_ne_true,
    content_comparison hf (by cases n <;> decide) rfl, parenthesize_eq, append_assoc,
    content_append, content_append, content_atom, content_atom, content_placeholders]
  cases n <;> rfl

end Fragment

end Sql

def Test.ending : Test → Text
  | .member _ vs => Sql.listEnd vs.tail
  | _ => []

namespace Test

theorem arguments_compare {c : Comparison} {v : Value}
    (h : (compare c v).canonical = some (compare c v)) : (compare c v).arguments = [v] := by
  rw [arguments]
  · rintro rfl rfl
    cases h
  · rintro rfl rfl
    cases h

/-- A test is told from its form, its arguments and what ends its text. -/
theorem eq_of_form {t u : Test} (hform : t.form = u.form) (ht : t.canonical = some t)
    (hu : u.canonical = some u) {a b : List Value} {r r' : Text}
    (hargs : t.arguments ++ a = u.arguments ++ b) (hending : t.ending ++ r = u.ending ++ r') :
    t = u ∧ a = b ∧ r = r' := by
  cases t with
  | compare c v =>
    cases u with
    | compare c' w =>
      cases hform
      rw [arguments_compare ht, arguments_compare hu] at hargs
      cases hargs
      exact ⟨rfl, rfl, hending⟩
    | _ => cases hform
  | pattern k p =>
    cases u with
    | pattern k' q =>
      cases hform
      cases hargs
      exact ⟨rfl, rfl, hending⟩
    | _ => cases hform
  | member n vs =>
    cases u with
    | member n' ws =>
      cases hform
      match vs, ws, ht, hu with
      | v :: vs, w :: ws, _, _ =>
        obtain ⟨hlength, hr⟩ := Sql.listEnd_append_inj hending
        obtain ⟨hvalues, rfl⟩ := List.append_inj hargs (congrArg (· + 1) hlength)
        exact ⟨congrArg (member n) hvalues, rfl, hr⟩
    | _ => cases hform
  | between low high =>
    cases u with
    | between low' high' =>
      cases hargs
      exact ⟨rfl, rfl, hending⟩
    | _ => cases hform
  | null n =>
    cases u with
    | null n' =>
      cases hform
      exact ⟨rfl, hargs, hending⟩
    | _ => cases hform

end Test

namespace Sql.Style

open Fragment

def IsUsual (s : Style) : Prop :=
  s.regexOperator = s.dialect.regexOperator defaultRegexOperator

theorem content_leaf {s : Style} (hs : s.IsUsual) (f : Text) {t : Test} (h : t.canonical = some t) :
    (s.leaf f t).content =
      t.form.opening ++ ((s.field f).content ++ (t.form.phrase s.dialect ++ t.ending)) := by
  have hfield := s.isEmpty_field f
  unfold leaf
  split
  · cases h
  · cases h
  · rename_i c v _ _
    rw [content_comparison hfield (by cases c <;> decide) rfl]
    cases c <;> rfl
  · rw [content_comparison hfield (by decide) rfl]
    rfl
  · rw [content_comparison rfl (by decide) rfl]
    change "LOWER(".toList ++ ((s.field f).content ++ [')']) ++ " LIKE LOWER(?)".toList = _
    rw [List.append_assoc, List.append_assoc]
    rfl
  · rw [content_comparison hfield (by rw [hs]; cases s.dialect <;> decide) rfl, hs]
    exact congrArg ((s.field f).content ++ ·) (List.append_nil _).symm
  · rename_i n vs
    cases vs with
    | nil => cases h
    | cons v vs => exact content_member hfield n v vs
  · exact content_between hfield _ _
  · rename_i n
    rw [content_null hfield]
    cases n <;> rfl

theorem opening_append_inj {s : Style} {f g : Text} {k l : Test.Form} {r r' : Text}
    (h : k.opening ++ ((s.field f).content ++ r) = l.opening ++ ((s.field g).content ++ r')) :
    k.opening = l.opening := by
  have hmark : 'L' ≠ s.dialect.mark := by cases s.dialect <;> decide
  have hhead (f : Text) (r : Text) : ((s.field f).content ++ r).head? = some s.dialect.mark := by
    rw [List.head?_append, s.head?_field f]
    rfl
  have heq := congrArg List.head? h
  rcases k.opening_eq with hk | hk <;> rcases l.opening_eq with hl | hl <;> rw [hk, hl] at heq ⊢
  · rw [List.nil_append, hhead] at heq
    exact absurd (Option.some.inj heq).symm hmark
  · rw [List.nil_append, hhead] at heq
    exact absurd (Option.some.inj heq) hmark

/-- A leaf is told from its condition, whatever stands behind it. -/
theorem leaf_append_inj {s : Style} (hs : s.IsUsual) {f g : Text} {t u : Test}
    (ht : t.canonical = some t) (hu : u.canonical = some u) {r r' : Fragment}
    (h : s.leaf f t ++ r = s.leaf g u ++ r') : (f = g ∧ t = u) ∧ r = r' := by
  have hcontent := congrArg content h
  have hargs := congrArg args h
  rw [content_append, content_append, content_leaf hs f ht, content_leaf hs g hu] at hcontent
  rw [args_append, args_append, args_leaf, args_leaf] at hargs
  simp only [List.append_assoc] at hcontent
  rw [opening_append_inj hcontent, List.append_cancel_left_eq] at hcontent
  obtain ⟨rfl, hphrase⟩ := field_append_inj (t.form.endsField_phrase _ _)
    (u.form.endsField_phrase _ _) hcontent
  -- behind the field both phrases start the same text, so one of them starts the other
  have hform : t.form = u.form := by
    obtain hprefix | hprefix := List.prefix_or_prefix_of_prefix (List.prefix_append _ _)
      (hphrase ▸ List.prefix_append _ _)
    · exact (Test.Form.phrase_prefix hprefix).symm
    · exact Test.Form.phrase_prefix hprefix
  rw [hform, List.append_cancel_left_eq] at hphrase
  obtain ⟨rfl, hargs, hcontent⟩ := Test.eq_of_form hform ht hu hargs hphrase
  exact ⟨⟨rfl, rfl⟩, Fragment.ext hcontent hargs⟩

def lead (s : Style) : Expr → Char
  | .leaf _ t => t.form.opening.headD s.dialect.mark
  | .junction _ _ => '('
  | .not _ => 'N'

theorem lead_leaf (s : Style) (f : Text) (t : Test) :
    s.lead (.leaf f t) ≠ '(' ∧ s.lead (.leaf f t) ≠ 'N' := by
  rw [lead]
  rcases t.form.opening_eq with h | h <;> rw [h] <;> cases s.dialect <;> decide

def behindFirst (s : Style) (j : Junction) : List Expr → Fragment
  | [] => atom [')']
  | e :: es => atom (' ' :: junctionWord j ++ [' ']) ++ (s.condition e ++ behindFirst s j es)

theorem join_operands (s : Style) (j : Junction) {e : Expr} {es : List Expr}
    (h : Expr.IsCanonicalEach (e :: es)) :
    join (' ' :: junctionWord j ++ [' ']) (s.conditionEach (e :: es)) ++ atom [')'] =
      s.condition e ++ s.behindFirst j es := by
  induction es generalizing e with
  | nil => rw [conditionEach, conditionEach, join_single _ (s.isEmpty_condition h.1), behindFirst]
  | cons f es ih =>
    rw [conditionEach, conditionEach,
      join_pair _ (s.isEmpty_condition h.1) (s.isEmpty_condition h.2.1), append_assoc, append_assoc,
      ← conditionEach, ih h.2, behindFirst]

theorem condition_junction (s : Style) {j : Junction} {e f : Expr} {es : List Expr}
    (h : (Expr.junction j (e :: f :: es)).IsCanonical) :
    s.condition (.junction j (e :: f :: es)) =
      atom ['('] ++ (s.condition e ++ s.behindFirst j (f :: es)) := by
  have heach := s.isEmpty_conditionEach h.2
  rw [← s.join_operands j h.2, condition, conditionEach, conditionEach, conditions_pair _ heach,
    parenthesize_eq, append_assoc]

theorem condition_not (s : Style) {e : Expr} (h : e.IsCanonical) :
    s.condition (.not e) = atom "NOT (".toList ++ (s.condition e ++ atom [')']) := by
  rw [condition, Fragment.not, s.isEmpty_condition h]
  ext1
  · rfl
  · exact (List.append_nil _).symm

/-- A leaf writes its field once, and nothing else of it depends on the field. -/
theorem exists_content_leaf (operator : Text) {t : Test} (h : t.canonical = some t) :
    ∃ rest, ∀ (s : Style) (f : Text), s.regexOperator = operator →
      (s.leaf f t).content = t.form.opening ++ ((s.field f).content ++ rest) := by
  have behind (fs : List Fragment) : ∃ rest, ∀ (s : Style) (f : Text),
      (spaced (s.field f :: fs)).content = (s.field f).content ++ rest := by
    obtain ⟨g, hg⟩ := exists_join_cons [' '] fs
    exact ⟨g.content, fun s f => congrArg content (hg _ (s.isEmpty_field f))⟩
  cases t with
  | compare c v =>
    obtain ⟨rest, hrest⟩ := behind [atom (comparisonOperator c), .placeholder v]
    refine ⟨rest, fun s f _ => ?_⟩
    rw [leaf]
    · exact hrest s f
    · rintro rfl rfl
      cases h
    · rintro rfl rfl
      cases h
  | pattern k p =>
    cases k with
    | ilike =>
      obtain ⟨g, hg⟩ := exists_join_cons [' '] [atom likeOperator, lower (.placeholder (.text p))]
      refine ⟨')' :: g.content, fun s f _ => ?_⟩
      rw [leaf, comparison, spaced, hg _ rfl]
      change "LOWER(".toList ++ ((s.field f).content ++ [')']) ++ g.content = _
      rw [List.append_assoc, List.append_assoc]
      rfl
    | like =>
      obtain ⟨rest, hrest⟩ := behind [atom likeOperator, .placeholder (.text p)]
      exact ⟨rest, fun s f _ => hrest s f⟩
    | regex =>
      obtain ⟨rest, hrest⟩ := behind [atom operator, .placeholder (.text p)]
      exact ⟨rest, fun s f hs => by rw [← hrest s f, ← hs]; rfl⟩
  | member n vs =>
    cases vs with
    | nil => cases h
    | cons v vs =>
      obtain ⟨rest, hrest⟩ := behind [atom (if n then "NOT IN".toList else "IN".toList),
        (join ", ".toList ((v :: vs).map .placeholder)).parenthesize]
      exact ⟨rest, fun s f _ => hrest s f⟩
  | between low high =>
    obtain ⟨rest, hrest⟩ := behind [atom "BETWEEN".toList, .placeholder low, atom andWord,
      .placeholder high]
    exact ⟨rest, fun s f _ => hrest s f⟩
  | null n =>
    obtain ⟨rest, hrest⟩ := behind [atom (if n then "IS NOT NULL".toList else "IS NULL".toList)]
    exact ⟨rest, fun s f _ => hrest s f⟩

theorem head?_condition (s : Style) {e : Expr} (h : e.IsCanonical) :
    (s.condition e).content.head? = some (s.lead e) := by
  cases e with
  | leaf f t =>
    obtain ⟨rest, hrest⟩ := exists_content_leaf s.regexOperator h
    rw [condition, hrest s f rfl, lead]
    rcases t.form.opening_eq with hopening | hopening
    · rw [hopening, List.nil_append, List.head?_append, s.head?_field f]
      rfl
    · rw [hopening]
      rfl
  | junction j es =>
    obtain _ | ⟨e, _ | ⟨f, es⟩⟩ := es
    · exact absurd h.1 (by simp)
    · exact absurd h.1 (by simp)
    · rw [s.condition_junction h]
      rfl
  | not e =>
    have he : e.IsCanonical := h
    rw [s.condition_not he]
    rfl

theorem lead_eq {s : Style} {e f : Expr} (he : e.IsCanonical)
    (hf : f.IsCanonical) {r r' : Fragment} (h : s.condition e ++ r = s.condition f ++ r') :
    s.lead e = s.lead f := by
  have hhead := congrArg (fun x : Fragment => x.content.head?) h
  simp only [content_append, List.head?_append, s.head?_condition he,
    s.head?_condition hf] at hhead
  exact Option.some.inj hhead

theorem atom_append_inj {t : Text} {f g : Fragment} (h : atom t ++ f = atom t ++ g) : f = g := by
  have hcontent := congrArg content h
  have hargs := congrArg args h
  exact Fragment.ext (List.append_cancel_left hcontent) hargs

theorem word_append_inj {j k : Junction} {f g : Fragment}
    (h : atom (' ' :: junctionWord j ++ [' ']) ++ f = atom (' ' :: junctionWord k ++ [' ']) ++ g) :
    j = k ∧ f = g := by
  cases j <;> cases k
  · exact ⟨rfl, atom_append_inj h⟩
  · cases congrArg content h
  · cases congrArg content h
  · exact ⟨rfl, atom_append_inj h⟩

mutual

/-- The texts of canonical forms are a prefix code, and their arguments go with them. -/
theorem condition_append_inj {s : Style} (hs : s.IsUsual) : ∀ {e f : Expr}, e.IsCanonical →
    f.IsCanonical → ∀ {r r' : Fragment}, s.condition e ++ r = s.condition f ++ r' → e = f ∧ r = r'
  | .leaf _ _, .leaf _ _, he, hf, _, _, h => by
    obtain ⟨⟨rfl, rfl⟩, hr⟩ := leaf_append_inj hs he hf h
    exact ⟨rfl, hr⟩
  | .junction j (e :: e' :: es), .junction k (f :: f' :: fs), he, hf, _, _, h => by
    rw [s.condition_junction he, s.condition_junction hf] at h
    simp only [append_assoc] at h
    obtain ⟨rfl, hbehind⟩ := condition_append_inj hs he.2.1 hf.2.1 (atom_append_inj h)
    obtain ⟨hes, hword, hr⟩ := behindFirst_append_inj hs he.2.2 hf.2.2 hbehind
    rw [hes, hword (List.cons_ne_nil _ _)]
    exact ⟨rfl, hr⟩
  | .not e, .not f, he, hf, _, _, h => by
    have he : e.IsCanonical := he
    have hf : f.IsCanonical := hf
    rw [s.condition_not he, s.condition_not hf] at h
    simp only [append_assoc] at h
    obtain ⟨rfl, hr⟩ := condition_append_inj hs he hf (atom_append_inj h)
    exact ⟨rfl, atom_append_inj hr⟩
  -- expressions of different kinds differ in the first character
  | .leaf f t, .junction _ _, he, hf, _, _, h => absurd (lead_eq he hf h) (s.lead_leaf f t).1
  | .leaf f t, .not _, he, hf, _, _, h => absurd (lead_eq he hf h) (s.lead_leaf f t).2
  | .junction _ _, .leaf f t, he, hf, _, _, h =>
    absurd (lead_eq he hf h).symm (s.lead_leaf f t).1
  | .not _, .leaf f t, he, hf, _, _, h => absurd (lead_eq he hf h).symm (s.lead_leaf f t).2
  | .junction _ _, .not _, he, hf, _, _, h => by cases lead_eq he hf h
  | .not _, .junction _ _, he, hf, _, _, h => by cases lead_eq he hf h

theorem behindFirst_append_inj {s : Style} (hs : s.IsUsual) : ∀ {es fs : List Expr},
    Expr.IsCanonicalEach es → Expr.IsCanonicalEach fs → ∀ {j k : Junction} {r r' : Fragment},
    s.behindFirst j es ++ r = s.behindFirst k fs ++ r' → es = fs ∧ (es ≠ [] → j = k) ∧ r = r'
  | [], [], _, _, _, _, _, _, h => ⟨rfl, by simp, atom_append_inj h⟩
  | [], _ :: _, _, _, _, _, _, _, h => by cases congrArg content h
  | _ :: _, [], _, _, _, _, _, _, h => by cases congrArg content h
  | e :: es, f :: fs, he, hf, j, k, _, _, h => by
    rw [behindFirst, behindFirst] at h
    simp only [append_assoc] at h
    obtain ⟨rfl, hrest⟩ := word_append_inj h
    obtain ⟨rfl, hbehind⟩ := condition_append_inj hs he.1 hf.1 hrest
    obtain ⟨rfl, -, hr⟩ := behindFirst_append_inj hs he.2 hf.2 hbehind
    exact ⟨rfl, fun _ => rfl, hr⟩

end

def usual (d : Dialect) (relation : Option Text) : Style :=
  { Adapter.style d none defaultRegexOperator with relation := relation }

/-- Two expressions have the same condition, in text and in arguments, exactly if they have the
same canonical form, and a condition is empty exactly if there is none. -/
theorem condition_eq_iff_canonical (d : Dialect) (relation : Option Text) (e f : Expr) :
    ((usual d relation).condition e = (usual d relation).condition f ↔
      e.canonical = f.canonical) ∧
    (((usual d relation).condition e).isEmpty = true ↔ e.canonical = none) := by
  have hs : (usual d relation).IsUsual := rfl
  have hiff := isEmpty_condition_iff (usual d relation)
  refine ⟨⟨fun h => ?_, fun h => ?_⟩, hiff e⟩
  · have hnone : e.canonical = none ↔ f.canonical = none := by rw [← hiff e, ← hiff f, h]
    cases he : e.canonical with
    | none => exact (hnone.1 he).symm
    | some c =>
      cases hf : f.canonical with
      | none => exact absurd (hnone.2 hf) (by simp [he])
      | some c' =>
        rw [condition_canonical _ e, condition_canonical _ f, he, hf] at h
        obtain ⟨rfl, -⟩ := condition_append_inj hs (Expr.isCanonical_canonical he)
          (Expr.isCanonical_canonical hf) (congrArg (· ++ Fragment.empty) h)
        rfl
  · rw [condition_canonical _ e, condition_canonical _ f, h]

end Sql.Style

end FilterQuery
