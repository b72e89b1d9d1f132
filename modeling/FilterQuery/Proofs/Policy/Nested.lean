import FilterQuery.Proofs.Policy.Respelling
import FilterQuery.Proofs.Policy.Soundness
set_option autoImplicit false

/-!
The names that fields of relations go by. A field that is listed behind its relation goes by what
follows as many segments of the listed name as the relation has. Those segments need not spell the
relation, as points do not count where names are loosely equal, and exactly then the field goes by
a name that is no spelling of its own.
-/

namespace FilterQuery

/-- Where two names have a point behind equally many segments, they are the same in front of it
and behind it. -/
theorem Text.append_point_inj {a b s t : Text}
    (hlen : (a.splitOn '.').length = (b.splitOn '.').length)
    (h : a ++ '.' :: s = b ++ '.' :: t) : a = b ∧ s = t := by
  have hsplit : a.splitOn '.' ++ s.splitOn '.' = b.splitOn '.' ++ t.splitOn '.' := by
    rw [← List.splitOn_append_cons_self, h, List.splitOn_append_cons_self]
  obtain ⟨hfront, hbehind⟩ := List.append_inj hsplit hlen
  have hjoin {u v : Text} (huv : u.splitOn '.' = v.splitOn '.') : u = v := by
    rw [← join_splitOn '.' u, huv, join_splitOn]
  exact ⟨hjoin hfront, hjoin hbehind⟩

/-- Of two names that are the same, the parts behind a point are the same exactly if the parts in
front of it are. -/
theorem Resolution.same_behind_iff {r : Resolution} {a b s t : Text}
    (hlen : (a.splitOn '.').length = (b.splitOn '.').length)
    (h : r.same (a ++ '.' :: s) (b ++ '.' :: t) = true) :
    r.same s t = true ↔ r.same a b = true := by
  cases r with
  | strict =>
    obtain ⟨rfl, rfl⟩ := Text.append_point_inj hlen (eq_of_beq h)
    simp only [same_refl]
  | flexible =>
    have hpoint : Text.isLetterOrDigit '.' = false := rfl
    simp only [same_iff_folded, Text.folded_append, Text.folded_cons, hpoint, Bool.false_eq_true,
      if_false] at h ⊢
    constructor
    · intro hst
      rw [hst] at h
      exact List.append_cancel_right h
    · intro hab
      rw [hab] at h
      exact List.append_cancel_left h

namespace Policy

variable {p : Policy}

/-- The field is listed behind its relation only, and the segments in front of it in the listed
name do not spell the relation. -/
def CutsAmiss (p : Policy) (relation field : Text) : Prop :=
  p.whitelist = true ∧ p.resolution.find? p.allowed (p.rename field) = none ∧
    ∃ lead rest,
      p.resolution.find? p.allowed (p.rename (qualified relation field)) =
        some (qualified lead rest) ∧
      (lead.splitOn '.').length = (relation.splitOn '.').length ∧
      p.resolution.same lead (p.rename relation) = false

/-- A cut in a listed name leaves a spelling of the field exactly if it goes behind a spelling of
the relation. -/
theorem same_behind_iff_of_find? {relation field lead rest : Text}
    (hlen : (lead.splitOn '.').length = (relation.splitOn '.').length)
    (h : p.resolution.find? p.allowed (p.rename (qualified relation field)) =
      some (qualified lead rest)) :
    p.resolution.same rest (p.rename field) = true ↔
      p.resolution.same lead (p.rename relation) = true := by
  have hsame := (Resolution.find?_eq_some h).2
  rw [rename_qualified] at hsame
  exact Resolution.same_behind_iff (hlen.trans (p.naming.length_splitOn_apply relation).symm) hsame

theorem same_iff_not_cutsAmiss {relation field n : Text}
    (h : p.resolveNested relation field = some n) :
    p.resolution.same n (p.rename field) = true ↔ ¬p.CutsAmiss relation field := by
  obtain ⟨-, ⟨hoff, rfl⟩ | ⟨-, hfind⟩ | ⟨hon, hnone, entry, hentry, hafter, -⟩⟩ :=
    resolveNested_cases h
  · have hnot : ¬p.CutsAmiss relation field := fun hcut => by
      rw [hcut.1] at hoff
      cases hoff
    simp only [Resolution.same_refl, hnot, not_false_eq_true]
  · have hnot : ¬p.CutsAmiss relation field := fun hcut => by
      rw [hcut.2.1] at hfind
      cases hfind
    simp only [(Resolution.find?_eq_some hfind).2, hnot, not_false_eq_true]
  · have hpos : 0 < (relation.splitOn '.').length :=
      List.length_pos_iff.2 (List.splitOn_ne_nil '.' relation)
    obtain ⟨lead, rfl, hlen⟩ := eq_of_afterSegments hpos hafter
    rw [same_behind_iff_of_find? hlen hentry]
    constructor
    · rintro hsame ⟨-, -, lead', rest', hentry', hlen', hother⟩
      -- the listed name is cut in one place only
      obtain ⟨rfl, -⟩ := Text.append_point_inj (hlen'.trans hlen.symm)
        (Option.some.inj (hentry'.symm.trans hentry))
      rw [hsame] at hother
      cases hother
    · intro hnot
      rw [← Bool.not_eq_false]
      exact fun hother => hnot ⟨hon, hnone, lead, n, hentry, hlen, hother⟩

/-- A cut in the very name that is looked up goes where the relation ends. -/
theorem not_cutsAmiss_of_strict (hp : p.resolution = .strict) (relation field : Text) :
    ¬p.CutsAmiss relation field := by
  rintro ⟨-, -, lead, rest, hentry, hlen, hother⟩
  have hsame := (Resolution.find?_eq_some hentry).2
  rw [rename_qualified, hp] at hsame
  obtain ⟨rfl, -⟩ := Text.append_point_inj
    (hlen.trans (p.naming.length_splitOn_apply relation).symm) (eq_of_beq hsame)
  rw [rename, Resolution.same_refl] at hother
  cases hother

/-- Under strict resolution a field of a relation goes by its own name as it is renamed. Under
flexible resolution it goes by a name that is loosely equal to that, unless the listed name that it
is found under has other segments than those of the relation in front: then it never does. -/
theorem resolveNested_respells {relation field n : Text}
    (h : p.resolveNested relation field = some n) :
    (p.resolution = .strict → n = p.rename field) ∧
      (p.resolution = .flexible →
        (looselyEqual n (p.rename field) = true ↔ ¬p.CutsAmiss relation field)) := by
  have hiff := same_iff_not_cutsAmiss h
  constructor
  · intro hp
    have hsame := hiff.2 (not_cutsAmiss_of_strict hp relation field)
    rw [hp] at hsame
    exact eq_of_beq hsame
  · intro hp
    rwa [hp] at hiff

/-- The relation is listed as two words and again as two segments, so that the field goes by a name
that takes in the second one. -/
theorem resolveNested_respells_items :
    let p : Policy := { (empty .snakeCase .flexible).allow
      ["order_items".toList, "order.items.status".toList] with whitelist := true }
    p.resolveNested "orderItems".toList "status".toList = some "items.status".toList ∧
      looselyEqual "items.status".toList (p.rename "status".toList) = false ∧
      p.CutsAmiss "orderItems".toList "status".toList := by
  intro p
  have hres : p.resolveNested "orderItems".toList "status".toList = some "items.status".toList := by
    decide
  have hother : looselyEqual "items.status".toList (p.rename "status".toList) = false := by decide
  refine ⟨hres, hother, Classical.byContradiction fun hnot => ?_⟩
  rw [((resolveNested_respells hres).2 rfl).2 hnot] at hother
  cases hother

end Policy

end FilterQuery
