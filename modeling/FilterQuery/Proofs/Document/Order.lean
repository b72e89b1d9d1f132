import FilterQuery.Proofs.Sql.Order
import FilterQuery.Proofs.Document.Columns
set_option autoImplicit false

/-!
What sort keys say about the order of records. Two records are ordered by the first field on which
they differ, in the direction of its first key. A statement asks for just that. The sort of a
document keeps each field once, in the place of its first key but with the direction of its last,
so it orders records alike exactly if these two directions never differ.
-/

namespace FilterQuery

def Direction.apply : Direction → Ordering → Ordering
  | .asc, o => o
  | .desc, o => o.swap

theorem Direction.apply_eq_eq_iff {d : Direction} {o : Ordering} : d.apply o = .eq ↔ o = .eq := by
  cases d <;> cases o <;> decide

theorem Direction.apply_inj {d d' : Direction} {o : Ordering} (ho : o ≠ .eq)
    (h : d.apply o = d'.apply o) : d = d' := by
  cases d <;> cases d' <;> cases o <;> first | rfl | exact absurd rfl ho | cases h

namespace SortKey

variable {α : Type} {order : α → α → Ordering} {a b : Text → α}

/-- The order of two records by sort keys, the first key first, where values are ordered as
given. -/
def compareBy (order : α → α → Ordering) : List SortKey → (Text → α) → (Text → α) → Ordering
  | [], _, _ => .eq
  | k :: ks, a, b =>
    (k.direction.apply (order (a k.field) (b k.field))).then (compareBy order ks a b)

def direction? (ks : List SortKey) (f : Text) : Option Direction :=
  (ks.find? (·.field = f)).map SortKey.direction

theorem direction?_cons (k : SortKey) (ks : List SortKey) (f : Text) :
    direction? (k :: ks) f = if k.field = f then some k.direction else direction? ks f := by
  by_cases hf : k.field = f <;> simp [direction?, hf]

theorem direction?_append (ks ls : List SortKey) (f : Text) :
    direction? (ks ++ ls) f = (direction? ks f).or (direction? ls f) := by
  rw [direction?, List.find?_append, direction?, direction?]
  cases ks.find? (·.field = f) <;> rfl

theorem direction?_eq_none_iff {ks : List SortKey} {f : Text} :
    direction? ks f = none ↔ f ∉ ks.map field := by
  simp [direction?]

theorem exists_direction? {ks : List SortKey} {f : Text} (h : f ∈ ks.map field) :
    ∃ d, direction? ks f = some d :=
  Option.ne_none_iff_exists'.1 (mt direction?_eq_none_iff.1 (not_not_intro h))

/-- The first field on which records differ decides, by the direction of its first key. -/
theorem compareBy_eq (ks : List SortKey) :
    compareBy order ks a b =
      ((ks.map field).find? fun f => order (a f) (b f) ≠ .eq).elim .eq fun f =>
        ((direction? ks f).getD .asc).apply (order (a f) (b f)) := by
  induction ks with
  | nil => rfl
  | cons k ks ih =>
    rw [compareBy, List.map_cons, List.find?_cons]
    by_cases hk : order (a k.field) (b k.field) = .eq
    · -- the key does not tell the records apart, so the field that does is not its own
      rw [Direction.apply_eq_eq_iff.2 hk, Ordering.eq_then, ih, hk]
      cases hfind : (ks.map field).find? fun f => order (a f) (b f) ≠ .eq with
      | none => rfl
      | some f =>
        have hne : k.field ≠ f := by
          rintro rfl
          simpa [hk] using List.find?_some hfind
        simp [direction?_cons, hne]
    · have happly : k.direction.apply (order (a k.field) (b k.field)) ≠ .eq :=
        mt Direction.apply_eq_eq_iff.1 hk
      simp only [ne_eq, hk, not_false_eq_true, decide_true, Option.elim_some, direction?_cons,
        if_true, Option.getD_some]
      cases hdecided : k.direction.apply (order (a k.field) (b k.field)) with
      | eq => exact absurd hdecided happly
      | lt => rfl
      | gt => rfl

/-- Keys that bring the fields in first in the same order, with the same directions, order records
alike. -/
theorem compareBy_congr {ks ls : List SortKey}
    (hfields : ∀ p : Text → Bool, (ks.map field).find? p = (ls.map field).find? p)
    (hdirections : ∀ f, direction? ks f = direction? ls f) :
    compareBy order ks a b = compareBy order ls a b := by
  rw [compareBy_eq, compareBy_eq, hfields]
  simp only [hdirections]

/-- Records that differ on one field only are ordered by the first key with that field. -/
theorem compareBy_update [Std.ReflCmp order] {x y : α} (hdiff : order x y ≠ .eq) (ks : List SortKey)
    (f : Text) :
    compareBy order ks (fun _ => x) (fun g => if g = f then y else x) =
      (direction? ks f).elim .eq fun d => d.apply (order x y) := by
  have hdiffers (g : Text) : order x (if g = f then y else x) ≠ .eq ↔ g = f := by
    by_cases hg : g = f
    · simp [hg, hdiff]
    · simp [hg, Std.ReflCmp.compare_self]
  have hfind : ((ks.map field).find? fun g => order x (if g = f then y else x) ≠ .eq) =
      (ks.find? (·.field = f)).map field := by
    simp only [hdiffers, List.find?_map]
    rfl
  rw [compareBy_eq, hfind, direction?]
  cases hfirst : ks.find? (·.field = f) with
  | none => rfl
  | some k =>
    have hk : k.field = f := by simpa using List.find?_some hfirst
    simp [hk, direction?, hfirst]

/-- The last key of every field has the direction of the first. -/
def Steady (ks : List SortKey) : Prop :=
  ∀ k ∈ ks, direction? ks.reverse k.field = direction? ks k.field

instance (ks : List SortKey) : Decidable (Steady ks) :=
  inferInstanceAs (Decidable (∀ k ∈ ks, direction? ks.reverse k.field = direction? ks k.field))

theorem steady_iff {ks : List SortKey} :
    Steady ks ↔ ∀ f, direction? ks.reverse f = direction? ks f := by
  constructor
  · intro h f
    by_cases hf : f ∈ ks.map field
    · obtain ⟨k, hk, rfl⟩ := List.mem_map.1 hf
      exact h k hk
    · rw [direction?_eq_none_iff.2 hf, direction?_eq_none_iff.2 (by simpa using hf)]
  · exact fun h k _ => h k.field

def lastDirections (ks : List SortKey) : List SortKey :=
  ks.map fun k => ⟨k.field, (direction? ks.reverse k.field).getD k.direction⟩

theorem direction?_lastDirections (ks : List SortKey) (f : Text) :
    direction? (lastDirections ks) f = direction? ks.reverse f := by
  have hmap : direction? (lastDirections ks) f =
      (ks.find? (·.field = f)).map fun k => (direction? ks.reverse k.field).getD k.direction := by
    rw [direction?, lastDirections, List.find?_map, Option.map_map]
    rfl
  rw [hmap]
  cases hfirst : ks.find? (·.field = f) with
  | none =>
    symm
    rw [Option.map_none, direction?_eq_none_iff]
    simpa using hfirst
  | some k =>
    have hk : k.field = f := by simpa using List.find?_some hfirst
    have hmem : f ∈ ks.reverse.map field := by
      simpa using ⟨k, List.mem_of_find?_eq_some hfirst, hk⟩
    obtain ⟨d, hd⟩ := exists_direction? hmem
    rw [Option.map_some, hk, hd, Option.getD_some]

/-- Keys order all records as those with the last directions do exactly if these are the first ones
too. -/
theorem compareBy_lastDirections_iff [Std.ReflCmp order] {x y : α} (hdiff : order x y ≠ .eq)
    (ks : List SortKey) :
    (∀ a b : Text → α, compareBy order (lastDirections ks) a b = compareBy order ks a b) ↔
      Steady ks := by
  constructor
  · intro h k hk
    have hone := h (fun _ => x) (fun g => if g = k.field then y else x)
    rw [compareBy_update hdiff, compareBy_update hdiff, direction?_lastDirections] at hone
    have hfield : k.field ∈ ks.map field := List.mem_map_of_mem hk
    obtain ⟨d, hd⟩ := exists_direction? hfield
    have hreversed : k.field ∈ ks.reverse.map field := by simpa using hfield
    obtain ⟨d', hd'⟩ := exists_direction? hreversed
    rw [hd, hd'] at hone ⊢
    exact congrArg some (Direction.apply_inj hdiff hone)
  · intro h a b
    refine compareBy_congr (fun p => ?_) fun f => ?_
    · rw [lastDirections, List.map_map]
      rfl
    · rw [direction?_lastDirections, steady_iff.1 h]

def put (k : SortKey) : List SortKey → List SortKey
  | [] => [k]
  | l :: ls => if l.field = k.field then k :: ls else l :: put k ls

theorem find?_put (k : SortKey) (ls : List SortKey) (p : Text → Bool) :
    ((put k ls).map field).find? p = (ls.map field ++ [k.field]).find? p := by
  induction ls with
  | nil => rfl
  | cons l ls ih =>
    rw [put]
    split
    · rename_i hl
      cases hp : p k.field <;> simp [hl, hp]
    · rw [List.map_cons, List.map_cons, List.cons_append, List.find?_cons, List.find?_cons, ih]

theorem direction?_put (k : SortKey) (ls : List SortKey) (f : Text) :
    direction? (put k ls) f = if k.field = f then some k.direction else direction? ls f := by
  induction ls with
  | nil => rw [put, direction?_cons]
  | cons l ls ih =>
    rw [put]
    split
    · rename_i hl
      rw [direction?_cons, direction?_cons, hl]
      split <;> rfl
    · rename_i hl
      rw [direction?_cons, ih, direction?_cons]
      by_cases hf : l.field = f
      · have hk : k.field ≠ f := fun hk => hl (hf.trans hk.symm)
        simp [hf, hk]
      · simp [hf]

theorem find?_foldl_put (ks ls : List SortKey) (p : Text → Bool) :
    ((ks.foldl (fun ls k => put k ls) ls).map field).find? p =
      (ls.map field ++ ks.map field).find? p := by
  induction ks generalizing ls with
  | nil => simp
  | cons k ks ih =>
    rw [List.foldl_cons, ih, List.find?_append, find?_put, ← List.find?_append, List.append_assoc]
    rfl

theorem direction?_foldl_put (ks ls : List SortKey) (f : Text) :
    direction? (ks.foldl (fun ls k => put k ls) ls) f =
      (direction? ks.reverse f).or (direction? ls f) := by
  induction ks generalizing ls with
  | nil => rfl
  | cons k ks ih =>
    rw [List.foldl_cons, ih, direction?_put, List.reverse_cons, direction?_append, direction?_cons,
      Option.or_assoc]
    by_cases hf : k.field = f
    · simp [hf]
    · simp [hf, direction?]

end SortKey

namespace Document

def sortEntry (k : SortKey) : Text × Json :=
  (k.field, .int (match k.direction with
    | .asc => 1
    | .desc => -1))

def sortKey? : Text × Json → Option SortKey
  | (f, .int n) => if n = 1 then some ⟨f, .asc⟩ else if n = -1 then some ⟨f, .desc⟩ else none
  | _ => none

def sortKeys? : Json → Option (List SortKey)
  | .object fields => fields.mapM sortKey?
  | _ => none

theorem sortKey?_sortEntry (k : SortKey) : sortKey? (sortEntry k) = some k := by
  obtain ⟨f, d⟩ := k
  cases d <;> rfl

theorem insert_sortEntry (k : SortKey) (ls : List SortKey) :
    Json.insert (sortEntry k).1 (sortEntry k).2 (ls.map sortEntry) = (k.put ls).map sortEntry := by
  induction ls with
  | nil => rfl
  | cons l ls ih =>
    have hinsert : Json.insert (sortEntry k).1 (sortEntry k).2 ((l :: ls).map sortEntry) =
        if l.field = k.field then (l.field, (sortEntry k).2) :: ls.map sortEntry
        else sortEntry l :: Json.insert (sortEntry k).1 (sortEntry k).2 (ls.map sortEntry) := rfl
    rw [hinsert, ih, SortKey.put]
    by_cases hl : l.field = k.field
    · rw [if_pos hl, if_pos hl, hl]
      rfl
    · rw [if_neg hl, if_neg hl, List.map_cons]

theorem sortKeys?_sort (ks : List SortKey) :
    sortKeys? (sort ks) = some (ks.foldl (fun ls k => k.put ls) []) := by
  have hfold (ls : List SortKey) :
      (ks.map sortEntry).foldl (fun fields e => Json.insert e.1 e.2 fields) (ls.map sortEntry) =
        (ks.foldl (fun ls k => k.put ls) ls).map sortEntry := by
    induction ks generalizing ls with
    | nil => rfl
    | cons k ks ih => rw [List.map_cons, List.foldl_cons, insert_sortEntry, ih, List.foldl_cons]
  have hsort : sort ks = .object ((ks.foldl (fun ls k => k.put ls) []).map sortEntry) :=
    congrArg Json.object (hfold [])
  have hread (ls : List SortKey) : (ls.map sortEntry).mapM sortKey? = some ls := by
    induction ls with
    | nil => rfl
    | cons l ls ih => simp [sortKey?_sortEntry, ih]
  rw [hsort, sortKeys?, hread]

def findOrder (query : Json) : Option (List SortKey) :=
  (query.get? "sort".toList).bind sortKeys?

/-- The sort keys of a pipeline; without a stage for them there are none. -/
def pipelineOrder (pipeline : Json) : Option (List SortKey) :=
  match (pipeline.array?.getD []).findSome? (Json.get? "$sort".toList) with
  | none => some []
  | some stage => sortKeys? stage

theorem findOrder_find (p : Plan) : findOrder (find p) = sortKeys? (sort p.request.sort) := rfl

theorem pipelineOrder_aggregate (collection : Text → Text) (p : Plan) :
    pipelineOrder (aggregate collection p) = sortKeys? (sort p.request.sort) := by
  have absent (key : String) := lookup_entryIf_of_ne key (k := "$sort".toList)
  have hmatch := lookup_match_of_ne (show "$sort".toList ≠ _ by decide)
  have hgroup := absent "$group" (by decide)
  have hskip := absent "$skip" (by decide)
  have hlimit := absent "$limit" (by decide)
  have hproject := absent "$project" (by decide)
  rw [pipelineOrder, findSome?_aggregate (by decide)]
  simp only [stages, List.lookup_append, hmatch, hgroup, hskip, hlimit, hproject, lookup_entryIf,
    Option.none_or, Option.or_none]
  by_cases hnone : p.request.sort = []
  · rw [hnone]
    rfl
  · simp [hnone]

open SortKey in
theorem compareBy_sortKeys {α : Type} {order : α → α → Ordering} {ks ls : List SortKey}
    (h : sortKeys? (sort ks) = some ls) (a b : Text → α) :
    compareBy order ls a b = compareBy order (lastDirections ks) a b := by
  rw [sortKeys?_sort] at h
  cases h
  refine compareBy_congr (fun p => ?_) fun f => ?_
  · rw [find?_foldl_put, List.map_nil, List.nil_append, lastDirections, List.map_map]
    rfl
  · rw [direction?_foldl_put, direction?_lastDirections]
    exact Option.or_none

end Document

end FilterQuery
