import FilterQuery.Proofs.Node
import FilterQuery.Proofs.Test
set_option autoImplicit false

/-!
What is read is well typed. A scalar has a literal, but for an instant of a year that does not
have four digits, whose text is read as text; a pattern can be matched; and an expression is put
together from comparisons by negations and by junctions of two operands.
-/

namespace FilterQuery

/-- A value that is no instant, or one whose year has four digits. -/
def Value.Dated : Value → Prop
  | .time t => t.InYears
  | _ => True

def Test.Dated : Test → Prop
  | .compare _ v => v.Dated
  | .member _ vs => ∀ v ∈ vs, v.Dated
  | .between low high => low.Dated ∧ high.Dated
  | .pattern _ _ | .null _ => True

instance : (v : Value) → Decidable v.Dated
  | .time t => inferInstanceAs (Decidable t.InYears)
  | .int _ | .float _ | .bool _ | .text _ | .null | .list _ => isTrue trivial

instance : (t : Test) → Decidable t.Dated
  | .compare _ v => inferInstanceAs (Decidable v.Dated)
  | .member _ vs => inferInstanceAs (Decidable (∀ v ∈ vs, v.Dated))
  | .between low high => inferInstanceAs (Decidable (low.Dated ∧ high.Dated))
  | .pattern _ _ | .null _ => isTrue trivial

def Value.reread : Value → Value
  | .time t => if t.InYears then .time t else .text t.write
  | v => v

def Test.reread : Test → Test
  | .compare c v => .compare c v.reread
  | .member n vs => .member n (vs.map Value.reread)
  | .between low high => .between low.reread high.reread
  | t => t

namespace Value

theorem reread_eq_iff {v : Value} : v.reread = v ↔ v.Dated := by
  cases v with
  | time t =>
    rw [reread]
    split
    · rename_i h
      exact ⟨fun _ => h, fun _ => rfl⟩
    · rename_i h
      exact ⟨fun heq => (by cases heq), fun hdated => absurd hdated h⟩
  | _ => exact ⟨fun _ => trivial, fun _ => rfl⟩

theorem map_reread_eq_iff {vs : List Value} : vs.map reread = vs ↔ ∀ v ∈ vs, v.Dated := by
  induction vs with
  | nil => simp
  | cons v vs ih => simp [ih, reread_eq_iff]

end Value

namespace Test

theorem reread_eq_iff {t : Test} : t.reread = t ↔ t.Dated := by
  cases t with
  | compare c v => simp [reread, Dated, Value.reread_eq_iff]
  | member n vs => simp [reread, Dated, Value.map_reread_eq_iff]
  | between low high => simp [reread, Dated, Value.reread_eq_iff]
  | _ => exact ⟨fun _ => trivial, fun _ => rfl⟩

end Test

namespace Literal

theorem writable_textValue (t : Text) : (textValue t).reread.Writable := by
  unfold textValue
  cases hread : Timestamp.read t with
  | none => exact hread
  | some i =>
    simp only [Value.reread]
    split
    · rename_i hyears
      exact ⟨hyears, Timestamp.onClock_of_read hread⟩
    · rename_i hyears
      exact Timestamp.read_write_of_not_inYears hyears

theorem writable_bareNumber {t : Text} {v : Value} (h : bareNumber? t = some v) :
    v.reread.Writable := by
  unfold bareNumber? at h
  split at h
  · cases h
    trivial
  · split at h
    · split at h
      · rename_i hfinite
        cases h
        exact hfinite
      · cases h
    · cases h

theorem writable_value (l : Literal) : l.value.reread.Writable := by
  cases l with
  | quoted t => exact writable_textValue t
  | bare t =>
    simp only [value, bareValue]
    split
    · trivial
    · split
      · trivial
      · split
        · trivial
        · cases hnumber : bareNumber? t with
          | some v => exact writable_bareNumber hnumber
          | none => exact writable_textValue t

theorem writable_scalar {t : Text} {v : Value} (h : scalar? t = some v) : v.reread.Writable := by
  obtain ⟨l, -, rfl⟩ := Option.map_eq_some_iff.1 h
  exact writable_value l

theorem writable_set {t : Text} {vs : List Value} (h : set? t = some vs) :
    ∀ v ∈ vs, v.reread.Writable := by
  unfold set? at h
  split at h
  · cases h
  · obtain ⟨ls, -, rfl⟩ := Option.map_eq_some_iff.1 h
    intro v hv
    obtain ⟨l, -, rfl⟩ := List.mem_map.1 hv
    exact writable_value l

theorem writable_range {t : Text} {low high : Value} (h : range? t = some (low, high)) :
    low.reread.Writable ∧ high.reread.Writable := by
  simp only [range?, Option.bind_eq_bind, Option.bind_eq_some_iff] at h
  obtain ⟨_, -, _, hlow, _, hhigh, h⟩ := h
  cases h
  exact ⟨writable_scalar hlow, writable_scalar hhigh⟩

end Literal

section

variable [Regex.Engine]

namespace Expr

structure Typed (e : Expr) : Prop where
  binary : e.isBinary = true
  tests : ∀ p ∈ e.leaves, p.2.reread.Writable

theorem Typed.leaf {f : Text} {t : Test} (h : t.reread.Writable) : Typed (.leaf f t) :=
  ⟨rfl, by simpa [leaves] using h⟩

theorem Typed.not {e : Expr} (h : e.Typed) : Typed (.not e) :=
  ⟨by rw [isBinary]; exact h.binary, by rw [leaves]; exact h.tests⟩

theorem Typed.junction (j : Junction) {l r : Expr} (hl : l.Typed) (hr : r.Typed) :
    Typed (.junction j [l, r]) := by
  constructor
  · simp [isBinary, isBinaryEach, hl.binary, hr.binary]
  · rw [leaves, leavesEach_eq_flatMap]
    intro p hp
    simp only [List.flatMap_cons, List.flatMap_nil, List.append_nil, List.mem_append] at hp
    exact hp.elim (hl.tests p) (hr.tests p)

end Expr

namespace Condition

theorem typed_build {o : Operator} {f operand : Text} {e : Expr}
    (h : build o f operand = some e) : e.Typed := by
  unfold build at h
  split at h
  · cases h
    exact .leaf trivial
  · obtain ⟨p, hp, rfl⟩ := Option.map_eq_some_iff.1 h
    exact .leaf (Option.filter_eq_some_iff.1 hp).2
  · rename_i k hk
    obtain ⟨p, hp, rfl⟩ := Option.map_eq_some_iff.1 h
    refine .leaf ?_
    cases k with
    | regex => exact absurd rfl hk
    | _ => trivial
  · obtain ⟨p, hp, rfl⟩ := Option.map_eq_some_iff.1 h
    exact .not (.leaf trivial)
  · obtain ⟨p, hp, rfl⟩ := Option.map_eq_some_iff.1 h
    exact .not (.leaf (Option.filter_eq_some_iff.1 hp).2)
  · obtain ⟨vs, hvs, rfl⟩ := Option.map_eq_some_iff.1 h
    refine .leaf fun v hv => ?_
    obtain ⟨w, hw, rfl⟩ := List.mem_map.1 hv
    exact Literal.writable_set hvs w hw
  · obtain ⟨⟨low, high⟩, hrange, rfl⟩ := Option.map_eq_some_iff.1 h
    exact .leaf (Literal.writable_range hrange)
  · obtain ⟨v, hv, rfl⟩ := Option.map_eq_some_iff.1 h
    exact .leaf (Literal.writable_scalar hv)

theorem typed_readAt {o : Operator} {before after rest left : Text} {e : Expr}
    (h : readAt o before after rest = (some e, left)) : e.Typed := by
  unfold readAt at h
  split at h
  · cases h
  · split at h
    · exact typed_build (congrArg Prod.fst h)
    · split at h
      · exact typed_build (congrArg Prod.fst h)
      · split at h
        · cases h
        · exact typed_build (congrArg Prod.fst h)

theorem typed_read {token rest left : Text} {e : Expr}
    (h : read token rest = (some e, left)) : e.Typed := by
  unfold read at h
  split at h
  · exact typed_readAt h
  · split at h
    · cases h
    · split at h
      · exact typed_readAt h
      · cases h

end Condition

end

structure Compositional (P : Expr → Prop) : Prop where
  not : ∀ {e : Expr}, P e → P (.not e)
  junction : ∀ (j : Junction) {l r : Expr}, P l → P r → P (.junction j [l, r])

theorem Expr.compositional_typed [Regex.Engine] : Compositional Expr.Typed := ⟨.not, .junction⟩

section

variable {P : Expr → Prop}

namespace Item

def Has (P : Expr → Prop) : Item → Prop
  | .operand e => P e
  | .word _ => True

theorem has_applyNot (hP : Compositional P) {items : List Item} (h : ∀ i ∈ items, i.Has P) :
    ∀ i ∈ applyNot items, i.Has P := by
  fun_induction applyNot items with
  | case1 => exact h
  | case2 items e rest heq ih =>
    have hrest := ih fun i hi => h i (List.mem_cons_of_mem _ hi)
    rw [heq, List.forall_mem_cons] at hrest
    exact List.forall_mem_cons.2 ⟨hP.not hrest.1, hrest.2⟩
  | case3 items heq ih => exact ih fun i hi => h i (List.mem_cons_of_mem _ hi)
  | case4 item items hitem ih =>
    rw [List.forall_mem_cons] at h
    exact List.forall_mem_cons.2 ⟨h.1, ih h.2⟩

theorem has_links {items : List Item} (h : ∀ i ∈ items, i.Has P) (pending : Option Junction) :
    ∀ p ∈ links pending items, P p.2 := by
  fun_induction links pending items with
  | case1 => simp
  | case2 pending e items ih =>
    rw [List.forall_mem_cons] at h
    exact List.forall_mem_cons.2 ⟨h.1, ih h.2⟩
  | case3 pending j items ih => exact ih fun i hi => h i (List.mem_cons_of_mem _ hi)
  | case4 pending items ih => exact ih fun i hi => h i (List.mem_cons_of_mem _ hi)

theorem has_runs (hP : Compositional P) {current : Expr} (hc : P current)
    {ps : List (Junction × Expr)} (h : ∀ p ∈ ps, P p.2) : ∀ e ∈ runs current ps, P e := by
  fun_induction runs current ps with
  | case1 => simpa using hc
  | case2 current e rest ih =>
    rw [List.forall_mem_cons] at h
    exact ih (hP.junction .and hc h.1) h.2
  | case3 current e rest ih =>
    rw [List.forall_mem_cons] at h
    exact List.forall_mem_cons.2 ⟨hc, ih h.1 h.2⟩

theorem has_joinOr (hP : Compositional P) {es : List Expr} (h : ∀ e ∈ es, P e) {a : Expr}
    (ha : joinOr es = some a) : P a := by
  cases es with
  | nil => cases ha
  | cons e es =>
    cases ha
    rw [List.forall_mem_cons] at h
    obtain ⟨he, hes⟩ := h
    induction es generalizing e with
    | nil => exact he
    | cons f es ih =>
      rw [List.forall_mem_cons] at hes
      exact ih _ (hP.junction .or he hes.1) hes.2

theorem has_assemble (hP : Compositional P) {items : List Item} (h : ∀ i ∈ items, i.Has P)
    {e : Expr} (he : assemble items = some e) : P e := by
  have hlinks := has_links (has_applyNot hP h) none
  unfold assemble at he
  split at he
  · cases he
  · rename_i heq
    rw [heq, List.forall_mem_cons] at hlinks
    exact has_joinOr hP (has_runs hP hlinks.1 hlinks.2) he

end Item

namespace Node

mutual

def Has (P : Expr → Prop) : Node → Prop
  | .leaf e => P e
  | .word _ => True
  | .group nodes => HasEach P nodes

def HasEach (P : Expr → Prop) : List Node → Prop
  | [] => True
  | n :: nodes => n.Has P ∧ HasEach P nodes

end

theorem hasEach_append (ms ns : List Node) :
    HasEach P (ms ++ ns) ↔ HasEach P ms ∧ HasEach P ns := by
  induction ms with
  | nil => simp [HasEach]
  | cons m ms ih => simp [HasEach, ih, and_assoc]

mutual

theorem has_item? (hP : Compositional P) : ∀ {n : Node}, n.Has P → ∀ {i : Item},
    item? n = some i → i.Has P
  | .leaf e, h, i, hi => by
    cases hi
    exact h
  | .word k, _, i, hi => by
    cases hi
    trivial
  | .group nodes, h, i, hi => by
    rw [item?] at hi
    obtain ⟨e, he, rfl⟩ := Option.map_eq_some_iff.1 hi
    exact Item.has_assemble hP (has_items hP h) he

theorem has_items (hP : Compositional P) : ∀ {nodes : List Node}, HasEach P nodes →
    ∀ i ∈ items nodes, i.Has P
  | [], _ => by simp [items]
  | n :: nodes, ⟨hn, hnodes⟩ => by
    rw [items]
    cases hi : item? n with
    | none => exact has_items hP hnodes
    | some i => exact List.forall_mem_cons.2 ⟨has_item? hP hn hi, has_items hP hnodes⟩

end

theorem has_assemble (hP : Compositional P) {nodes : List Node} (h : HasEach P nodes) {e : Expr}
    (he : assemble nodes = some e) : P e :=
  Item.has_assemble hP (has_items hP h) he

end Node

end

end FilterQuery
