import Mathlib.Data.Set.Function
import FilterQuery.Document.Filter
import FilterQuery.Proofs.Time.Timestamp
set_option autoImplicit false

/-!
What filters mean. A record says of each field which basic comparisons hold for it; expressions are
true or false of a record of values, filters of a document store are true or false of a record of
JSON values by the rules of the store, and an expression and its filter agree.
-/

namespace FilterQuery

inductive Relation where
  | compare (c : Comparison)
  | member (negated : Bool)
  | regex (insensitive : Bool)

abbrev Record (α : Type) := Text → Relation → α → Bool

namespace Value

mutual

/-- A value that JSON can tell from all others, which a float that is not finite is not. -/
def IsExact : Value → Prop
  | .float x => x.isFinite = true
  | .time t => t.OnClock
  | .list vs => IsExactEach vs
  | _ => True

def IsExactEach : List Value → Prop
  | [] => True
  | v :: vs => v.IsExact ∧ IsExactEach vs

end

end Value

/-- A pattern with wildcards is a regex for what it matches, a range lies between its ends, and a
null test compares with null. -/
def Test.holds (r : Relation → Value → Bool) : Test → Bool
  | .compare c v => r (.compare c) v
  | .pattern .like p => r (.regex false) (.text (Document.wildcardRegex p))
  | .pattern .ilike p => r (.regex true) (.text (Document.wildcardRegex p))
  | .pattern .regex p => r (.regex false) (.text p)
  | .member n vs => r (.member n) (.list vs)
  | .between low high => r (.compare .gte) low && r (.compare .lte) high
  | .null n => r (.compare (if n then .neq else .eq)) .null

def Test.operands : Test → List Value
  | .compare _ v => [v]
  | .pattern _ _ => []
  | .member _ vs => [.list vs]
  | .between low high => [low, high]
  | .null _ => []

theorem Test.holds_congr {r r' : Relation → Value → Bool} (h : ∀ o v, v.IsExact → r o v = r' o v)
    {t : Test} (ht : ∀ v ∈ t.operands, v.IsExact) : t.holds r = t.holds r' := by
  cases t with
  | compare c v => exact h _ v (ht v (List.mem_singleton_self v))
  | pattern k p => cases k <;> exact h _ _ trivial
  | member n vs => exact h _ _ (ht _ (List.mem_singleton_self _))
  | between low high =>
    obtain ⟨hlow, hhigh⟩ := List.forall_mem_cons.1 ht
    exact congrArg₂ and (h _ low hlow) (h _ high (hhigh high (List.mem_singleton_self high)))
  | null n => exact h _ .null trivial

def Junction.holds : Junction → List Bool → Bool
  | .and, bs => bs.all id
  | .or, bs => bs.any id

namespace Expr

mutual

/-- The truth of an expression. -/
def holds (r : Record Value) : Expr → Bool
  | .leaf f t => t.holds (r f)
  | .junction j es => j.holds (holdsEach r es)
  | .not e => !holds r e

def holdsEach (r : Record Value) : List Expr → List Bool
  | [] => []
  | e :: es => holds r e :: holdsEach r es

end

theorem holdsEach_eq_map (r : Record Value) (es : List Expr) : holdsEach r es = es.map (holds r) := by
  induction es with
  | nil => rfl
  | cons e es ih => rw [holdsEach, ih, List.map_cons]

def IsExact (e : Expr) : Prop := ∀ l ∈ e.leaves, ∀ v ∈ l.2.operands, v.IsExact

mutual

theorem holds_congr {r r' : Record Value} (h : ∀ f o v, v.IsExact → r f o v = r' f o v) :
    ∀ {e : Expr}, e.IsExact → e.holds r = e.holds r'
  | .leaf f _, he => Test.holds_congr (h f) (he _ (List.mem_singleton_self _))
  | .junction j _, he => congrArg j.holds (holdsEach_congr h he)
  | .not _, he => congrArg Bool.not (holds_congr h he)

theorem holdsEach_congr {r r' : Record Value} (h : ∀ f o v, v.IsExact → r f o v = r' f o v) :
    ∀ {es : List Expr}, (∀ l ∈ leavesEach es, ∀ v ∈ l.2.operands, v.IsExact) →
      holdsEach r es = holdsEach r' es
  | [], _ => rfl
  | _ :: _, hes => by
    obtain ⟨he, hes⟩ := List.forall_mem_append.1 hes
    exact congrArg₂ List.cons (holds_congr h he) (holdsEach_congr h hes)

end

end Expr

namespace Document

def relation? (insensitive : Bool) (key : Text) : Option Relation :=
  [("$eq".toList, .compare .eq), ("$ne".toList, .compare .neq), ("$gt".toList, .compare .gt),
    ("$gte".toList, .compare .gte), ("$lt".toList, .compare .lt), ("$lte".toList, .compare .lte),
    ("$in".toList, .member false), ("$nin".toList, .member true),
    ("$regex".toList, Relation.regex insensitive)].lookup key

def connective? (key : Text) : Option (List Bool → Bool) :=
  [("$and".toList, fun bs => bs.all id), ("$or".toList, fun bs => bs.any id),
    ("$nor".toList, fun bs : List Bool => !bs.any id)].lookup key

def optionsKey : Text := "$options".toList

def insensitive? (operators : List (Text × Json)) : Option Bool :=
  match operators.lookup optionsKey with
  | none => some false
  | some (.text ['i']) => some true
  | some _ => none

/-- All operators of a field have to hold; the options only belong to one. -/
def holdsOperators (s : Relation → Json → Bool) (operators : List (Text × Json)) : Option Bool := do
  let insensitive ← insensitive? operators
  let bs ← operators.mapM fun (key, x) =>
    if key = optionsKey then some true else (relation? insensitive key).map fun o => s o x
  pure (bs.all id)

mutual

/-- The truth of a filter by the rules of the store; none if the filter is not of its form. -/
def holds (s : Record Json) : Json → Option Bool
  | .object entries => (holdsEntries s entries).map (·.all id)
  | _ => none

def holdsEntries (s : Record Json) : List (Text × Json) → Option (List Bool)
  | [] => some []
  | (key, x) :: entries => do
    let b ← holdsEntry s key x
    let bs ← holdsEntries s entries
    pure (b :: bs)

def holdsEntry (s : Record Json) (key : Text) : Json → Option Bool
  | .array xs => do
    let connective ← connective? key
    let bs ← holdsEach s xs
    pure (connective bs)
  | .object operators => if key.head? = some '$' then none else holdsOperators (s key) operators
  | _ => none

def holdsEach (s : Record Json) : List Json → Option (List Bool)
  | [] => some []
  | x :: xs => do
    let b ← holds s x
    let bs ← holdsEach s xs
    pure (b :: bs)

end

def valued (s : Record Json) : Record Value := fun f o v => s f o (ofValue v)

theorem ofValueEach_eq_map (vs : List Value) : ofValueEach vs = vs.map ofValue := by
  induction vs with
  | nil => rfl
  | cons v vs ih => rw [ofValueEach, ih, List.map_cons]

theorem holdsEntry_single (s : Record Json) {f key : Text} (hf : f.head? ≠ some '$') {o : Relation}
    (x : Json) (hkey : key ≠ optionsKey) (ho : relation? false key = some o) :
    holdsEntry s f (.single key x) = some (s f o x) := by
  have hoptions : (optionsKey == key) = false := beq_eq_false_iff_ne.2 hkey.symm
  have hinsensitive : insensitive? [(key, x)] = some false := by
    rw [insensitive?, List.lookup_cons, hoptions]
    rfl
  rw [Json.single, holdsEntry, if_neg hf, holdsOperators, hinsensitive]
  simp [hkey, ho]

theorem holdsEntry_ofTest (s : Record Json) {f : Text} (hf : f.head? ≠ some '$') (t : Test) :
    holdsEntry s f (ofTest t) = some (t.holds (valued s f)) := by
  cases t with
  | compare c v =>
    cases c <;> exact holdsEntry_single s hf (ofValue v) (by decide) rfl
  | pattern k p =>
    cases k with
    | ilike =>
      -- two entries but one operator, as the options only say how it matches
      rw [ofTest, holdsEntry, if_neg hf]
      exact congrArg some (Bool.and_true _)
    | like | regex => exact holdsEntry_single s hf _ (by decide) rfl
  | member n vs =>
    rw [ofTest, ← ofValueEach_eq_map]
    cases n <;> exact holdsEntry_single s hf _ (by decide) rfl
  | between low high =>
    rw [ofTest, holdsEntry, if_neg hf]
    exact congrArg (fun b => some (s f (.compare .gte) (ofValue low) && b)) (Bool.and_true _)
  | null n => cases n <;> exact holdsEntry_single s hf .null (by decide) rfl

theorem connective?_junctionKey (j : Junction) : connective? (junctionKey j) = some j.holds := by
  cases j <;> rfl

theorem holds_single (s : Record Json) (key : Text) (x : Json) :
    holds s (.single key x) = holdsEntry s key x := by
  rw [Json.single, holds, holdsEntries, holdsEntries]
  cases holdsEntry s key x with
  | none => rfl
  | some b => exact congrArg some (Bool.and_true b)

mutual

theorem holds_ofExpr (s : Record Json) : ∀ e : Expr, (∀ l ∈ e.leaves, l.1.head? ≠ some '$') →
    holds s (ofExpr e) = some (e.holds (valued s))
  | .leaf f t, h => by
    rw [ofExpr, holds_single, holdsEntry_ofTest s (h _ (List.mem_singleton_self _)), Expr.holds]
  | .junction j es, h => by
    rw [ofExpr, holds_single, holdsEntry, connective?_junctionKey, holdsEach_ofExprEach s es h,
      Expr.holds]
    rfl
  | .not e, h => by
    rw [ofExpr, holds_single, holdsEntry, holdsEach, holdsEach, holds_ofExpr s e h, Expr.holds]
    exact congrArg (fun b => some !b) (Bool.or_false _)

theorem holdsEach_ofExprEach (s : Record Json) : ∀ es : List Expr,
    (∀ l ∈ Expr.leavesEach es, l.1.head? ≠ some '$') →
      holdsEach s (ofExprEach es) = some (Expr.holdsEach (valued s) es)
  | [], _ => rfl
  | e :: es, h => by
    obtain ⟨he, hes⟩ := List.forall_mem_append.1 h
    rw [ofExprEach, holdsEach, holds_ofExpr s e he, holdsEach_ofExprEach s es hes, Expr.holdsEach]
    rfl

end

mutual

theorem eq_of_ofValue_eq : ∀ {v w : Value}, v.IsExact → w.IsExact → ofValue v = ofValue w → v = w
  | v, w, hv, hw, h => by
    cases v <;> cases w
    case int.int => exact congrArg Value.int (Int64.toInt_inj.1 (Json.int.inj h))
    case list.list => exact congrArg Value.list (eq_of_ofValueEach_eq hv hw (Json.array.inj h))
    case time.time t u =>
      obtain ⟨⟨-, htext⟩, -⟩ : (True ∧ _) ∧ True := by simpa [ofValue, Json.single] using h
      rw [Timestamp.write_injective hv hw htext]
    -- The values of two kinds never meet, as a float that is not finite is no exact value.
    all_goals simp_all [ofValue, Value.IsExact, Json.single]

theorem eq_of_ofValueEach_eq : ∀ {vs ws : List Value}, Value.IsExactEach vs →
    Value.IsExactEach ws → ofValueEach vs = ofValueEach ws → vs = ws
  | [], [], _, _, _ => rfl
  | [], _ :: _, _, _, h => nomatch h
  | _ :: _, [], _, _, h => nomatch h
  | _ :: _, _ :: _, hv, hw, h => by
    obtain ⟨hhead, htail⟩ := List.cons.inj h
    rw [eq_of_ofValue_eq hv.1 hw.1 hhead, eq_of_ofValueEach_eq hv.2 hw.2 htail]

end

def Reads (s : Record Json) (r : Record Value) : Prop :=
  ∀ f o v, v.IsExact → s f o (ofValue v) = r f o v

theorem exists_reads (r : Record Value) : ∃ s, Reads s r := by
  have hinj : Set.InjOn ofValue {v | v.IsExact} := fun v hv w hw h => eq_of_ofValue_eq hv hw h
  have : Nonempty Value := ⟨.null⟩
  -- A JSON value stands for the exact value that is written as it.
  refine ⟨fun f o x => r f o (Function.invFunOn ofValue {v | v.IsExact} x), fun f o v hv => ?_⟩
  exact congrArg (r f o) (hinj.leftInvOn_invFunOn hv)

/-- Values that are written alike, such as null and the floats that are not finite, compare alike. -/
def ComparesAsWritten (r : Record Value) : Prop :=
  ∀ f o v w, ofValue v = ofValue w → r f o v = r f o w

theorem exists_valued_eq {r : Record Value} (h : ComparesAsWritten r) : ∃ s, valued s = r := by
  have : Nonempty Value := ⟨.null⟩
  refine ⟨fun f o x => r f o (Function.invFun ofValue x), ?_⟩
  funext f o v
  exact h f o _ _ (Function.invFun_eq ⟨v, rfl⟩)

/-- A filter means what its expression means. A record that compares values as they are written is
one of JSON values, of which the filter is as true as the expression; and if JSON tells the operands
of the expression apart, that is so whatever the record says of other values. -/
theorem meaning_ofExpr (e : Expr) (hfields : ∀ f ∈ e.fields, f.head? ≠ some '$') (r : Record Value) :
    (ComparesAsWritten r → (∃ s, valued s = r) ∧
      ∀ s, valued s = r → holds s (ofExpr e) = some (e.holds r)) ∧
    (e.IsExact → (∃ s, Reads s r) ∧ ∀ s, Reads s r → holds s (ofExpr e) = some (e.holds r)) := by
  have hleaves : ∀ l ∈ e.leaves, l.1.head? ≠ some '$' :=
    fun l hl => hfields l.1 (List.mem_map_of_mem hl)
  refine ⟨fun hr => ⟨exists_valued_eq hr, fun s hs => ?_⟩,
    fun he => ⟨exists_reads r, fun s hs => ?_⟩⟩
  · rw [holds_ofExpr s e hleaves, hs]
  · rw [holds_ofExpr s e hleaves, Expr.holds_congr (r := valued s) hs he]

/-- Infinity is written as null is. -/
theorem meaning_infinite :
    let e : Expr := .leaf ['x'] (.compare .eq (.float (.infinite false)))
    let r : Record Value := fun _ _ v => !v.same .null
    (∀ f ∈ e.fields, f.head? ≠ some '$') ∧ e.holds r = true ∧ (∃ s, Reads s r) ∧
      ∀ s, Reads s r → holds s (ofExpr e) = some false := by
  intro e r
  refine ⟨by decide, by decide, exists_reads r, fun s hs => ?_⟩
  have hnull : s ['x'] (.compare .eq) .null = false := hs ['x'] (.compare .eq) .null trivial
  exact (holds_ofExpr s e (by decide)).trans (congrArg some hnull)

/-- The record of someone who is five years old and whose name does not match. -/
theorem meaning_negated_range :
    let e : Expr := .not (.junction .or [.leaf "age".toList (.between (.int 1) (.int 9)),
      .leaf "name".toList (.pattern .ilike "a%".toList)])
    let five : Record Json := fun f o x =>
      match o, x with
      | .compare .gte, .int n => f = "age".toList && n ≤ 5
      | .compare .lte, .int n => f = "age".toList && 5 ≤ n
      | _, _ => false
    (∀ f ∈ e.fields, f.head? ≠ some '$') ∧ ComparesAsWritten (valued five) ∧ e.IsExact ∧
      e.holds (valued five) = false ∧ holds five (ofExpr e) = some false ∧
      ∀ s, Reads s (valued five) → holds s (ofExpr e) = some false := by
  intro e five
  have hfields : ∀ f ∈ e.fields, f.head? ≠ some '$' := by decide
  have hwritten : ComparesAsWritten (valued five) := fun f o _ _ h => congrArg (five f o) h
  have hexact : e.IsExact := by
    simp [e, Expr.IsExact, Expr.leaves, Expr.leavesEach, Test.operands, Value.IsExact]
  obtain ⟨hvalued, hreads⟩ := meaning_ofExpr e hfields (valued five)
  exact ⟨hfields, hwritten, hexact, by decide, (hvalued hwritten).2 five rfl, (hreads hexact).2⟩

end Document

end FilterQuery
