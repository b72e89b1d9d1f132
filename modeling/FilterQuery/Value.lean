import FilterQuery.Text.Quoted
import FilterQuery.Number.Shortest
import FilterQuery.Time.Timestamp
set_option autoImplicit false

/-!
The values a comparison names, and how filter text writes them.
-/

namespace FilterQuery

inductive Value where
  | int (n : Int64)
  | float (x : Binary64)
  | bool (b : Bool)
  | text (t : Text)
  | time (t : Timestamp)
  | null
  | list (vs : List Value)

/-- A float keeps a fraction or an exponent, so that it reads back as a float. -/
def Value.floatLayout : FloatLayout :=
  ⟨-4, 15, true, false, .up, "NaN".toList, "inf".toList⟩

def boolText (b : Bool) : Text := if b then "true".toList else "false".toList

mutual

def Value.write : Value → Text
  | .int n => Text.ofInt n.toInt
  | .float x => x.write Value.floatLayout
  | .bool b => boolText b
  | .text t => Quoted.write t
  | .time t => Quoted.write t.write
  | .null => "null".toList
  | .list vs => '[' :: Text.join [','] (Value.writeEach vs) ++ [']']

def Value.writeEach : List Value → List Text
  | [] => []
  | v :: vs => v.write :: Value.writeEach vs

end

mutual

/-- Equality of values, numerical on floats. -/
def Value.same : Value → Value → Bool
  | .int m, .int n => m == n
  | .float x, .float y => x.same y
  | .bool a, .bool b => a == b
  | .text t, .text u => t == u
  | .time t, .time u => t == u
  | .null, .null => true
  | .list vs, .list ws => Value.sameEach vs ws
  | _, _ => false

def Value.sameEach : List Value → List Value → Bool
  | [], [] => true
  | v :: vs, w :: ws => v.same w && Value.sameEach vs ws
  | _, _ => false

end

theorem Value.writeEach_eq_map (vs : List Value) : Value.writeEach vs = vs.map Value.write := by
  induction vs with
  | nil => rfl
  | cons v vs ih => simp [Value.writeEach, ih]

def Value.isNull : Value → Bool
  | .null => true
  | _ => false

def Value.text? : Value → Option Text
  | .text t => some t
  | _ => none

end FilterQuery
