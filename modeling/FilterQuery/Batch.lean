import FilterQuery.Text
set_option autoImplicit false

/-!
Running many independent units with a limit on how many run at once and on how long each may take.
Units finish in any order; their results are gathered by index.
-/

namespace FilterQuery

/-- What becomes of the unit with an index that has no value. Times are milliseconds. -/
inductive BatchFailure (ε : Type) where
  | timedOut (index : Nat) (limit : Nat)
  | failed (index : Nat) (error : ε)
  | aborted (index : Nat)
  deriving DecidableEq, Repr

/-- What a unit does when its time is up. -/
inductive UnitOutcome (ε α : Type) where
  | value (a : α)
  | failure (e : ε)
  | panic

structure BatchUnit (ε α : Type) where
  duration : Nat
  outcome : UnitOutcome ε α

structure Executor where
  maxConcurrency : Nat
  timeout : Nat
  deriving DecidableEq, Repr

namespace Executor

def ofLimits (maxConcurrency timeout : Nat) : Executor := ⟨max maxConcurrency 1, timeout⟩

def default : Executor := ofLimits 8 5000

def result {ε α : Type} (x : Executor) (index : Nat) (u : BatchUnit ε α) :
    Except (BatchFailure ε) α :=
  if x.timeout < u.duration then .error (.timedOut index x.timeout)
  else
    match u.outcome with
    | .value a => .ok a
    | .failure e => .error (.failed index e)
    | .panic => .error (.aborted index)

end Executor

namespace Batch

/-- The results of `count` units from those that arrived; one that did not was aborted. -/
def gather {ε α : Type} (count : Nat) (arrived : List (Nat × Except (BatchFailure ε) α)) :
    List (Except (BatchFailure ε) α) :=
  (List.range count).map fun i => (arrived.lookup i).getD (.error (.aborted i))

def fraction (places n : Nat) : Text :=
  let digits := ((Text.padded places n).reverse.dropWhile (· = '0')).reverse
  if digits = [] then [] else '.' :: digits

/-- A time in seconds, or in milliseconds if it is shorter than a second. -/
def writeTime (milliseconds : Nat) : Text :=
  if milliseconds = 0 then "0ns".toList
  else if milliseconds < 1000 then Text.ofNat milliseconds ++ "ms".toList
  else Text.ofNat (milliseconds / 1000) ++ fraction 3 (milliseconds % 1000) ++ ['s']

end Batch

def BatchFailure.message {ε : Type} (write : ε → Text) : BatchFailure ε → Text
  | timedOut index limit =>
    "unit ".toList ++ Text.ofNat index ++ " timed out after ".toList ++ Batch.writeTime limit
  | failed index e => "unit ".toList ++ Text.ofNat index ++ " failed: ".toList ++ write e
  | aborted index => "unit ".toList ++ Text.ofNat index ++ " was aborted".toList

end FilterQuery
