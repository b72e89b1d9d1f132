import FilterQuery.Text
import FilterQuery.Number.Shortest
set_option autoImplicit false

/-!
JSON values whose objects keep the order of their keys, and their compact and indented texts.
-/

namespace FilterQuery

inductive Json where
  | null
  | bool (b : Bool)
  | int (n : Int)
  | float (x : Binary64)
  | text (t : Text)
  | array (xs : List Json)
  | object (fields : List (Text × Json))

namespace Json

def floatLayout : FloatLayout := ⟨-5, 15, true, true, .even, "null".toList, "null".toList⟩

def writeFloat (x : Binary64) : Text :=
  if x.isFinite then x.write floatLayout else "null".toList

def hexDigit (n : Nat) : Char := if n < 10 then Char.ofNat (48 + n) else Char.ofNat (87 + n)

def writeChar (c : Char) : Text :=
  if c = '"' ∨ c = '\\' then ['\\', c]
  else if c = '\x08' then ['\\', 'b']
  else if c = '\x0c' then ['\\', 'f']
  else if c = '\n' then ['\\', 'n']
  else if c = '\r' then ['\\', 'r']
  else if c = '\t' then ['\\', 't']
  else if c.toNat < 32 then
    ['\\', 'u', '0', '0', hexDigit (c.toNat / 16), hexDigit (c.toNat % 16)]
  else [c]

def writeText (t : Text) : Text := '"' :: t.flatMap writeChar ++ ['"']

mutual

def write : Json → Text
  | null => "null".toList
  | bool b => if b then "true".toList else "false".toList
  | int n => Text.ofInt n
  | float x => writeFloat x
  | text t => writeText t
  | array xs => '[' :: Text.join [','] (writeEach xs) ++ [']']
  | object fields => '\x7b' :: Text.join [','] (writeFields fields) ++ ['\x7d']

def writeEach : List Json → List Text
  | [] => []
  | x :: xs => write x :: writeEach xs

def writeFields : List (Text × Json) → List Text
  | [] => []
  | (k, x) :: fields => (writeText k ++ ':' :: write x) :: writeFields fields

end

def block (depth : Nat) (opening closing : Char) (pieces : List Text) : Text :=
  let line := fun n => '\n' :: List.replicate (2 * n) ' '
  if pieces.isEmpty then [opening, closing]
  else
    opening :: Text.join [','] (pieces.map fun p => line (depth + 1) ++ p) ++ line depth ++ [closing]

mutual

def writeIndented (depth : Nat) : Json → Text
  | array xs => block depth '[' ']' (writeIndentedEach (depth + 1) xs)
  | object fields => block depth '\x7b' '\x7d' (writeIndentedFields (depth + 1) fields)
  | x => write x

def writeIndentedEach (depth : Nat) : List Json → List Text
  | [] => []
  | x :: xs => writeIndented depth x :: writeIndentedEach depth xs

def writeIndentedFields (depth : Nat) : List (Text × Json) → List Text
  | [] => []
  | (k, x) :: fields =>
    (writeText k ++ ": ".toList ++ writeIndented depth x) :: writeIndentedFields depth fields

end

/-- Puts a key into an object; a key that is there keeps its place. -/
def insert (key : Text) (x : Json) : List (Text × Json) → List (Text × Json)
  | [] => [(key, x)]
  | (k, y) :: fields => if k = key then (k, x) :: fields else (k, y) :: insert key x fields

/-- The object with these entries; the last entry of a key counts. -/
def ofEntries (entries : List (Text × Json)) : Json :=
  object (entries.foldl (fun fields (k, x) => insert k x fields) [])

def single (key : Text) (x : Json) : Json := object [(key, x)]

mutual

def depth : Json → Nat
  | array xs => depthEach xs + 1
  | object fields => depthFields fields + 1
  | _ => 0

def depthEach : List Json → Nat
  | [] => 0
  | x :: xs => max (depth x) (depthEach xs)

def depthFields : List (Text × Json) → Nat
  | [] => 0
  | (_, x) :: fields => max (depth x) (depthFields fields)

end

def get? (key : Text) : Json → Option Json
  | object fields => fields.lookup key
  | _ => none

def text? : Json → Option Text
  | text t => some t
  | _ => none

def bool? : Json → Option Bool
  | bool b => some b
  | _ => none

def int? : Json → Option Int
  | int n => some n
  | _ => none

def array? : Json → Option (List Json)
  | array xs => some xs
  | _ => none

def isNull : Json → Bool
  | null => true
  | _ => false

end Json

end FilterQuery
