import FilterQuery.Json
set_option autoImplicit false

/-!
TOML documents as they are built up line by line. A table knows whether it has been named in a
header and whether dotted keys have made it, which decides what may still be added to it. A
finished document is an object.
-/

namespace FilterQuery.Toml

/-- What stands under a key. A table is `explicit` once a header or an inline table names it, and
`dotted` if dotted keys made it. -/
inductive Item where
  | value (x : Json)
  | table (explicit dotted : Bool) (items : List (Text × Item))
  | tables (rows : List (List (Text × Item)))

abbrev Items := List (Text × Item)

namespace Items

def set (key : Text) (i : Item) : Items → Items
  | [] => [(key, i)]
  | (k, j) :: is => if k = key then (k, i) :: is else (k, j) :: set key i is

def changeLast (change : Items → Option Items) : List Items → Option (List Items)
  | [] => none
  | [row] => (change row).map fun row => [row]
  | row :: rows => (changeLast change rows).map (row :: ·)

/-- Changes the table that keys lead to; those that are not there are made. `dotted` says that the
keys are those of a dotted key: it must not pass through a table that a header names, and it has to
end in one that dotted keys have made. -/
def descend (dotted : Bool) (change : Items → Option Items) : List Text → Items → Option Items
  | [], is => change is
  | k :: ks, is =>
    match is.lookup k with
    | none => (descend dotted change ks []).map fun inner => set k (.table false dotted inner) is
    | some (.value _) => none
    | some (.tables rows) =>
      if dotted && ks.isEmpty then none
      else (changeLast (descend dotted change ks) rows).map fun rows => set k (.tables rows) is
    | some (.table explicit byDots inner) =>
      if dotted && (explicit || (ks.isEmpty && !byDots)) then none
      else (descend dotted change ks inner).map fun inner =>
        set k (.table explicit byDots inner) is

def addValue (key : Text) (x : Json) (is : Items) : Option Items :=
  if (is.lookup key).isSome then none else some (set key (.value x) is)

def addDotted (keys : List Text) (x : Json) (is : Items) : Option Items :=
  match keys.getLast? with
  | some k => descend true (addValue k x) keys.dropLast is
  | none => none

/-- Opens the table that a header names. Only one that exists merely as a place of others may
exist already. -/
def openTable (key : Text) (is : Items) : Option Items :=
  match is.lookup key with
  | none => some (set key (.table true false []) is)
  | some (.table false false inner) => some (set key (.table true false inner) is)
  | _ => none

def openRow (key : Text) (is : Items) : Option Items :=
  match is.lookup key with
  | none => some (set key (.tables [[]]) is)
  | some (.tables rows) => some (set key (.tables (rows ++ [[]])) is)
  | _ => none

def atHeader (openLast : Text → Items → Option Items) (keys : List Text) (is : Items) :
    Option Items :=
  match keys.getLast? with
  | some k => descend false (openLast k) keys.dropLast is
  | none => none

end Items

mutual

def Item.toJson : Item → Json
  | .value x => x
  | .table _ _ is => .object (itemsJson is)
  | .tables rows => .array (rowsJson rows)

def itemsJson : List (Text × Item) → List (Text × Json)
  | [] => []
  | (k, i) :: is => (k, i.toJson) :: itemsJson is

def rowsJson : List (List (Text × Item)) → List Json
  | [] => []
  | row :: rows => .object (itemsJson row) :: rowsJson rows

end

end FilterQuery.Toml
