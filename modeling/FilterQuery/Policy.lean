import FilterQuery.Naming
import FilterQuery.Request
set_option autoImplicit false

/-!
The field policy: which fields of a request survive, and under which names. Listed names are kept
renamed and every field is renamed before it is looked up. `Policy.apply` turns a request into the
plan that adapters render.
-/

namespace FilterQuery

/-- What is left of a request, with the columns to select (none listed means all of them) and to
group by. -/
structure Plan where
  request : Request
  selected : List Text
  groupBy : List Text

structure Policy where
  ignored : List Text
  allowed : List Text
  whitelist : Bool
  naming : Naming
  resolution : Resolution
  deriving DecidableEq, Repr

namespace Policy

def empty (naming : Naming) (resolution : Resolution) : Policy :=
  ⟨[], [], false, naming, resolution⟩

def rename (p : Policy) (name : Text) : Text := p.naming.apply name

def addTo (p : Policy) (listed names : List Text) : List Text :=
  (listed ++ names.map p.rename).eraseDups

def ignore (p : Policy) (names : List Text) : Policy :=
  { p with ignored := p.addTo p.ignored names }

def allow (p : Policy) (names : List Text) : Policy :=
  { p with allowed := p.addTo p.allowed names }

def isIgnored (p : Policy) (name : Text) : Bool :=
  (p.resolution.find? p.ignored (p.rename name)).isSome

/-- A whitelist that is not active allows every name. -/
def isAllowed (p : Policy) (name : Text) : Bool :=
  !p.whitelist || (p.resolution.find? p.allowed (p.rename name)).isSome

/-- The name a field goes by, none if it is dropped. An active whitelist gives its own spelling. -/
def resolve (p : Policy) (name : Text) : Option Text :=
  if name = [] ∨ p.isIgnored name then none
  else if p.whitelist then p.resolution.find? p.allowed (p.rename name)
  else some (p.rename name)

def qualified (relation field : Text) : Text := relation ++ '.' :: field

def afterSegments (n : Nat) (name : Text) : Option Text :=
  let segments := name.splitOn '.'
  if segments.length ≤ n then none
  else some (Text.join ['.'] (segments.drop n))

/-- The name that a field of a relation goes by. It may be listed by itself or with the relation
in front. -/
def resolveNested (p : Policy) (relation field : Text) : Option Text :=
  if field = [] ∨ p.isIgnored field ∨ p.isIgnored (qualified relation field) then none
  else if p.whitelist then
    match p.resolution.find? p.allowed (p.rename field) with
    | some entry => some entry
    | none =>
      ((p.resolution.find? p.allowed (p.rename (qualified relation field))).bind
        (afterSegments (relation.splitOn '.').length)).filter (· ≠ [])
  else some (p.rename field)

def admits (p : Policy) (name : Text) : Bool := (p.resolve name).isSome

def admitsNested (p : Policy) (relation field : Text) : Bool :=
  (p.resolveNested relation field).isSome

def applyWith (p : Policy) (resolve : Text → Option Text) (e : Expr) : Option Expr :=
  (e.prune fun f => (resolve f).isSome).map fun e =>
    e.rename fun f => (resolve f).getD (p.rename f)

def filter (p : Policy) (e : Expr) : Option Expr := p.applyWith p.resolve e

def nestedFilter (p : Policy) (relation : Text) (e : Expr) : Option Expr :=
  p.applyWith (p.resolveNested relation) e

def names (p : Policy) (ns : List Text) : List Text := (ns.filterMap p.resolve).eraseDups

def sort (p : Policy) (keys : List SortKey) : List SortKey :=
  keys.filterMap fun k => (p.resolve k.field).map fun f => ⟨f, k.direction⟩

/-- Adds a relation with what is left of its filters, unless the relation is dropped. -/
def addPreload (p : Policy) (ps : Preloads) (entry : Text × List Expr) : Preloads :=
  match p.resolve entry.1 with
  | none => ps
  | some name => ps.add name (entry.2.filterMap (p.nestedFilter entry.1))

def preloads (p : Policy) (ps : Preloads) : Preloads := ps.foldl p.addPreload []

def apply (p : Policy) (r : Request) (selected groupBy : List Text) : Plan :=
  ⟨⟨r.filter.bind p.filter, p.sort r.sort, r.page, p.preloads r.preloads⟩,
    p.names selected, p.names groupBy⟩

end Policy

end FilterQuery
