import FilterQuery.Expr
set_option autoImplicit false

/-!
A request is what one filter text asks for: a filter, an order, a page, and relations to load with
filters of their own.
-/

namespace FilterQuery

inductive Direction where
  | asc
  | desc
  deriving DecidableEq, Repr

namespace Direction

def word : Direction → Text
  | .asc => "asc".toList
  | .desc => "desc".toList

def ofWord? (t : Text) : Option Direction :=
  if Text.sameLetters t "asc".toList then some .asc
  else if Text.sameLetters t "desc".toList then some .desc
  else none

end Direction

structure SortKey where
  field : Text
  direction : Direction
  deriving DecidableEq, Repr

def SortKey.write (k : SortKey) : Text := k.field ++ ':' :: k.direction.word

/-- How many records to skip and to take. Zero stands for no limit. -/
structure Page where
  skip : Nat
  take : Nat
  deriving DecidableEq, Repr

namespace Page

def none : Page := ⟨0, 0⟩

/-- A negative number counts as zero. -/
def clamped (skip take : Int) : Page := ⟨skip.toNat, take.toNat⟩

def isEmpty (p : Page) : Bool := p.skip == 0 && p.take == 0

def write (p : Page) : Text :=
  "page=skip:".toList ++ Text.ofNat p.skip ++ ",take:".toList ++ Text.ofNat p.take

end Page

/-- Relations to load in the order in which they were first named, each with its filters. -/
abbrev Preloads := List (Text × List Expr)

namespace Preloads

def add (relation : Text) (filters : List Expr) : Preloads → Preloads
  | [] => [(relation, filters)]
  | (r, es) :: ps =>
    if r = relation then (r, es ++ filters) :: ps else (r, es) :: add relation filters ps

/-- One section per filter, or the relation alone if it has none. -/
def writeSections : Preloads → List Text
  | [] => []
  | (r, es) :: ps =>
    (if es.isEmpty then [r] else es.map fun e => r ++ ':' :: e.write) ++ writeSections ps

def write (ps : Preloads) : Text :=
  "load=[".toList ++ Text.join ['|'] (writeSections ps) ++ [']']

def same (ps qs : Preloads) : Bool :=
  ps.length == qs.length && ps.all fun (r, es) =>
    match qs.lookup r with
    | some fs => Expr.sameEach es fs
    | none => false

end Preloads

structure Request where
  filter : Option Expr
  sort : List SortKey
  page : Page
  preloads : Preloads

namespace Request

def empty : Request := ⟨none, [], Page.none, []⟩

def isEmpty (r : Request) : Bool :=
  r.filter.isNone && r.sort.isEmpty && r.page.isEmpty && r.preloads.isEmpty

/-- The sections that are not empty, in a fixed order. -/
def writeSections (r : Request) : List Text :=
  r.filter.toList.map Expr.write ++
  (if r.sort.isEmpty then [] else ["sort=".toList ++ Text.join [','] (r.sort.map SortKey.write)]) ++
  (if r.page.isEmpty then [] else [r.page.write]) ++
  (if r.preloads.isEmpty then [] else [r.preloads.write])

def write (r : Request) : Text := Text.join [' '] r.writeSections

def sameFilter : Option Expr → Option Expr → Bool
  | none, none => true
  | some e, some f => e.same f
  | _, _ => false

def same (r s : Request) : Bool :=
  sameFilter r.filter s.filter && r.sort == s.sort && r.page == s.page &&
    r.preloads.same s.preloads

end Request

end FilterQuery
