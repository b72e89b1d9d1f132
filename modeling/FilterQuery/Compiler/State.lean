import FilterQuery.Policy
set_option autoImplicit false

/-!
What a compiler was last told: the text and its request, the field lists, the naming, and the
names to group by.
-/

namespace FilterQuery

structure State where
  text : Text
  request : Request
  selected : List Text
  ignored : List Text
  allowed : List Text
  whitelist : Bool
  naming : Naming
  groupBy : List Text

namespace State

def empty (n : Naming) : State := ⟨[], .empty, [], [], [], false, n, []⟩

def addName (names : List Text) (name : Text) : List Text :=
  if names.contains name then names else names ++ [name]

def setFilter (e : Option Expr) (s : State) : State :=
  { s with request := { s.request with filter := e } }

def setSort (keys : List SortKey) (s : State) : State :=
  { s with request := { s.request with sort := keys } }

def addSort (k : SortKey) (s : State) : State := s.setSort (s.request.sort ++ [k])

def setPage (p : Page) (s : State) : State := { s with request := { s.request with page := p } }

def addPreload (relation : Text) (e : Option Expr) (s : State) : State :=
  { s with request := { s.request with preloads := s.request.preloads.add relation e.toList } }

def setSelected (names : List Text) (s : State) : State := { s with selected := names.eraseDups }

def addSelected (name : Text) (s : State) : State :=
  { s with selected := addName s.selected name }

def setIgnored (names : List Text) (s : State) : State := { s with ignored := names.eraseDups }

def addIgnored (name : Text) (s : State) : State := { s with ignored := addName s.ignored name }

def setAllowed (names : List Text) (s : State) : State := { s with allowed := names.eraseDups }

def addAllowed (name : Text) (s : State) : State := { s with allowed := addName s.allowed name }

def setWhitelist (active : Bool) (s : State) : State := { s with whitelist := active }

def setNaming (n : Naming) (s : State) : State := { s with naming := n }

/-- Group names may come twice. -/
def setGroupBy (names : List Text) (s : State) : State := { s with groupBy := names }

def policy (s : State) (r : Resolution) : Policy :=
  { ((Policy.empty s.naming r).ignore s.ignored).allow s.allowed with whitelist := s.whitelist }

def plan (s : State) (resolution : Resolution) (r : Request) : Plan :=
  (s.policy resolution).apply r s.selected s.groupBy

end State

end FilterQuery
