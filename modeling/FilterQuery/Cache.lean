import FilterQuery.Text
set_option autoImplicit false

/-!
A bounded map whose entries expire some time after they were put in. Entries stand in the order in
which they were put in, the oldest first; looking one up does not move it. A reaper drops expired
entries at regular times until the cache is closed. Times are milliseconds.
-/

namespace FilterQuery

structure CacheEntry (α : Type) where
  key : Text
  value : α
  inserted : Nat

structure Cache (α : Type) where
  capacity : Nat
  ttl : Nat
  reapInterval : Nat
  entries : List (CacheEntry α)
  closed : Bool

namespace Cache

variable {α : Type}

def empty (capacity ttl reapInterval : Nat) : Cache α := ⟨capacity, ttl, reapInterval, [], false⟩

def isExpired (c : Cache α) (now : Nat) (e : CacheEntry α) : Bool := c.ttl ≤ now - e.inserted

def find? (c : Cache α) (key : Text) : Option (CacheEntry α) := c.entries.find? (·.key == key)

def without (c : Cache α) (key : Text) : Cache α :=
  { c with entries := c.entries.filter (·.key != key) }

/-- Looks a key up; an entry that has expired goes. -/
def get (now : Nat) (key : Text) (c : Cache α) : Option α × Cache α :=
  match c.find? key with
  | none => (none, c)
  | some e => if c.isExpired now e then (none, c.without key) else (some e.value, c)

def purge (now : Nat) (c : Cache α) : Cache α :=
  { c with entries := c.entries.dropWhile (c.isExpired now) }

def purgeCount (now : Nat) (c : Cache α) : Nat :=
  c.entries.length - (c.purge now).entries.length

/-- The entries once there is room for one more: if the cache is full, expired ones go first and
then, if it still is, the oldest. -/
def roomy (now : Nat) (c : Cache α) : List (CacheEntry α) :=
  if c.entries.length < c.capacity then c.entries
  else
    let kept := (c.purge now).entries
    if kept.length < c.capacity then kept else kept.drop 1

/-- Puts an entry in. Replacing one counts as new; a cache without capacity holds nothing. -/
def insert (now : Nat) (key : Text) (value : α) (c : Cache α) : Cache α :=
  if c.capacity = 0 then c
  else
    let kept := if (c.find? key).isSome then (c.without key).entries else c.roomy now
    { c with entries := kept ++ [⟨key, value, now⟩] }

def remove (key : Text) (c : Cache α) : Option α × Cache α :=
  ((c.find? key).map CacheEntry.value, c.without key)

def clear (c : Cache α) : Cache α := { c with entries := [] }

def length (c : Cache α) : Nat := c.entries.length

def close (c : Cache α) : Cache α := { c with closed := true }

/-- What the reaper has dropped when time has gone from one point to another. -/
def advance (before now : Nat) (c : Cache α) : Cache α :=
  if c.closed then c
  else if c.reapInterval = 0 then c.purge now
  else if before / c.reapInterval < now / c.reapInterval then
    c.purge (now / c.reapInterval * c.reapInterval)
  else c

end Cache

end FilterQuery
