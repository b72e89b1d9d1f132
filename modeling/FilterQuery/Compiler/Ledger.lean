import FilterQuery.Cache
import FilterQuery.Plugin
set_option autoImplicit false

/-!
What a compiler keeps beside its state: counters, a cache of requests by their text, and the calls
of hooks. An action may fail, and what it has written into the ledger stays.
-/

namespace FilterQuery

/-- Counters of 64 bits, which go round. -/
structure Metrics where
  parses : UInt64
  parseErrors : UInt64
  repairs : UInt64
  renders : UInt64
  renderErrors : UInt64
  cacheHits : UInt64
  cacheMisses : UInt64
  pluginErrors : UInt64
  deriving DecidableEq, Repr

def Metrics.zero : Metrics := ⟨0, 0, 0, 0, 0, 0, 0, 0⟩

structure Ledger where
  cache : Option (Cache Request)
  metrics : Metrics
  calls : List HookCall

abbrev Action := ExceptT Failure (StateM Ledger)

namespace Ledger

def count (f : Metrics → Metrics) : Action Unit :=
  modify fun l => { l with metrics := f l.metrics }

def parsed : Action Unit := count fun m => { m with parses := m.parses + 1 }

def parseFailed : Action Unit := count fun m => { m with parseErrors := m.parseErrors + 1 }

def repaired : Action Unit := count fun m => { m with repairs := m.repairs + 1 }

def rendered : Action Unit := count fun m => { m with renders := m.renders + 1 }

def renderFailed : Action Unit := count fun m => { m with renderErrors := m.renderErrors + 1 }

def cacheHit : Action Unit := count fun m => { m with cacheHits := m.cacheHits + 1 }

def cacheMissed : Action Unit := count fun m => { m with cacheMisses := m.cacheMisses + 1 }

def pluginFailed : Action Unit := count fun m => { m with pluginErrors := m.pluginErrors + 1 }

def setCache (c : Cache Request) : Action Unit := modify fun l => { l with cache := some c }

end Ledger

namespace Plugin

def call {α : Type} (p : Plugin) (o : Occasion) (result : Except Text α) : Action α := do
  modify fun l => { l with calls := l.calls ++ [⟨p.name, p.version, o⟩] }
  match result with
  | .ok a => pure a
  | .error cause =>
    Ledger.pluginFailed
    throw (.plugin p.name o.stage cause)

end Plugin

namespace Plugins

def amend : Plugins → Text → Action Text
  | [], t => pure t
  | p :: ps, t => do
    let t ← p.call (.parsing t) (p.amend t)
    amend ps t

def observe (o : Occasion) : Plugins → Action Unit
  | [] => pure ()
  | p :: ps => do
    p.call o (p.observe o)
    observe o ps

end Plugins

end FilterQuery
