import FilterQuery.Compiler.Ledger
import FilterQuery.Compiler.State
import FilterQuery.Batch
import FilterQuery.Options
import FilterQuery.Repair
set_option autoImplicit false

/-!
A compiler reads filter text, holds the request with the field lists, and renders it through named
adapters. Reading and rendering leave the state alone unless they succeed, and rendering leaves it
alone in any case.
-/

namespace FilterQuery

structure Compiler where
  options : Options
  state : State
  adapters : List (Text × Adapter)
  plugins : Plugins
  ledger : Ledger

/-- What an operation finds outside the compiler: the time in milliseconds and the shared regex
operator. -/
structure Surroundings where
  now : Nat
  regexOperator : Text
  deriving DecidableEq, Repr

namespace Compiler

def builtinAdapters (regexOperator : Option Text) : List (Text × Adapter) :=
  [Adapter.sql "sql".toList .standard regexOperator,
    Adapter.sql "postgres".toList .postgres regexOperator, Adapter.document].map fun a => (a.name, a)

def new (o : Options) : Compiler :=
  ⟨o, .empty o.naming, builtinAdapters o.regexOperator, [],
    ⟨o.cache.map fun c => .empty c.capacity c.ttl c.reapInterval, .zero, []⟩⟩

def run {α : Type} (c : Compiler) (a : Action α) : Except Failure α × Compiler :=
  let (result, ledger) := a c.ledger
  (result, { c with ledger := ledger })

def modifyState (f : State → State) (c : Compiler) : Compiler := { c with state := f c.state }

/-- Forgets the text, the request and the field lists; the naming is again that of the options. -/
def reset (c : Compiler) : Compiler := { c with state := .empty c.options.naming }

/-! Adapters and plugins. -/

def insertAdapter (name : Text) (a : Adapter) : List (Text × Adapter) → List (Text × Adapter)
  | [] => [(name, a)]
  | (n, b) :: as => if n = name then (n, a) :: as else (n, b) :: insertAdapter name a as

def registerAdapter (name : Text) (a : Adapter) (c : Compiler) : Compiler :=
  { c with adapters := insertAdapter name a c.adapters }

def adapterNames (c : Compiler) : List Text := c.adapters.map Prod.fst

/-- The adapter under a name, which may be given in capital letters and with blanks around it. -/
def adapter (c : Compiler) (name : Text) : Except Failure Adapter :=
  match (c.adapters.lookup name).or (c.adapters.lookup (Text.lower (Text.trim name))) with
  | some a => .ok a
  | none => .error (.unknownAdapter name)

def registerPlugin (p : Plugin) (c : Compiler) : Compiler :=
  { c with plugins := c.plugins.register p }

def unregisterPlugin (name : Text) (c : Compiler) : Compiler :=
  { c with plugins := c.plugins.unregister name }

/-! Reading. -/

def checked (v : Validation) (t : Text) : Action Text :=
  match v with
  | .off => pure t
  | .strict =>
    match Diagnosis.first? t with
    | none => pure t
    | some p => do
      Ledger.parseFailed
      throw (.parse p)
  | .repair =>
    match Text.repairChecked t with
    | .ok repaired => do
      if repaired ≠ t then Ledger.repaired
      pure repaired
    | .error f => do
      Ledger.parseFailed
      throw (.repair f)

section

variable [Regex.Engine]

def readCached (now : Nat) (t : Text) : Action Request := do
  match (← get).cache with
  | none =>
    Ledger.parsed
    pure (Request.read t)
  | some cache =>
    let (found, cache) := cache.get now t
    match found with
    | some r =>
      Ledger.setCache cache
      Ledger.cacheHit
      pure r
    | none =>
      Ledger.cacheMissed
      Ledger.parsed
      Ledger.setCache (cache.insert now t (Request.read t))
      pure (Request.read t)

/-- Everything that reading does but keep the result. -/
def prepare (c : Compiler) (s : Surroundings) (t : Text) : Action (Text × Request) := do
  let t ← c.plugins.amend t
  let t ← checked c.options.validation t
  let r ← readCached s.now t
  c.plugins.observe (.parsed r)
  pure (t, r)

def parse (c : Compiler) (s : Surroundings) (t : Text) : Except Failure Request × Compiler :=
  match c.run (c.prepare s t) with
  | (.ok (t, r), c) => (.ok r, c.modifyState fun st => { st with text := t, request := r })
  | (.error e, c) => (.error e, c)

/-! Rendering. -/

end

def planOf (c : Compiler) (r : Request) : Plan := c.state.plan c.options.resolution r

def plan (c : Compiler) : Plan := c.planOf c.state.request

def render {α : Type} (c : Compiler) (q : QueryContext) (answer : Adapter → Except Failure α)
    (output : α → Output) : Action α :=
  match c.adapter q.adapter with
  | .error e => throw e
  | .ok a => do
    c.plugins.observe (.querying q)
    match answer a with
    | .error e =>
      Ledger.renderFailed
      throw e
    | .ok x =>
      Ledger.rendered
      c.plugins.observe (.queried q (output x))
      pure x

/-- A query for an adapter to answer. -/
structure Order where
  adapter : Text
  target : Target
  parts : Option (List Part)
  deriving DecidableEq, Repr

def Order.context (o : Order) (p : Plan) : QueryContext := ⟨o.adapter, p, o.target, o.parts⟩

def answer {α : Type} (s : Surroundings) (o : Order) (p : Plan) (renderer : Adapter → Renderer α)
    (a : Adapter) : Except Failure α :=
  renderer a s.regexOperator p o.target o.parts

def queryOf (c : Compiler) (s : Surroundings) (o : Order) (p : Plan) : Action Query :=
  c.render (o.context p) (answer s o p Adapter.query) .query

def renderQuery (c : Compiler) (s : Surroundings) (o : Order) : Except Failure Query × Compiler :=
  c.run (c.queryOf s o c.plan)

def renderText (c : Compiler) (s : Surroundings) (o : Order) : Except Failure Text × Compiler :=
  c.run (c.render (o.context c.plan) (answer s o c.plan Adapter.text) .text)

def explain (c : Compiler) (s : Surroundings) (o : Order) : Except Failure Text × Compiler :=
  c.run (c.render (o.context c.plan) (answer s o c.plan Adapter.explanation) .text)

/-- Reads and renders a text at once, without keeping it. -/
def compileAction [Regex.Engine] (c : Compiler) (s : Surroundings) (o : Order) (t : Text) :
    Action Query := do
  let (_, r) ← c.prepare s t
  c.queryOf s o (c.planOf r)

def compile [Regex.Engine] (c : Compiler) (s : Surroundings) (o : Order) (t : Text) :
    Except Failure Query × Compiler :=
  c.run (c.compileAction s o t)

def unitResult (i : Nat) (r : Except Failure Query) : Except (BatchFailure Failure) Query :=
  r.mapError (.failed i)

def compileArrivals [Regex.Engine] (c : Compiler) (s : Surroundings) (o : Order) (ts : List Text) :
    List Nat → List (Nat × Except (BatchFailure Failure) Query) × Compiler
  | [] => ([], c)
  | i :: is =>
    match ts[i]? with
    | none => compileArrivals c s o ts is
    | some t =>
      let (r, c) := c.compile s o t
      let (rest, c) := compileArrivals c s o ts is
      ((i, unitResult i r) :: rest, c)

/-- Compiles texts in any order; the results are in the order of the texts. -/
def compileBatch [Regex.Engine] (c : Compiler) (s : Surroundings) (o : Order) (ts : List Text)
    (order : List Nat) : List (Except (BatchFailure Failure) Query) × Compiler :=
  let (arrived, c) := compileArrivals c s o ts order
  (Batch.gather ts.length arrived, c)

def close (c : Compiler) : Compiler :=
  { c with ledger := { c.ledger with cache := c.ledger.cache.map Cache.close } }

end Compiler

end FilterQuery
