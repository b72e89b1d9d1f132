import FilterQuery.Proofs.Compiler.Reading
import FilterQuery.Proofs.Compiler.Steps
set_option autoImplicit false

/-!
A compiler in use. Two compilers that differ only in what their ledgers hold answer every operation
alike and stay alike. If their ledgers show the same, they show the same afterwards.

An operation takes place at one time. A text that is missed in the cache is still missing when its
request is put in, so an operation with a miss has the time of that, and one with a hit the time of
the hit. Reading or compiling a text calls each hook of a plugin once at the most, so a plugin whose
answers change in time is one that is registered anew, in its place, between two operations.
-/

namespace FilterQuery

def Options.uncached (o : Options) : Options := { o with cache := none }

/-- A change of the request that is kept, made without reading a text. -/
inductive RequestChange where
  | setFilter (e : Option Expr)
  | setSort (keys : List SortKey)
  | addSort (k : SortKey)
  | setPage (p : Page)
  | addPreload (relation : Text) (e : Option Expr)

def RequestChange.apply : RequestChange → State → State
  | setFilter e => State.setFilter e
  | setSort keys => State.setSort keys
  | addSort k => State.addSort k
  | setPage p => State.setPage p
  | addPreload relation e => State.addPreload relation e

inductive SettingChange where
  | setSelected (names : List Text)
  | addSelected (name : Text)
  | setIgnored (names : List Text)
  | addIgnored (name : Text)
  | setAllowed (names : List Text)
  | addAllowed (name : Text)
  | setWhitelist (active : Bool)
  | setNaming (n : Naming)
  | setGroupBy (names : List Text)

def SettingChange.apply : SettingChange → State → State
  | setSelected names => State.setSelected names
  | addSelected name => State.addSelected name
  | setIgnored names => State.setIgnored names
  | addIgnored name => State.addIgnored name
  | setAllowed names => State.setAllowed names
  | addAllowed name => State.addAllowed name
  | setWhitelist active => State.setWhitelist active
  | setNaming n => State.setNaming n
  | setGroupBy names => State.setGroupBy names

namespace Compiler

/-- What may be asked of a compiler. Time may pass too, with the reaper at its regular times, and
the reaper may come at any other time. -/
inductive Operation where
  | parse (t : Text)
  | compile (o : Order) (t : Text)
  | compileBatch (o : Order) (ts : List Text) (order : List Nat)
  | renderQuery (o : Order)
  | renderText (o : Order)
  | explain (o : Order)
  | plan
  | changeRequest (change : RequestChange)
  | changeSettings (change : SettingChange)
  | reset
  | registerAdapter (name : Text) (a : Adapter)
  | registerPlugin (p : Plugin)
  | unregisterPlugin (name : Text)
  | close
  | wait (since : Nat)
  | reap

inductive Reply where
  | request (r : Except Failure Request)
  | query (r : Except Failure Query)
  | queries (rs : List (Except (BatchFailure Failure) Query))
  | text (r : Except Failure Text)
  | plan (p : Plan)
  | removed (known : Bool)
  | done

def mapCache (f : Cache Request → Cache Request) (c : Compiler) : Compiler :=
  { c with ledger := { c.ledger with cache := c.ledger.cache.map f } }

def perform [Regex.Engine] (c : Compiler) (s : Surroundings) : Operation → Reply × Compiler
  | .parse t => (c.parse s t).map .request id
  | .compile o t => (c.compile s o t).map .query id
  | .compileBatch o ts order => (c.compileBatch s o ts order).map .queries id
  | .renderQuery o => (c.renderQuery s o).map .query id
  | .renderText o => (c.renderText s o).map .text id
  | .explain o => (c.explain s o).map .text id
  | .plan => (.plan c.plan, c)
  | .changeRequest change => (.done, c.modifyState change.apply)
  | .changeSettings change => (.done, c.modifyState change.apply)
  | .reset => (.done, c.reset)
  | .registerAdapter name a => (.done, c.registerAdapter name a)
  | .registerPlugin p => (.done, c.registerPlugin p)
  | .unregisterPlugin name => (.removed (c.plugins.names.contains name), c.unregisterPlugin name)
  | .close => (.done, c.close)
  | .wait since => (.done, c.mapCache (Cache.advance since s.now))
  | .reap => (.done, c.mapCache (Cache.purge s.now))

abbrev Session := List (Surroundings × Operation)

variable [Regex.Engine]

def after (c : Compiler) (session : Session) : Compiler :=
  session.foldl (fun c x => (c.perform x.1 x.2).2) c

def transcript (c : Compiler) : Session → List (Reply × Compiler)
  | [] => []
  | (s, op) :: session => c.perform s op :: (c.perform s op).2.transcript session

/-- Two compilers that differ in their caches and in what their ledgers hold, at the most. -/
structure Alike (c d : Compiler) : Prop where
  options : c.options.uncached = d.options.uncached
  state : c.state = d.state
  adapters : c.adapters = d.adapters
  plugins : c.plugins = d.plugins
  faithful : c.ledger.Faithful ∧ d.ledger.Faithful

/-- Two compilers give one result and are alike afterwards. If their ledgers showed the same, they
still do. -/
def Agree {α : Type} (c d : Compiler) (x y : α × Compiler) : Prop :=
  x.1 = y.1 ∧ Alike x.2 y.2 ∧
    (c.ledger.uncached = d.ledger.uncached → x.2.ledger.uncached = y.2.ledger.uncached)

theorem Agree.map {α β : Type} {c d : Compiler} {x y : α × Compiler} (h : Agree c d x y)
    (f : α → β) : Agree c d (x.map f id) (y.map f id) :=
  ⟨congrArg f h.1, h.2⟩

namespace Alike

variable {c d : Compiler}

theorem run {α : Type} (h : Alike c d) {a : Action α} {x : Except Failure α}
    (ha : Action.Gives a x) : Agree c d (c.run a) (d.run a) := by
  obtain ⟨w, ha⟩ := ha
  obtain ⟨hc, hshownC, hfaithfulC⟩ := ha c.ledger h.faithful.1
  obtain ⟨hd, hshownD, hfaithfulD⟩ := ha d.ledger h.faithful.2
  refine ⟨hc.trans hd.symm, ⟨h.options, h.state, h.adapters, h.plugins, hfaithfulC, hfaithfulD⟩,
    fun hshown => ?_⟩
  exact hshownC.trans ((congrArg w hshown).trans hshownD.symm)

theorem validation (h : Alike c d) : c.options.validation = d.options.validation :=
  (congrArg Options.validation h.options : c.options.uncached.validation = _)

theorem planOf (h : Alike c d) (r : Request) : c.planOf r = d.planOf r := by
  have hresolution : c.options.resolution = d.options.resolution :=
    (congrArg Options.resolution h.options : c.options.uncached.resolution = _)
  rw [Compiler.planOf, Compiler.planOf, h.state, hresolution]

theorem plan (h : Alike c d) : c.plan = d.plan := by
  rw [Compiler.plan, Compiler.plan, h.planOf, h.state]

theorem prepare (h : Alike c d) (s : Surroundings) (t : Text) : c.prepare s t = d.prepare s t := by
  rw [Compiler.prepare, Compiler.prepare, h.plugins, h.validation]

theorem render {α : Type} (h : Alike c d) (q : QueryContext) (answer : Adapter → Except Failure α)
    (output : α → Output) : c.render q answer output = d.render q answer output := by
  rw [Compiler.render, Compiler.render, Compiler.adapter, Compiler.adapter, h.adapters, h.plugins]

theorem run_render {α : Type} (h : Alike c d) (q : QueryContext)
    (answer : Adapter → Except Failure α) (output : α → Output) :
    Agree c d (c.run (c.render q answer output)) (d.run (d.render q answer output)) := by
  rw [← h.render]
  exact h.run (c.gives_render q answer output)

theorem agree {α : Type} (h : Alike c d) (x : α) : Agree c d (x, c) (x, d) := ⟨rfl, h, id⟩

theorem modifyState (h : Alike c d) (f : State → State) :
    Alike (c.modifyState f) (d.modifyState f) :=
  { h with state := congrArg f h.state }

theorem keep (h : Alike c d) (t : Text) (r : Request) : Alike (c.keep t r) (d.keep t r) :=
  h.modifyState _

theorem parse (h : Alike c d) (s : Surroundings) (t : Text) :
    Agree c d (c.parse s t) (d.parse s t) := by
  have hrun : Agree c d (c.run (c.prepare s t)) (d.run (d.prepare s t)) := by
    rw [← h.prepare]
    exact h.run (c.gives_prepare s t)
  rw [parse_eq, parse_eq]
  generalize c.run (c.prepare s t) = x at hrun
  generalize d.run (d.prepare s t) = y at hrun
  obtain ⟨x, c'⟩ := x
  obtain ⟨y, d'⟩ := y
  obtain ⟨hresult, halike, hshown⟩ := hrun
  obtain rfl : x = y := hresult
  -- Only a result is kept, and the two runs have the same.
  rcases x with e | ⟨t', r⟩
  · exact ⟨rfl, halike, hshown⟩
  · exact ⟨rfl, halike.keep t' r, hshown⟩

theorem compile (h : Alike c d) (s : Surroundings) (o : Order) (t : Text) :
    Agree c d (c.compile s o t) (d.compile s o t) := by
  have hsame : c.compileAction s o t = d.compileAction s o t := by
    rw [compileAction, compileAction, h.prepare]
    simp only [queryOf, h.planOf, h.render]
  rw [Compiler.compile, Compiler.compile, ← hsame]
  exact h.run (c.gives_compileAction s o t)

theorem compileArrivals (h : Alike c d) (s : Surroundings) (o : Order) (ts : List Text)
    (order : List Nat) :
    Agree c d (c.compileArrivals s o ts order) (d.compileArrivals s o ts order) := by
  induction order generalizing c d with
  | nil => exact h.agree []
  | cons i is ih =>
    rw [Compiler.compileArrivals, Compiler.compileArrivals]
    cases ts[i]? with
    | none => exact ih h
    | some t =>
      obtain ⟨hresult, halike, hshown⟩ := h.compile s o t
      obtain ⟨hrest, halike', hshown'⟩ := ih halike
      exact ⟨by simp only [hresult, hrest], halike', hshown' ∘ hshown⟩

theorem compileBatch (h : Alike c d) (s : Surroundings) (o : Order) (ts : List Text)
    (order : List Nat) : Agree c d (c.compileBatch s o ts order) (d.compileBatch s o ts order) :=
  (h.compileArrivals s o ts order).map (Batch.gather ts.length)

theorem mapCache (h : Alike c d) {f : Cache Request → Cache Request}
    (hf : ∀ cache, (f cache).entries.Sublist cache.entries) :
    Alike (c.mapCache f) (d.mapCache f) :=
  { h with faithful := ⟨h.faithful.1.map hf, h.faithful.2.map hf⟩ }

theorem perform (h : Alike c d) (s : Surroundings) (op : Operation) :
    Agree c d (c.perform s op) (d.perform s op) := by
  cases op with
  | parse t => exact (h.parse s t).map Reply.request
  | compile o t => exact (h.compile s o t).map Reply.query
  | compileBatch o ts order => exact (h.compileBatch s o ts order).map Reply.queries
  | renderQuery o =>
    rw [Compiler.perform, Compiler.perform, renderQuery, renderQuery, queryOf, queryOf, h.plan]
    exact (h.run_render _ _ _).map Reply.query
  | renderText o =>
    rw [Compiler.perform, Compiler.perform, renderText, renderText, h.plan]
    exact (h.run_render _ _ _).map Reply.text
  | explain o =>
    rw [Compiler.perform, Compiler.perform, explain, explain, h.plan]
    exact (h.run_render _ _ _).map Reply.text
  | plan =>
    rw [Compiler.perform, Compiler.perform, h.plan]
    exact h.agree _
  | changeRequest change => exact ⟨rfl, h.modifyState _, id⟩
  | changeSettings change => exact ⟨rfl, h.modifyState _, id⟩
  | reset =>
    have hnaming : c.options.naming = d.options.naming :=
      (congrArg Options.naming h.options : c.options.uncached.naming = _)
    exact ⟨rfl, { h with state := congrArg State.empty hnaming }, id⟩
  | registerAdapter name a =>
    exact ⟨rfl, { h with adapters := congrArg (insertAdapter name a) h.adapters }, id⟩
  | registerPlugin p =>
    exact ⟨rfl, { h with plugins := congrArg (Plugins.register p) h.plugins }, id⟩
  | unregisterPlugin name =>
    refine ⟨?_, { h with plugins := congrArg (Plugins.unregister name) h.plugins }, id⟩
    exact congrArg (fun ps : Plugins => Reply.removed (ps.names.contains name)) h.plugins
  | close => exact ⟨rfl, h.mapCache fun _ => .refl _, id⟩
  | wait since => exact ⟨rfl, h.mapCache (Cache.advance_sublist since s.now), id⟩
  | reap => exact ⟨rfl, h.mapCache (Cache.purge_sublist s.now), id⟩

end Alike

theorem Alike.refl {c : Compiler} (hc : c.ledger.Faithful) : Alike c c :=
  ⟨rfl, rfl, rfl, rfl, hc, hc⟩

theorem faithful_new (o : Options) : (new o).ledger.Faithful := by
  intro cache hcache e he
  obtain ⟨_, _, rfl⟩ := Option.map_eq_some_iff.1 hcache
  cases he

theorem faithful_perform {c : Compiler} (hc : c.ledger.Faithful) (s : Surroundings)
    (op : Operation) : (c.perform s op).2.ledger.Faithful :=
  ((Alike.refl hc).perform s op).2.1.faithful.1

/-- Whatever happens, a cache holds the requests that its texts read as. -/
theorem faithful_after {c : Compiler} (hc : c.ledger.Faithful) (session : Session) :
    (c.after session).ledger.Faithful := by
  induction session generalizing c with
  | nil => exact hc
  | cons x session ih => exact ih (faithful_perform hc x.1 x.2)

end Compiler

end FilterQuery
