import FilterQuery.Proofs.Compiler.Reading
set_option autoImplicit false

/-!
Compiling in steps. Between two steps the ledger may change in any way that leaves the cache
faithful, so that a text that was missed may be there when its request is put in. Whatever happens
in between, the work comes to the result of compiling; and if nothing does, it is the action.
-/

namespace FilterQuery

/-- Work that is done step by step. A step changes the ledger at one time and leaves what is still
to be done. -/
inductive Work (α : Type) where
  | done (x : Except Failure α)
  | step (change : Nat → Ledger → Ledger) (next : Nat → Ledger → Work α)

namespace Work

variable {α β : Type}

def bind : Work α → (α → Work β) → Work β
  | .done (.ok x), f => f x
  | .done (.error e), _ => .done (.error e)
  | .step change next, f => .step change fun now l => (next now l).bind f

instance : Monad Work where
  pure x := .done (.ok x)
  bind := bind

def once (a : Nat → Action α) : Work α :=
  .step (fun now l => (a now l).2) fun now l => .done (a now l).1

def run (now : Nat) : Work α → Action α
  | .done x => fun l => (x, l)
  | .step change next => fun l => (next now l).run now (change now l)

theorem run_pure (now : Nat) (x : α) : (pure x : Work α).run now = pure x := rfl

theorem run_once (now : Nat) (a : Nat → Action α) : (once a).run now = a now := rfl

theorem run_bind (now : Nat) (w : Work α) (f : α → Work β) :
    (w >>= f).run now = w.run now >>= fun x => (f x).run now := by
  induction w with
  | done x =>
    cases x with
    | ok x => rfl
    | error e => rfl
  | step change next ih =>
    funext l
    rw [Action.bind_apply]
    exact (congrFun (ih now l) (change now l)).trans (Action.bind_apply ..)

variable [Regex.Engine]

/-- The work comes to a result, whatever the ledger holds at each of its steps, and leaves the cache
faithful. -/
def Gives : Work α → Except Failure α → Prop
  | .done y, x => y = x
  | .step change next, x =>
    ∀ now l, l.Faithful → (change now l).Faithful ∧ (next now l).Gives x

theorem gives_once {a : Nat → Action α} {x : Except Failure α} (h : ∀ now, Action.Gives (a now) x) :
    Gives (once a) x := by
  intro now l hl
  obtain ⟨w, ha⟩ := h now
  obtain ⟨hresult, -, hfaithful⟩ := ha l hl
  exact ⟨hfaithful, hresult⟩

theorem gives_bind {w : Work α} {f : α → Work β} {x : Except Failure α}
    {g : α → Except Failure β} (hw : w.Gives x) (hf : ∀ y, x = .ok y → (f y).Gives (g y)) :
    (w >>= f).Gives (x >>= g) := by
  induction w with
  | done y =>
    cases hw
    cases x with
    | ok x => exact hf x rfl
    | error e => rfl
  | step change next ih =>
    intro now l hl
    obtain ⟨hfaithful, hnext⟩ := hw now l hl
    exact ⟨hfaithful, ih now l hnext⟩

theorem gives_bind_ok {w : Work α} {f : α → Work β} {x : α} {y : Except Failure β}
    (hw : w.Gives (.ok x)) (hf : (f x).Gives y) : (w >>= f).Gives y := by
  refine gives_bind (g := fun _ => y) hw fun z hz => ?_
  cases hz
  exact hf

end Work

open FilterQuery.Work

namespace Plugins

def amendWork : Plugins → Text → Work Text
  | [], t => pure t
  | p :: ps, t => do
    let t ← once fun _ => p.call (.parsing t) (p.amend t)
    amendWork ps t

def observeWork (o : Occasion) : Plugins → Work Unit
  | [] => pure ()
  | p :: ps => do
    once fun _ => p.call o (p.observe o)
    observeWork o ps

theorem run_amendWork (now : Nat) (ps : Plugins) (t : Text) :
    (ps.amendWork t).run now = ps.amend t := by
  induction ps generalizing t with
  | nil => rfl
  | cons p ps ih =>
    rw [amendWork, amend, run_bind, run_once]
    simp only [ih]

theorem run_observeWork (now : Nat) (ps : Plugins) (o : Occasion) :
    (ps.observeWork o).run now = ps.observe o := by
  induction ps with
  | nil => rfl
  | cons p ps ih =>
    rw [observeWork, observe, run_bind, run_once]
    simp only [ih]

theorem gives_amendWork [Regex.Engine] (ps : Plugins) (t : Text) :
    (ps.amendWork t).Gives (ps.amended t) := by
  induction ps generalizing t with
  | nil => exact rfl
  | cons p ps ih =>
    exact gives_bind (gives_once fun _ => p.gives_call _ (p.amend t)) fun t _ => ih t

theorem gives_observeWork [Regex.Engine] (ps : Plugins) (o : Occasion) :
    (ps.observeWork o).Gives (ps.approved o) := by
  induction ps with
  | nil => exact rfl
  | cons p ps ih =>
    exact gives_bind (gives_once fun _ => p.gives_call o (p.observe o)) fun _ _ => ih

end Plugins

namespace Compiler

def lookUp (t : Text) (now : Nat) : Action (Option Request) := do
  match (← get).cache with
  | none => pure none
  | some cache =>
    let (found, cache) := cache.get now t
    Ledger.setCache cache
    if found.isSome then Ledger.cacheHit else Ledger.cacheMissed
    pure found

section

variable [Regex.Engine]

def readAnew (t : Text) (now : Nat) : Action Request := do
  Ledger.parsed
  match (← get).cache with
  | none => pure (Request.read t)
  | some cache =>
    Ledger.setCache (cache.insert now t (Request.read t))
    pure (Request.read t)

def readWork (t : Text) : Work Request := do
  match ← once (lookUp t) with
  | some r => pure r
  | none => once (readAnew t)

def prepareWork (c : Compiler) (t : Text) : Work (Text × Request) := do
  let t ← c.plugins.amendWork t
  let t ← once fun _ => checked c.options.validation t
  let r ← readWork t
  c.plugins.observeWork (.parsed r)
  pure (t, r)

end

def renderWork {α : Type} (c : Compiler) (q : QueryContext) (answer : Adapter → Except Failure α)
    (output : α → Output) : Work α :=
  match c.adapter q.adapter with
  | .error e => .done (.error e)
  | .ok a => do
    c.plugins.observeWork (.querying q)
    match answer a with
    | .error e => once fun _ => do
      Ledger.renderFailed
      throw e
    | .ok x =>
      once fun _ => Ledger.rendered
      c.plugins.observeWork (.queried q (output x))
      pure x

section

variable [Regex.Engine]

def compileWork (c : Compiler) (s : Surroundings) (o : Order) (t : Text) : Work Query := do
  let (_, r) ← c.prepareWork t
  c.renderWork (o.context (c.planOf r)) (answer s o (c.planOf r) Adapter.query) .query

theorem run_readWork (now : Nat) (t : Text) : (readWork t).run now = readCached now t := by
  funext l
  obtain ⟨_ | cache, metrics, calls⟩ := l
  · rfl
  · rw [readWork, Work.run_bind, Work.run_once, Action.bind_apply, lookUp, Action.bind_apply,
      Action.get_apply, readCached, Action.bind_apply, Action.get_apply]
    dsimp only
    generalize cache.get now t = found
    obtain ⟨_ | r, d⟩ := found
    · rfl
    · rfl

theorem run_prepareWork (c : Compiler) (s : Surroundings) (t : Text) :
    (c.prepareWork t).run s.now = c.prepare s t := by
  simp only [prepareWork, prepare, Work.run_bind, Work.run_once, Work.run_pure, run_readWork,
    Plugins.run_amendWork, Plugins.run_observeWork]

end

theorem run_renderWork {α : Type} (now : Nat) (c : Compiler) (q : QueryContext)
    (answer : Adapter → Except Failure α) (output : α → Output) :
    (c.renderWork q answer output).run now = c.render q answer output := by
  rw [renderWork, render]
  cases c.adapter q.adapter with
  | error m => rfl
  | ok a =>
    dsimp only
    cases answer a with
    | error m => simp only [Work.run_bind, Work.run_once, Plugins.run_observeWork]
    | ok x => simp only [Work.run_bind, Work.run_once, Work.run_pure, Plugins.run_observeWork]

/-- Without anything in between, the steps are those of compiling. -/
theorem run_compileWork [Regex.Engine] (c : Compiler) (s : Surroundings) (o : Order) (t : Text) :
    (c.compileWork s o t).run s.now = c.compileAction s o t := by
  simp only [compileWork, compileAction, queryOf, Work.run_bind, run_prepareWork, run_renderWork]

theorem lookUp_some (t : Text) (now : Nat) (cache : Cache Request) (m : Metrics)
    (calls : List HookCall) :
    ∃ m', lookUp t now ⟨some cache, m, calls⟩ =
      (.ok (cache.get now t).1, ⟨some (cache.get now t).2, m', calls⟩) := by
  rw [lookUp, Action.bind_apply, Action.get_apply]
  dsimp only
  generalize cache.get now t = found
  obtain ⟨_ | r, d⟩ := found
  · exact ⟨_, rfl⟩
  · exact ⟨_, rfl⟩

variable [Regex.Engine]

theorem lookUp_faithful (t : Text) (now : Nat) {l : Ledger} (hl : l.Faithful) :
    ∃ (found : Option Request) (l' : Ledger), lookUp t now l = (.ok found, l') ∧
      (∀ r, found = some r → r = Request.read t) ∧ l'.Faithful := by
  obtain ⟨_ | cache, metrics, calls⟩ := l
  · exact ⟨none, _, rfl, fun _ h => (nomatch h), hl⟩
  · obtain ⟨m', hlook⟩ := lookUp_some t now cache metrics calls
    refine ⟨_, _, hlook, fun r hr => ?_, ?_⟩
    · obtain ⟨time, hmem, -⟩ := Cache.mem_of_get hr
      exact hl cache rfl _ hmem
    · rintro _ ⟨⟩ e he
      exact hl cache rfl e ((Cache.get_sublist now t cache).subset he)

theorem gives_readAnew (t : Text) (now : Nat) :
    Action.Gives (readAnew t now) (.ok (Request.read t)) := by
  refine ⟨id, fun l hl => ?_⟩
  obtain ⟨_ | cache, metrics, calls⟩ := l
  · exact ⟨rfl, rfl, hl⟩
  · refine ⟨rfl, rfl, ?_⟩
    rintro _ ⟨⟩ e he
    rcases Cache.mem_insert he with he | rfl
    · exact hl cache rfl e he
    · rfl

/-- The text may be put in by others after it has been missed, so it is not known to be missing when
its request is. -/
theorem gives_readWork (t : Text) : (readWork t).Gives (.ok (Request.read t)) := by
  intro now l hl
  obtain ⟨found, l', hlook, hread, hl'⟩ := lookUp_faithful t now hl
  constructor
  · change (lookUp t now l).2.Faithful
    rwa [hlook]
  · change (Work.bind (.done (lookUp t now l).1) _).Gives _
    rw [hlook]
    cases found with
    | none => exact gives_once (gives_readAnew t)
    | some r => exact congrArg Except.ok (hread r rfl)

theorem gives_prepareWork (c : Compiler) (t : Text) : (c.prepareWork t).Gives (c.reading t) :=
  gives_bind (c.plugins.gives_amendWork t) fun _ _ =>
    gives_bind (gives_once fun _ => gives_checked c.options.validation _) fun _ _ =>
      gives_bind_ok (gives_readWork _)
        (gives_bind (c.plugins.gives_observeWork _) fun _ _ => rfl)

theorem gives_renderWork {α : Type} (c : Compiler) (q : QueryContext)
    (answer : Adapter → Except Failure α) (output : α → Output) :
    (c.renderWork q answer output).Gives (c.rendering q answer output) := by
  rw [renderWork, rendering]
  cases c.adapter q.adapter with
  | error m => exact rfl
  | ok a =>
    refine gives_bind (c.plugins.gives_observeWork (.querying q)) fun _ _ => ?_
    cases answer a with
    | error m =>
      exact gives_once fun _ =>
        Action.gives_bind_ok Ledger.gives_renderFailed (Action.gives_throw _)
    | ok x =>
      exact gives_bind_ok (gives_once fun _ => Ledger.gives_rendered)
        (gives_bind (c.plugins.gives_observeWork (.queried q (output x))) fun _ _ => rfl)

theorem gives_compileWork (c : Compiler) (s : Surroundings) (o : Order) (t : Text) :
    (c.compileWork s o t).Gives (c.compiling s o t) :=
  gives_bind (c.gives_prepareWork t) fun _ _ => c.gives_renderWork ..

end Compiler

end FilterQuery
