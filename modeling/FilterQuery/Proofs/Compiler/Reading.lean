import FilterQuery.Compiler
import FilterQuery.Proofs.Cache
import FilterQuery.Proofs.Compiler.Ledger
set_option autoImplicit false

/-!
What the actions of a compiler give. Reading goes through the plugins, the validation and once more
the plugins, and gives the request that the text reads as, whether or not it comes from the cache.
-/

namespace FilterQuery

open FilterQuery.Action

def Validation.accepted (v : Validation) (t : Text) : Except Failure Text :=
  match v with
  | .off => .ok t
  | .strict =>
    match Diagnosis.first? t with
    | none => .ok t
    | some p => .error (.parse p)
  | .repair => (Text.repairChecked t).mapError .repair

namespace Compiler

section

variable [Regex.Engine]

theorem gives_checked (v : Validation) (t : Text) : Gives (checked v t) (v.accepted t) := by
  cases v with
  | off => exact gives_pure t
  | strict =>
    rw [checked, Validation.accepted]
    cases Diagnosis.first? t with
    | none => exact gives_pure t
    | some p => exact gives_bind_ok Ledger.gives_parseFailed (gives_throw _)
  | repair =>
    rw [checked, Validation.accepted]
    cases Text.repairChecked t with
    | error f => exact gives_bind_ok Ledger.gives_parseFailed (gives_throw _)
    | ok r =>
      change Gives (if r ≠ t then Ledger.repaired >>= fun _ => pure r else pure r) (.ok r)
      split
      · exact gives_bind_ok Ledger.gives_repaired (gives_pure r)
      · exact gives_pure r

/-- A request that is found is the one that its text reads as, and so is the one that is put in. -/
theorem gives_readCached (now : Nat) (t : Text) :
    Gives (readCached now t) (.ok (Request.read t)) := by
  refine ⟨id, fun l hl => ?_⟩
  rw [readCached, bind_apply, get_apply]
  dsimp only
  cases hcache : l.cache with
  | none => exact ⟨rfl, rfl, hl⟩
  | some c =>
    -- The lookup may drop an entry, so what the cache held is known of what it still holds.
    have hkept : ∀ e ∈ (c.get now t).2.entries, e.value = Request.read e.key :=
      fun e he => hl c hcache e ((Cache.get_sublist now t c).subset he)
    dsimp only
    rcases hfound : c.get now t with ⟨_ | r, d⟩
    · rw [hfound] at hkept
      refine ⟨rfl, rfl, ?_⟩
      rintro _ ⟨⟩ e he
      rcases Cache.mem_insert he with he | rfl
      · exact hkept e he
      · rfl
    · obtain ⟨time, hmem, -⟩ := Cache.mem_of_get (congrArg Prod.fst hfound)
      obtain rfl : r = Request.read t := hl c hcache _ hmem
      rw [hfound] at hkept
      refine ⟨rfl, rfl, ?_⟩
      rintro _ ⟨⟩ e he
      exact hkept e he

def reading (c : Compiler) (t : Text) : Except Failure (Text × Request) := do
  let t ← c.plugins.amended t
  let t ← c.options.validation.accepted t
  c.plugins.approved (.parsed (Request.read t))
  pure (t, Request.read t)

end

theorem ok_of_bind {α β : Type} {x : Except Failure α} {f : α → Except Failure β} {b : β}
    (h : (x >>= f) = .ok b) : ∃ a, x = .ok a ∧ f a = .ok b := by
  cases x with
  | error e => cases h
  | ok a => exact ⟨a, rfl, h⟩

theorem ok_of_reading [Regex.Engine] {c : Compiler} {t kept : Text} {r : Request}
    (h : c.reading t = .ok (kept, r)) :
    ∃ amended, c.plugins.amended t = .ok amended ∧
      c.options.validation.accepted amended = .ok kept ∧ r = Request.read kept := by
  obtain ⟨amended, hamended, h⟩ := ok_of_bind h
  obtain ⟨accepted, haccepted, h⟩ := ok_of_bind h
  obtain ⟨_, -, h⟩ := ok_of_bind h
  cases h
  exact ⟨amended, hamended, haccepted, rfl⟩

theorem gives_prepare [Regex.Engine] (c : Compiler) (s : Surroundings) (t : Text) :
    Gives (c.prepare s t) (c.reading t) :=
  gives_bind (c.plugins.gives_amend t) fun _ =>
    gives_bind (gives_checked c.options.validation _) fun _ =>
      gives_bind_ok (gives_readCached s.now _)
        (gives_bind (c.plugins.gives_observe _) fun _ => gives_pure _)

def rendering {α : Type} (c : Compiler) (q : QueryContext) (answer : Adapter → Except Failure α)
    (output : α → Output) : Except Failure α := do
  let a ← c.adapter q.adapter
  c.plugins.approved (.querying q)
  let x ← answer a
  c.plugins.approved (.queried q (output x))
  pure x

variable [Regex.Engine]

theorem gives_render {α : Type} (c : Compiler) (q : QueryContext)
    (answer : Adapter → Except Failure α) (output : α → Output) :
    Gives (c.render q answer output) (c.rendering q answer output) := by
  rw [render, rendering]
  cases c.adapter q.adapter with
  | error m => exact gives_throw _
  | ok a =>
    refine gives_bind (c.plugins.gives_observe (.querying q)) fun _ => ?_
    cases answer a with
    | error m => exact gives_bind_ok Ledger.gives_renderFailed (gives_throw _)
    | ok x =>
      exact gives_bind_ok Ledger.gives_rendered
        (gives_bind (c.plugins.gives_observe (.queried q (output x))) fun _ => gives_pure x)

def compiling (c : Compiler) (s : Surroundings) (o : Order) (t : Text) : Except Failure Query := do
  let (_, r) ← c.reading t
  c.rendering (o.context (c.planOf r)) (answer s o (c.planOf r) Adapter.query) .query

theorem gives_compileAction (c : Compiler) (s : Surroundings) (o : Order) (t : Text) :
    Gives (c.compileAction s o t) (c.compiling s o t) :=
  gives_bind (c.gives_prepare s t) fun _ => c.gives_render ..

end Compiler

end FilterQuery
