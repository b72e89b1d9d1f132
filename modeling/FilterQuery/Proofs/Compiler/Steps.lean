import FilterQuery.Compiler
import FilterQuery.Proofs.Compiler.Ledger
set_option autoImplicit false

/-!
Compiling at once and in two steps. An action writes nothing of a compiler but the ledger, and a
query depends on the field lists, the adapters and the plugins alone. So neither the query nor the
ledger tells whether the request was kept before it was rendered.
-/

namespace FilterQuery.Compiler

theorem snd_run {α : Type} (c : Compiler) (a : Action α) :
    (c.run a).2 = { c with ledger := (c.run a).2.ledger } := rfl

/-- Actions run one after the other; the second is not run when the first fails. -/
theorem run_bind {α β : Type} (c : Compiler) (a : Action α) (f : α → Action β) :
    c.run (a >>= f) =
      match c.run a with
      | (.ok x, c) => c.run (f x)
      | (.error e, c) => (.error e, c) := by
  rw [run, run, Action.bind_apply]
  rcases a c.ledger with ⟨_ | x, l⟩ <;> rfl

def keep (t : Text) (r : Request) (c : Compiler) : Compiler :=
  c.modifyState fun st => { st with text := t, request := r }

theorem plan_keep (t : Text) (r : Request) (c : Compiler) : (c.keep t r).plan = c.planOf r := rfl

/-- Rendering does not see which text and request are kept. -/
theorem run_render_keep {α : Type} (t : Text) (r : Request) (c : Compiler) (q : QueryContext)
    (answer : Adapter → Except Failure α) (output : α → Output) :
    (c.keep t r).run ((c.keep t r).render q answer output) =
      Prod.map id (keep t r) (c.run (c.render q answer output)) := rfl

variable [Regex.Engine]

/-- Reads and keeps a text, and then renders its query, which may be at a later time. -/
def parseAndRender (c : Compiler) (s : Surroundings) (later : Nat) (o : Order) (t : Text) :
    Except Failure Query × Compiler :=
  match c.parse s t with
  | (.ok _, c) => c.renderQuery { s with now := later } o
  | (.error e, c) => (.error e, c)

theorem parse_eq (c : Compiler) (s : Surroundings) (t : Text) :
    c.parse s t =
      match c.run (c.prepare s t) with
      | (.ok (t, r), c) => (.ok r, c.keep t r)
      | (.error e, c) => (.error e, c) := rfl

/-- Compiling at once gives the query or the failure of the two steps and writes the same ledger:
the same calls of hooks, the same counters and the same cache. It leaves the rest as it was. -/
theorem compile_eq_parseAndRender (c : Compiler) (s : Surroundings) (later : Nat) (o : Order)
    (t : Text) :
    c.compile s o t =
      ((c.parseAndRender s later o t).1,
        { c with ledger := (c.parseAndRender s later o t).2.ledger }) := by
  rw [compile, compileAction, run_bind, parseAndRender, parse_eq]
  cases hprepare : c.run (c.prepare s t) with
  | mk result c' =>
    have hkept : c' = { c with ledger := c'.ledger } := by
      simpa only [hprepare] using snd_run c (c.prepare s t)
    cases result with
    | error e => exact Prod.ext rfl hkept
    | ok p =>
      obtain ⟨t', r⟩ := p
      have hrender : (c'.keep t' r).renderQuery { s with now := later } o =
          Prod.map id (keep t' r) (c'.run (c'.queryOf s o (c'.planOf r))) := by
        rw [renderQuery, plan_keep]
        exact run_render_keep t' r c' ..
      simp only [hrender]
      rw [hkept]
      rfl

end FilterQuery.Compiler
