import FilterQuery.Proofs.Compiler.Counting
import FilterQuery.Proofs.Compiler.Session
set_option autoImplicit false

/-!
Adapters that keep to their contract, by which an adapter that cannot render what it is asked fails
with a mismatch. Those at hand do, so in a session that registers no other ones every compiler has
such adapters only, and no query is refused with the failure of a text or of a plugin.
-/

namespace FilterQuery

def Renderer.KeepsContract {α : Type} (r : Renderer α) : Prop :=
  ∀ shared p target parts e, r shared p target parts = .error e → ∃ t, e = .mismatch t

structure Adapter.KeepsContract (a : Adapter) : Prop where
  text : a.text.KeepsContract
  query : a.query.KeepsContract
  explanation : a.explanation.KeepsContract

namespace Renderer.KeepsContract

variable {α β : Type} {r : Renderer α}

theorem map (h : r.KeepsContract) (f : α → β) :
    Renderer.KeepsContract fun shared p target parts => (r shared p target parts).map f := by
  intro shared p target parts e he
  refine h shared p target parts e ?_
  cases hr : r shared p target parts with
  | error e' =>
    simp only [hr, Except.map] at he
    exact congrArg Except.error (Except.error.inj he)
  | ok x =>
    simp only [hr, Except.map] at he
    cases he

theorem statement (d : Sql.Dialect) (own : Option Text) :
    (Adapter.statement d own).KeepsContract := by
  intro shared p target parts e he
  rw [Adapter.statement] at he
  split at he
  · cases he
  · exact ⟨_, (Except.error.inj he).symm⟩

theorem documents : Adapter.documents.KeepsContract := by
  intro shared p target parts e he
  rw [Adapter.documents] at he
  split at he
  · cases he
  · exact ⟨_, (Except.error.inj he).symm⟩

end Renderer.KeepsContract

namespace Adapter

theorem keepsContract_sql (name : Text) (d : Sql.Dialect) (own : Option Text) :
    (sql name d own).KeepsContract where
  text := (Renderer.KeepsContract.statement d own).map _
  query := .statement d own
  explanation := (Renderer.KeepsContract.statement d own).map _

theorem keepsContract_document : document.KeepsContract where
  text := Renderer.KeepsContract.documents.map _
  query := .documents
  explanation := Renderer.KeepsContract.documents.map _

end Adapter

namespace Compiler

def KeepsContract (c : Compiler) : Prop := ∀ p ∈ c.adapters, p.2.KeepsContract

theorem keepsContract_new (o : Options) : (new o).KeepsContract := by
  simp [KeepsContract, new, builtinAdapters, Adapter.keepsContract_sql,
    Adapter.keepsContract_document]

theorem snd_mem_insertAdapter {name : Text} {a : Adapter} {as : List (Text × Adapter)}
    {p : Text × Adapter} (h : p ∈ insertAdapter name a as) : p ∈ as ∨ p.2 = a := by
  induction as with
  | nil => exact .inr (congrArg Prod.snd (List.mem_singleton.1 h))
  | cons q as ih =>
    rw [insertAdapter] at h
    split at h
    · rcases List.mem_cons.1 h with rfl | h
      · exact .inr rfl
      · exact .inl (List.mem_cons_of_mem _ h)
    · rcases List.mem_cons.1 h with rfl | h
      · exact .inl (List.mem_cons_self ..)
      · exact (ih h).imp_left (List.mem_cons_of_mem _)

section

variable [Regex.Engine]

theorem adapters_parse (c : Compiler) (s : Surroundings) (t : Text) :
    (c.parse s t).2.adapters = c.adapters := by
  rw [parse_eq, run]
  rcases c.prepare s t c.ledger with ⟨e | ⟨kept, r⟩, l⟩ <;> rfl

theorem adapters_compileArrivals (c : Compiler) (s : Surroundings) (o : Order) (ts : List Text)
    (is : List Nat) : (c.compileArrivals s o ts is).2.adapters = c.adapters := by
  induction is generalizing c with
  | nil => rfl
  | cons i is ih =>
    rw [compileArrivals]
    cases ts[i]? with
    | none => exact ih c
    | some t => exact ih (c.compile s o t).2

/-- Only registering changes what adapters there are. -/
theorem keepsContract_perform {c : Compiler} (hc : c.KeepsContract) (s : Surroundings)
    {op : Operation} (hop : ∀ name a, op = .registerAdapter name a → a.KeepsContract) :
    (c.perform s op).2.KeepsContract := by
  cases op with
  | registerAdapter name a =>
    intro p hp
    rcases snd_mem_insertAdapter hp with hp | hp
    · exact hc p hp
    · exact hp ▸ hop name a rfl
  | parse t =>
    intro p hp
    exact hc p (adapters_parse c s t ▸ hp)
  | compileBatch o ts is =>
    intro p hp
    exact hc p (adapters_compileArrivals c s o ts is ▸ hp)
  | _ => exact hc

end

theorem exists_mem_of_adapter {c : Compiler} {name : Text} {a : Adapter}
    (h : c.adapter name = .ok a) : ∃ n, (n, a) ∈ c.adapters := by
  have hlookup {n : Text} (hn : c.adapters.lookup n = some a) : ∃ n, (n, a) ∈ c.adapters := by
    obtain ⟨before, behind, hsplit, -⟩ := List.lookup_eq_some_iff.1 hn
    exact ⟨n, by simp [hsplit]⟩
  rw [adapter] at h
  split at h
  · next hfound =>
    cases h
    rcases Option.or_eq_some_iff.1 hfound with hn | ⟨-, hn⟩
    · exact hlookup hn
    · exact hlookup hn
  · cases h

/-- A query that an adapter under contract refuses is refused with a mismatch. -/
theorem mismatch_of_refusal? {α : Type} {c : Compiler} (hc : c.KeepsContract) {q : QueryContext}
    {s : Surroundings} {o : Order} {p : Plan} {renderer : Adapter → Renderer α}
    (hrenderer : ∀ a : Adapter, a.KeepsContract → (renderer a).KeepsContract) {e : Failure}
    (h : c.refusal? q (answer s o p renderer) = some e) : ∃ t, e = .mismatch t := by
  obtain ⟨a, hadapter, -, hanswer⟩ := exists_of_refusal? h
  obtain ⟨n, hmem⟩ := exists_mem_of_adapter hadapter
  exact hrenderer a (hc _ hmem) _ _ _ _ e hanswer

end Compiler

end FilterQuery
