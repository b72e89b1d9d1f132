import FilterQuery.Proofs.Compiler.Session
set_option autoImplicit false

/-!
What lasts. Reading keeps the text and its request if every plugin and the validation let them
through, and nothing otherwise. Compiling, batches and rendering keep nothing at all. So a session
leaves what its changes and its successful readings leave.
-/

namespace FilterQuery.Compiler

def withLedger (c : Compiler) (l : Ledger) : Compiler := { c with ledger := l }

section

variable [Regex.Engine]

theorem run_of_gives {α : Type} {c : Compiler} (hc : c.ledger.Faithful) {a : Action α}
    {x : Except Failure α} (ha : Action.Gives a x) :
    ∃ l : Ledger, l.Faithful ∧ c.run a = (x, c.withLedger l) := by
  obtain ⟨w, ha⟩ := ha
  obtain ⟨hresult, -, hfaithful⟩ := ha c.ledger hc
  exact ⟨(a c.ledger).2, hfaithful, Prod.ext hresult rfl⟩

theorem parse_eq_reading {c : Compiler} (hc : c.ledger.Faithful) (s : Surroundings) (t : Text) :
    ∃ l : Ledger, l.Faithful ∧
      c.parse s t =
        match c.reading t with
        | .ok (kept, r) => (.ok r, (c.withLedger l).keep kept r)
        | .error e => (.error e, c.withLedger l) := by
  obtain ⟨l, hl, hrun⟩ := run_of_gives hc (c.gives_prepare s t)
  refine ⟨l, hl, ?_⟩
  rw [parse_eq, hrun]
  rcases c.reading t with e | ⟨kept, r⟩ <;> rfl

theorem parse_result {c : Compiler} (hc : c.ledger.Faithful) (s : Surroundings) (t : Text) :
    (c.parse s t).1 = (c.reading t).map Prod.snd := by
  obtain ⟨l, -, hparse⟩ := parse_eq_reading hc s t
  rw [hparse]
  rcases c.reading t with e | p <;> rfl

theorem parse_state {c : Compiler} (hc : c.ledger.Faithful) (s : Surroundings) (t : Text) :
    (c.parse s t).2.state =
      match c.reading t with
      | .ok (kept, r) => { c.state with text := kept, request := r }
      | .error _ => c.state := by
  obtain ⟨l, -, hparse⟩ := parse_eq_reading hc s t
  rw [hparse]
  rcases c.reading t with e | p <;> rfl

theorem compile_eq_compiling {c : Compiler} (hc : c.ledger.Faithful) (s : Surroundings) (o : Order)
    (t : Text) :
    ∃ l : Ledger, l.Faithful ∧ c.compile s o t = (c.compiling s o t, c.withLedger l) :=
  run_of_gives hc (c.gives_compileAction s o t)

theorem compileArrivals_withLedger {c : Compiler} (hc : c.ledger.Faithful) (s : Surroundings)
    (o : Order) (ts : List Text) (order : List Nat) :
    ∃ l : Ledger, l.Faithful ∧ (c.compileArrivals s o ts order).2 = c.withLedger l := by
  induction order generalizing c with
  | nil => exact ⟨c.ledger, hc, rfl⟩
  | cons i is ih =>
    rw [compileArrivals]
    cases ts[i]? with
    | none => exact ih hc
    | some t =>
      obtain ⟨l, hl, hcompile⟩ := compile_eq_compiling hc s o t
      obtain ⟨l', hl', hrest⟩ := ih (c := c.withLedger l) hl
      simp only [hcompile]
      exact ⟨l', hl', hrest⟩

end

/-- Whether an operation with this reply is to last: a change, or a reading that has succeeded. -/
def Operation.lasts : Operation → Reply → Bool
  | .parse _, .request (.error _) => false
  | .compile _ _, _ | .compileBatch _ _ _, _ | .renderQuery _, _ | .renderText _, _
  | .explain _, _ | .plan, _ => false
  | _, _ => true

section

variable [Regex.Engine]

/-- An operation that is not to last leaves everything but the ledger. -/
theorem perform_of_not_lasts {c : Compiler} (hc : c.ledger.Faithful) {s : Surroundings}
    {op : Operation} (h : op.lasts (c.perform s op).1 = false) :
    ∃ l : Ledger, l.Faithful ∧ (c.perform s op).2 = c.withLedger l := by
  cases op with
  | parse t =>
    obtain ⟨l, hl, hparse⟩ := parse_eq_reading hc s t
    rw [perform, hparse] at h ⊢
    cases hreading : c.reading t with
    | error e => exact ⟨l, hl, rfl⟩
    | ok p =>
      rw [hreading] at h
      cases h
  | compile o t =>
    obtain ⟨l, hl, hcompile⟩ := compile_eq_compiling hc s o t
    exact ⟨l, hl, congrArg Prod.snd hcompile⟩
  | compileBatch o ts order => exact compileArrivals_withLedger hc s o ts order
  | renderQuery _ | renderText _ | explain _ =>
    obtain ⟨l, hl, hrun⟩ := run_of_gives hc (c.gives_render _ _ _)
    exact ⟨l, hl, congrArg Prod.snd hrun⟩
  | plan => exact ⟨c.ledger, hc, rfl⟩
  | _ => cases h

def lasting (c : Compiler) : Session → Session
  | [] => []
  | (s, op) :: session =>
    let rest := (c.perform s op).2.lasting session
    if op.lasts (c.perform s op).1 then (s, op) :: rest else rest

theorem alike_after_lasting {c d : Compiler} (h : Alike c d) (session : Session) :
    Alike (c.after session) (d.after (c.lasting session)) := by
  induction session generalizing c d with
  | nil => exact h
  | cons x session ih =>
    obtain ⟨s, op⟩ := x
    rw [lasting]
    cases hlasts : op.lasts (c.perform s op).1 with
    | true => exact ih (h.perform s op).2.1
    | false =>
      -- Only the first compiler has moved, and not in what has to be alike.
      obtain ⟨l, hl, hperform⟩ := perform_of_not_lasts h.faithful.1 hlasts
      have halike : Alike (c.perform s op).2 d := by
        rw [hperform]
        exact { h with faithful := ⟨hl, h.faithful.2⟩ }
      exact ih halike

/-- In every state that a session can reach, reading keeps the text that the plugins and the
validation have made of the given one, and the request that it gives, and nothing if one of them
stops it. Compiling, batches and rendering leave the state in any case. So the state is the one that
the lasting operations of the session leave. -/
theorem state_of_failure (o : Options) (session : Session) (s : Surroundings) :
    let c := (new o).after session
    (∀ t, (c.parse s t).1 = (c.reading t).map Prod.snd) ∧
      (∀ t e, (c.parse s t).1 = .error e → (c.parse s t).2.state = c.state) ∧
      (∀ t r, (c.parse s t).1 = .ok r → ∃ amended kept,
        c.plugins.amended t = .ok amended ∧ c.options.validation.accepted amended = .ok kept ∧
        (c.parse s t).2.state = { c.state with text := kept, request := r }) ∧
      (∀ order t, (c.compile s order t).2.state = c.state) ∧
      (∀ order ts is, (c.compileBatch s order ts is).2.state = c.state) ∧
      (∀ order, (c.renderQuery s order).2.state = c.state ∧
        (c.renderText s order).2.state = c.state ∧ (c.explain s order).2.state = c.state) ∧
      c.state = ((new o).after ((new o).lasting session)).state := by
  intro c
  have hc : c.ledger.Faithful := faithful_after (faithful_new o) session
  refine ⟨parse_result hc s, fun t e herror => ?_, fun t r hok => ?_, fun _ _ => rfl,
    fun order ts is => ?_, fun _ => ⟨rfl, rfl, rfl⟩, ?_⟩
  · rw [parse_result hc] at herror
    rw [parse_state hc]
    cases hreading : c.reading t with
    | error e => rfl
    | ok p => rw [hreading] at herror; cases herror
  · rw [parse_result hc] at hok
    rw [parse_state hc]
    rcases hreading : c.reading t with e | ⟨kept, r'⟩ <;> rw [hreading] at hok
    · cases hok
    · cases hok
      obtain ⟨amended, hamended, haccepted, -⟩ := ok_of_reading hreading
      exact ⟨amended, kept, hamended, haccepted, rfl⟩
  · obtain ⟨l, -, h⟩ := compileArrivals_withLedger hc s order ts is
    change (c.compileArrivals s order ts is).2.state = c.state
    rw [h]
    rfl
  · exact (alike_after_lasting (Alike.refl (faithful_new o)) session).state

end

/-- A plugin stops a text after it has been read. -/
theorem state_of_failure_veto :
    letI := Regex.Engine.words
    let veto : Plugin := ⟨['v'], ['1'], .ok, fun o =>
      match o with
      | .parsed _ => .error "no".toList
      | _ => .ok ()⟩
    let s : Surroundings := ⟨0, []⟩
    let c := (new { Options.default with validation := .off }).after [(s, .registerPlugin veto)]
    (c.parse s "a=1".toList).1 = .error (.plugin ['v'] .afterParse "no".toList) ∧
      (c.parse s "a=1".toList).2.state = c.state := by
  let engine := Regex.Engine.words
  intro veto s c
  obtain ⟨hresult, herror, -⟩ :=
    state_of_failure { Options.default with validation := .off } [(s, .registerPlugin veto)] s
  have hveto := (hresult "a=1".toList).trans rfl
  exact ⟨hveto, herror _ _ hveto⟩

end FilterQuery.Compiler
