import FilterQuery.Proofs.Compiler.Contract
import FilterQuery.Proofs.Compiler.Lasting
set_option autoImplicit false

/-!
The counters of a compiler account for its calls. What each of them shows after a session is the
number of calls of one kind, told by the replies and by what the plugins, the validation and the
adapters say to each call.
-/

namespace FilterQuery.Compiler

open FilterQuery.Action

theorem faultsUnless_eq {α : Type} (refused : Bool) (x : Except Failure α) :
    faultsUnless refused x =
      Tick.parseError.only (!refused && (failureOf x).any Failure.isInvalid) +
        Tick.pluginError.only (!refused && (failureOf x).any Failure.isStop) := by
  cases refused with
  | true => simp [faultsUnless]
  | false =>
    cases x with
    | error e => rfl
    | ok y => simp [faultsUnless, failureOf]

def Reply.failure? : Reply → Option Failure
  | .request x => failureOf x
  | .query x => failureOf x
  | .text x => failureOf x
  | _ => none

/-- The operations of which an operation consists: a batch is one for each text that comes up. -/
def Operation.single : Operation → List Operation
  | .compileBatch o ts order => (order.filterMap (ts[·]?)).map (.compile o)
  | op => [op]

def Session.single (session : Session) : Session :=
  session.flatMap fun x => x.2.single.map fun op => (x.1, op)

def Operation.isBatch : Operation → Bool
  | .compileBatch _ _ _ => true
  | _ => false

theorem mem_single_cases {session : Session} {x : Surroundings × Operation}
    (hx : x ∈ session.single) :
    x ∈ session ∧ x.2.isBatch = false ∨ ∃ o t, x.2 = .compile o t := by
  obtain ⟨⟨s, op⟩, hmem, hop⟩ := List.mem_flatMap.1 hx
  obtain ⟨op', hop', rfl⟩ := List.mem_map.1 hop
  cases op with
  | compileBatch o ts order =>
    obtain ⟨t, -, rfl⟩ := List.mem_map.1 hop'
    exact .inr ⟨o, t, rfl⟩
  | _ =>
    cases List.mem_singleton.1 hop'
    exact .inl ⟨hmem, rfl⟩

theorem isBatch_of_mem_single (session : Session) :
    ∀ x ∈ session.single, x.2.isBatch = false := by
  intro x hx
  rcases mem_single_cases hx with ⟨-, hbatch⟩ | ⟨o, t, hcompile⟩
  · exact hbatch
  · rw [hcompile]
    rfl

theorem balanced_new (o : Options) : (new o).ledger.Balanced o.cache.isSome where
  cache := Option.isSome_map
  misses _ := rfl
  lookups _ := ⟨rfl, rfl⟩

section

variable [Regex.Engine]

structure Call where
  compiler : Compiler
  surroundings : Surroundings
  operation : Operation

namespace Call

def reply (x : Call) : Reply := (x.compiler.perform x.surroundings x.operation).1

def after (x : Call) : Compiler := (x.compiler.perform x.surroundings x.operation).2

def text? (x : Call) : Option Text :=
  match x.operation with
  | .parse t | .compile _ t => some t
  | _ => none

def query? (x : Call) : Option (Order × Plan) :=
  match x.operation with
  | .renderQuery o | .renderText o | .explain o => some (o, x.compiler.plan)
  | .compile o t =>
    match x.compiler.reading t with
    | .ok (_, r) => some (o, x.compiler.planOf r)
    | .error _ => none
  | _ => none

def refusal? (x : Call) : Option Failure :=
  x.query?.bind fun (o, p) =>
    match x.operation with
    | .renderText _ => x.compiler.refusal? (o.context p) (answer x.surroundings o p Adapter.text)
    | .explain _ =>
      x.compiler.refusal? (o.context p) (answer x.surroundings o p Adapter.explanation)
    | _ => x.compiler.refusal? (o.context p) (answer x.surroundings o p Adapter.query)

def isInvalid (x : Call) : Bool := x.reply.failure?.any Failure.isInvalid

def isStopped (x : Call) : Bool := x.reply.failure?.any Failure.isStop

def reads (x : Call) : Bool := x.text?.any fun t => (x.compiler.admitted t).isOk

def renders (x : Call) : Bool :=
  x.query?.any fun p => (x.compiler.served (p.1.context p.2)).isOk

def isRefused (x : Call) : Bool := x.refusal?.isSome

def shows : Tick → Call → Bool
  | .parseError => fun x => !x.isRefused && x.isInvalid
  | .pluginError => fun x => !x.isRefused && x.isStopped
  | .reading => reads
  | .rendering => renders
  | .renderError => isRefused

def tally (x : Call) : Tick → Nat :=
  Tick.parseError.only (!x.isRefused && x.isInvalid) +
    Tick.pluginError.only (!x.isRefused && x.isStopped) + Tick.reading.only x.reads +
      Tick.rendering.only x.renders + Tick.renderError.only x.isRefused

theorem tally_apply (x : Call) (k : Tick) : x.tally k = (shows k x).toNat := by
  cases k <;> simp [tally, shows, Tick.only_self, Tick.only_of_ne]

theorem sum_tally (xs : List Call) (k : Tick) : (xs.map tally).sum k = xs.countP (shows k) := by
  induction xs with
  | nil => rfl
  | cons x xs ih =>
    rw [List.map_cons, List.sum_cons, Pi.add_apply, ih, tally_apply, List.countP_cons]
    cases shows k x <;> simp [add_comm]

def Counted (x : Call) (cached : Bool) : Prop :=
  x.after.ledger.Balanced cached ∧ ∀ k, Shows (x.after.ledger.metrics.number k)
    (x.compiler.ledger.metrics.number k + x.tally k)

end Call

def calls (c : Compiler) : Session → List Call
  | [] => []
  | (s, op) :: session => ⟨c, s, op⟩ :: (c.perform s op).2.calls session

theorem after_append (c : Compiler) (first second : Session) :
    c.after (first ++ second) = (c.after first).after second := List.foldl_append

theorem after_single_operation (c : Compiler) (s : Surroundings) (op : Operation) :
    c.after (op.single.map fun op => (s, op)) = (c.perform s op).2 := by
  cases op with
  | compileBatch o ts order =>
    change _ = (c.compileArrivals s o ts order).2
    rw [Operation.single]
    -- the texts are compiled one after the other, in the order in which they come up
    induction order generalizing c with
    | nil => rfl
    | cons i is ih =>
      rw [compileArrivals]
      cases hi : ts[i]? with
      | none =>
        rw [List.filterMap_cons_none hi]
        exact ih c
      | some t =>
        rw [List.filterMap_cons_some hi]
        exact ih (c.compile s o t).2
  | _ => rfl

theorem after_single (c : Compiler) (session : Session) :
    c.after session.single = c.after session := by
  induction session generalizing c with
  | nil => rfl
  | cons x session ih =>
    change c.after (x.2.single.map (fun op => (x.1, op)) ++ Session.single session) = _
    rw [after_append, after_single_operation, ih]
    rfl

section

variable {cached : Bool} {x : Call}

theorem number_of_counts {α : Type} {a : Action α} {y : Except Failure α} {ρ : Tick → Nat}
    (hfaithful : x.compiler.ledger.Faithful) (hl : x.compiler.ledger.Balanced cached)
    (hgives : Gives a y) (hcounts : Counts a (faultsUnless x.isRefused y + ρ))
    (hledger : x.after.ledger = (a x.compiler.ledger).2)
    (hreply : x.reply.failure? = failureOf (a x.compiler.ledger).1)
    (hρ : ρ = Tick.reading.only x.reads + Tick.rendering.only x.renders +
      Tick.renderError.only x.isRefused) :
    x.Counted cached := by
  -- what the action gives is what the reply reports, so its failures show in the reply
  obtain ⟨w, hgives⟩ := hgives
  rw [(hgives _ hfaithful).1] at hreply
  have htally : faultsUnless x.isRefused y + ρ = x.tally := by
    rw [faultsUnless_eq, ← hreply, hρ, Call.tally, Call.isInvalid, Call.isStopped]
    simp only [add_assoc]
  rw [htally] at hcounts
  rw [Call.Counted, hledger]
  exact hcounts cached _ hfaithful hl

theorem number_of_silent (hl : x.compiler.ledger.Balanced cached)
    (hmetrics : x.after.ledger.metrics = x.compiler.ledger.metrics)
    (hcache : x.after.ledger.cache.isSome = x.compiler.ledger.cache.isSome)
    (htally : x.tally = 0) : x.Counted cached := by
  rw [Call.Counted, htally, hmetrics]
  exact ⟨⟨hcache.trans hl.cache, hmetrics ▸ hl.misses, hmetrics ▸ hl.lookups⟩, fun _ => .refl _⟩

theorem tally_of_silent (hreply : x.reply.failure? = none) (htext : x.text? = none)
    (hquery : x.query? = none) : x.tally = 0 := by
  simp [Call.tally, Call.isInvalid, Call.isStopped, Call.reads, Call.renders, Call.isRefused,
    Call.refusal?, hreply, htext, hquery]

end

theorem counts_compileAction (c : Compiler) (s : Surroundings) (o : Order) (t : Text) :
    Counts (c.compileAction s o t)
      (faultsUnless (⟨c, s, .compile o t⟩ : Call).isRefused (c.compiling s o t) +
        (Tick.reading.only (c.admitted t).isOk +
          Tick.rendering.only (⟨c, s, .compile o t⟩ : Call).renders +
            Tick.renderError.only (⟨c, s, .compile o t⟩ : Call).isRefused)) := by
  refine counts_bind (c.gives_prepare s t) (c.counts_prepare s t)
    (fun p _ => c.counts_render (o.context (c.planOf p.2))
      (answer s o (c.planOf p.2) Adapter.query) .query) ?_
  rw [compiling, Call.renders, Call.isRefused, Call.refusal?, Call.query?]
  rcases hreading : c.reading t with e | ⟨kept, r⟩
  · simp [hreading, faultsUnless]
  · simp [hreading, add_assoc, add_left_comm]

/-- What one call leaves in the ledger: the counters are still balanced, and show the call. -/
theorem number_call {cached : Bool} (x : Call) (hop : x.operation.isBatch = false)
    (hfaithful : x.compiler.ledger.Faithful) (hl : x.compiler.ledger.Balanced cached) :
    x.Counted cached := by
  obtain ⟨c, s, op⟩ := x
  cases op with
  | parse t =>
    refine number_of_counts hfaithful hl (c.gives_prepare s t) (c.counts_prepare s t) ?_ ?_ ?_
    · change (c.parse s t).2.ledger = (c.prepare s t c.ledger).2
      rw [parse_eq, run]
      rcases c.prepare s t c.ledger with ⟨e | ⟨kept, r⟩, l⟩ <;> rfl
    · change failureOf (c.parse s t).1 = failureOf (c.prepare s t c.ledger).1
      rw [parse_eq, run]
      rcases c.prepare s t c.ledger with ⟨e | ⟨kept, r⟩, l⟩ <;> rfl
    · simp [Call.reads, Call.renders, Call.isRefused, Call.refusal?, Call.text?, Call.query?]
  | compile o t =>
    exact number_of_counts hfaithful hl (c.gives_compileAction s o t)
      (c.counts_compileAction s o t) rfl rfl rfl
  | compileBatch o ts order => cases hop
  | renderQuery o | renderText o | explain o =>
    refine number_of_counts hfaithful hl (c.gives_render ..) (c.counts_render _ _ _) rfl rfl ?_
    simp [Call.reads, Call.renders, Call.isRefused, Call.refusal?, Call.text?, Call.query?]
  | close => exact number_of_silent hl rfl (Option.isSome_map ..) (tally_of_silent rfl rfl rfl)
  | wait since => exact number_of_silent hl rfl (Option.isSome_map ..) (tally_of_silent rfl rfl rfl)
  | reap => exact number_of_silent hl rfl (Option.isSome_map ..) (tally_of_silent rfl rfl rfl)
  | _ => exact number_of_silent hl rfl rfl (tally_of_silent rfl rfl rfl)

theorem number_calls {cached : Bool} {c : Compiler} (hfaithful : c.ledger.Faithful)
    (hl : c.ledger.Balanced cached) {session : Session}
    (hsession : ∀ x ∈ session, x.2.isBatch = false) :
    (c.after session).ledger.Balanced cached ∧
      ∀ k, Shows ((c.after session).ledger.metrics.number k)
        (c.ledger.metrics.number k + ((c.calls session).map Call.tally).sum k) := by
  induction session generalizing c with
  | nil => exact ⟨hl, fun _ => .refl _⟩
  | cons x session ih =>
    obtain ⟨s, op⟩ := x
    obtain ⟨hop, hsession⟩ := List.forall_mem_cons.1 hsession
    obtain ⟨hbalanced, hnumber⟩ := number_call ⟨c, s, op⟩ hop hfaithful hl
    obtain ⟨hbalanced', hnumber'⟩ := ih (faithful_perform hfaithful s op) hbalanced hsession
    refine ⟨hbalanced', fun k => ?_⟩
    rw [calls, List.map_cons, List.sum_cons, Pi.add_apply, ← Nat.add_assoc]
    exact (hnumber k).trans (hnumber' k)

/-- What every operation of a session keeps holds of the compiler of each of its calls. -/
theorem forall_mem_calls (P : Compiler → Prop) {c : Compiler} (hc : P c)
    {session : Session} (hstep : ∀ x ∈ session, ∀ c, P c → P (c.perform x.1 x.2).2) :
    ∀ x ∈ c.calls session, P x.compiler := by
  induction session generalizing c with
  | nil => exact fun _ hx => nomatch hx
  | cons y session ih =>
    obtain ⟨hy, hsession⟩ := List.forall_mem_cons.1 hstep
    exact List.forall_mem_cons.2 ⟨hc, ih (hy c hc) hsession⟩

theorem fst_run_of_gives {α : Type} {c : Compiler} (hc : c.ledger.Faithful) {a : Action α}
    {x : Except Failure α} (ha : Gives a x) : (c.run a).1 = x := by
  obtain ⟨w, ha⟩ := ha
  exact (ha _ hc).1

namespace Call

/-- The failure of an adapter is what the reply reports. -/
theorem failure?_of_refusal? {x : Call} (hfaithful : x.compiler.ledger.Faithful) {e : Failure}
    (h : x.refusal? = some e) : x.reply.failure? = some e := by
  obtain ⟨c, s, op⟩ := x
  have hrendered {α : Type} {q : QueryContext} {answer : Adapter → Except Failure α}
      (hrefusal : c.refusal? q answer = some e) (output : α → Output) :
      failureOf (c.run (c.render q answer output)).1 = some e := by
    rw [fst_run_of_gives hfaithful (c.gives_render q answer output),
      rendering_of_refusal? hrefusal]
    rfl
  cases op with
  | renderQuery o | renderText o | explain o => exact hrendered h _
  | compile o t =>
    change failureOf (c.run (c.compileAction s o t)).1 = some e
    rw [fst_run_of_gives hfaithful (c.gives_compileAction s o t), compiling]
    rw [refusal?, query?] at h
    rcases hreading : c.reading t with f | ⟨kept, r⟩ <;> simp only [hreading] at h
    · cases h
    · change failureOf (c.rendering _ _ _) = some e
      rw [rendering_of_refusal? h]
      rfl
  | _ => cases h

theorem mismatch_of_refusal? {x : Call} (hc : x.compiler.KeepsContract) {e : Failure}
    (h : x.refusal? = some e) : ∃ t, e = .mismatch t := by
  obtain ⟨⟨o, p⟩, -, h⟩ := Option.bind_eq_some_iff.1 h
  dsimp only at h
  split at h
  · exact Compiler.mismatch_of_refusal? hc (fun _ ha => ha.text) h
  · exact Compiler.mismatch_of_refusal? hc (fun _ ha => ha.explanation) h
  · exact Compiler.mismatch_of_refusal? hc (fun _ ha => ha.query) h

/-- A call that an adapter under contract refuses reports neither a text nor a plugin. -/
theorem not_isRefused {x : Call} (hfaithful : x.compiler.ledger.Faithful)
    (hc : x.compiler.KeepsContract) :
    (!x.isRefused && x.isInvalid) = x.isInvalid ∧ (!x.isRefused && x.isStopped) = x.isStopped := by
  cases h : x.refusal? with
  | none => simp [isRefused, h]
  | some e =>
    obtain ⟨t, rfl⟩ := mismatch_of_refusal? hc h
    simp [isRefused, isInvalid, isStopped, h, failure?_of_refusal? hfaithful h, Failure.isInvalid,
      Failure.isStop]

end Call

/-- After every session, whatever the plugins, the validation mode and the cache, the counters show
the numbers of calls of these kinds, each text of a batch being a call. The failures that adapters
answer with count as such only; of adapters that keep to their contract these are no failures of
another kind. -/
theorem metrics_after (o : Options) (session : Session) :
    let m := ((new o).after session).ledger.metrics
    let calls := (new o).calls session.single
    let number : (Call → Bool) → Nat := calls.countP
    (Shows m.parseErrors.toNat (number fun x => !x.isRefused && x.isInvalid) ∧
      Shows m.pluginErrors.toNat (number fun x => !x.isRefused && x.isStopped)) ∧
    ((∀ x ∈ session, ∀ name a, x.2 = .registerAdapter name a → a.KeepsContract) →
      Shows m.parseErrors.toNat (number Call.isInvalid) ∧
        Shows m.pluginErrors.toNat (number Call.isStopped)) ∧
    (if o.cache.isSome then
        Shows (m.cacheHits.toNat + m.cacheMisses.toNat) (number Call.reads) ∧
          m.parses = m.cacheMisses
      else m.cacheHits = 0 ∧ m.cacheMisses = 0 ∧ Shows m.parses.toNat (number Call.reads)) ∧
    Shows (m.renders.toNat + m.renderErrors.toNat) (number Call.renders) ∧
    Shows m.renderErrors.toNat (number Call.isRefused) ∧
    (calls.length < 2 ^ 64 → ∀ shown kind, Shows shown (number kind) → shown = number kind) := by
  intro m calls number
  obtain ⟨hbalanced, hnumber⟩ :=
    number_calls (faithful_new o) (balanced_new o) (isBatch_of_mem_single session)
  rw [after_single] at hbalanced hnumber
  have hshows (k : Tick) : Shows (m.number k) (number (Call.shows k)) := by
    have hzero : (new o).ledger.metrics.number k = 0 := by cases k <;> rfl
    have hk := hnumber k
    rwa [hzero, Nat.zero_add, Call.sum_tally] at hk
  refine ⟨⟨hshows .parseError, hshows .pluginError⟩, fun hkept => ?_, ?_, hshows .rendering,
    hshows .renderError, fun hlength shown kind h => ?_⟩
  · have hcalls : ∀ x ∈ calls, x.compiler.ledger.Faithful ∧ x.compiler.KeepsContract := by
      refine forall_mem_calls (fun c => c.ledger.Faithful ∧ c.KeepsContract)
        ⟨faithful_new o, keepsContract_new o⟩ fun x hx c hc =>
          ⟨faithful_perform hc.1 x.1 x.2, keepsContract_perform hc.2 x.1 fun name a hop => ?_⟩
      rcases mem_single_cases hx with ⟨hx, -⟩ | ⟨order, t, hcompile⟩
      · exact hkept x hx name a hop
      · cases hop.symm.trans hcompile
    have hown := fun x hx => Call.not_isRefused (hcalls x hx).1 (hcalls x hx).2
    constructor
    · refine (?_ : number _ = number Call.isInvalid) ▸ hshows .parseError
      exact List.countP_congr fun x hx => Bool.eq_iff_iff.1 (hown x hx).1
    · refine (?_ : number _ = number Call.isStopped) ▸ hshows .pluginError
      exact List.countP_congr fun x hx => Bool.eq_iff_iff.1 (hown x hx).2
  · have hreading : Shows (m.cacheHits.toNat + m.parses.toNat) (number Call.reads) :=
      hshows .reading
    split
    · next hcache =>
      have hmisses : m.cacheMisses = m.parses := hbalanced.misses hcache
      exact ⟨hmisses ▸ hreading, hmisses.symm⟩
    · next hcache =>
      obtain ⟨hhits, hmisses⟩ := hbalanced.lookups (Bool.eq_false_iff.2 hcache)
      rw [hhits, UInt64.toNat_zero, zero_add] at hreading
      exact ⟨hhits, hmisses, hreading⟩
  · exact h.eq_of_lt (Nat.lt_of_le_of_lt List.countP_le_length hlength)

end

/-- An adapter whose backend is down refuses a query that the SQL adapter answers, between two texts
of which one is not valid. -/
theorem metrics_after_outage :
    letI := Regex.Engine.words
    let down : Adapter := ⟨"down".toList, fun _ _ _ _ => .error (.mismatch "no backend".toList),
      fun _ _ _ _ => .error (.mismatch "no backend".toList),
      fun _ _ _ _ => .error (.mismatch "no backend".toList)⟩
    let order (name : Text) : Order := ⟨name, ⟨some ['t'], []⟩, none⟩
    let session : Session := [.registerAdapter down.name down, .parse "a=1 and".toList,
      .parse "a=1".toList, .renderQuery (order down.name), .compile (order "sql".toList) "a=1".toList,
      .renderText (order "mongo".toList)].map (⟨0, []⟩, ·)
    let o : Options := { Options.default with validation := .strict, cache := some .default }
    let m := ((new o).after session).ledger.metrics
    let calls := (new o).calls session.single
    (∀ x ∈ session, ∀ name a, x.2 = .registerAdapter name a → a.KeepsContract) ∧
      calls.length < 2 ^ 64 ∧
      m.parseErrors.toNat = calls.countP Call.isInvalid ∧ calls.countP Call.isInvalid = 1 ∧
      m.renderErrors.toNat = calls.countP Call.isRefused ∧ calls.countP Call.isRefused = 1 ∧
      m.renders.toNat + m.renderErrors.toNat = calls.countP Call.renders ∧
      calls.countP Call.renders = 2 := by
  intro down order session o m calls
  have hrefuses {α : Type} (t : Text) :
      Renderer.KeepsContract fun _ _ _ _ => (.error (.mismatch t) : Except Failure α) :=
    fun _ _ _ _ _ he => ⟨t, (Except.error.inj he).symm⟩
  have hdown : down.KeepsContract := ⟨hrefuses _, hrefuses _, hrefuses _⟩
  have hkept : ∀ x ∈ session, ∀ name a, x.2 = .registerAdapter name a → a.KeepsContract := by
    simpa [session] using hdown
  have hlength : calls.length < 2 ^ 64 := by decide +kernel
  obtain ⟨-, hown, -, hrenders, hrefused, hexact⟩ :=
    @metrics_after Regex.Engine.words o session
  have hinvalid := hexact hlength _ _ (hown hkept).1
  exact ⟨hkept, hlength, hinvalid, by decide +kernel, hexact hlength _ _ hrefused,
    by decide +kernel, hexact hlength _ _ hrenders, by decide +kernel⟩

end FilterQuery.Compiler
