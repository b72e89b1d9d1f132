import FilterQuery.Proofs.Compiler.Lasting
import FilterQuery.Proofs.Compiler.Work
set_option autoImplicit false

/-!
Batches. The units of a batch share the ledger of the compiler, and their steps may come in any
order, with the reaper in between. How many units run at once only rules out some of these orders,
and one unit after the other is always among the rest. Every unit comes to the result that compiling
its text alone has, and the results are gathered in the order of the texts, in whatever order they
arrive.
-/

namespace FilterQuery

namespace Batch

variable {ε α : Type}

theorem gather_eq {β : Type} {xs : List β} {arrived : List (Nat × Except (BatchFailure ε) α)}
    {f : Nat → β → Except (BatchFailure ε) α}
    (h : ∀ i x, xs[i]? = some x → arrived.lookup i = some (f i x)) :
    gather xs.length arrived = xs.mapIdx f := by
  rw [gather]
  refine List.ext_getElem (by simp) fun i hi hi' => ?_
  have hbound : i < xs.length := by simpa using hi'
  rw [List.getElem_map, List.getElem_range, List.getElem_mapIdx,
    h i _ (List.getElem?_eq_getElem hbound), Option.getD_some]

theorem lookup_map_of_mem (f : Nat → Except (BatchFailure ε) α) {is : List Nat} {i : Nat}
    (hi : i ∈ is) : (is.map fun i => (i, f i)).lookup i = some (f i) := by
  induction is with
  | nil => cases hi
  | cons j is ih =>
    rw [List.map_cons, List.lookup_cons]
    by_cases hj : i = j
    · simp [hj]
    · rw [beq_eq_false_iff_ne.2 hj]
      exact ih ((List.mem_cons.1 hi).resolve_left hj)

end Batch

def Work.isDone {α : Type} : Work α → Bool
  | .done _ => true
  | .step _ _ => false

theorem Work.exists_of_isDone {α : Type} {w : Work α} (h : w.isDone = true) : ∃ x, w = .done x := by
  cases w with
  | done x => exact ⟨x, rfl⟩
  | step => cases h

structure Pool where
  ledger : Ledger
  units : List (Work Query)

namespace Pool

/-- What happens next: a step of a unit, or the reaper comes. -/
inductive Event where
  | step (i : Nat) (now : Nat)
  | reap (now : Nat)

def perform (p : Pool) : Event → Pool
  | .step i now =>
    match p.units[i]? with
    | some (.step change next) => ⟨change now p.ledger, p.units.set i (next now p.ledger)⟩
    | _ => p
  | .reap now =>
    { p with ledger := { p.ledger with cache := p.ledger.cache.map (Cache.purge now) } }

def after (p : Pool) (events : List Event) : Pool := events.foldl perform p

theorem after_append (p : Pool) (es fs : List Event) : p.after (es ++ fs) = (p.after es).after fs :=
  List.foldl_append

def Finished (p : Pool) : Prop := ∀ w ∈ p.units, w.isDone = true

instance (p : Pool) : Decidable p.Finished :=
  inferInstanceAs (Decidable (∀ w ∈ p.units, w.isDone = true))

def outcome (p : Pool) (i : Nat) : UnitOutcome Failure Query :=
  match p.units[i]? with
  | some (.done (.ok q)) => .value q
  | some (.done (.error e)) => .failure e
  | _ => .panic

def results (p : Pool) (x : Executor) (durations : Nat → Nat) (finish : List Nat) :
    List (Except (BatchFailure Failure) Query) :=
  Batch.gather p.units.length (finish.map fun i => (i, x.result i ⟨durations i, p.outcome i⟩))

variable {p : Pool} {xs : List (Except Failure Query)}

section

variable [Regex.Engine]

structure Promises (p : Pool) (xs : List (Except Failure Query)) : Prop where
  faithful : p.ledger.Faithful
  length : p.units.length = xs.length
  gives : ∀ (i : Nat) (w : Work Query) (x : Except Failure Query),
    p.units[i]? = some w → xs[i]? = some x → w.Gives x

theorem Promises.perform (h : p.Promises xs) (e : Event) : (p.perform e).Promises xs := by
  cases e with
  | reap now => exact { h with faithful := h.faithful.map (Cache.purge_sublist now) }
  | step i now =>
    rw [Pool.perform]
    split
    · rename_i change next hunit
      have hbound : i < xs.length := h.length ▸ (List.getElem?_eq_some_iff.1 hunit).1
      have hgives := h.gives i _ _ hunit (List.getElem?_eq_getElem hbound)
      refine ⟨(hgives now p.ledger h.faithful).1, by rw [List.length_set, h.length], ?_⟩
      intro j w x hw hx
      by_cases hj : i = j
      · subst hj
        rw [List.getElem?_set_self (h.length ▸ hbound)] at hw
        cases hw
        rw [List.getElem?_eq_getElem hbound] at hx
        cases hx
        exact (hgives now p.ledger h.faithful).2
      · rw [List.getElem?_set_ne hj] at hw
        exact h.gives j w x hw hx
    · exact h

theorem Promises.after (h : p.Promises xs) (events : List Event) :
    (p.after events).Promises xs := by
  induction events generalizing p with
  | nil => exact h
  | cons e events ih => exact ih (h.perform e)

end

theorem length_perform (p : Pool) (e : Event) : (p.perform e).units.length = p.units.length := by
  cases e with
  | reap now => rfl
  | step i now =>
    rw [perform]
    split
    · exact List.length_set
    · rfl

theorem length_after (p : Pool) (events : List Event) :
    (p.after events).units.length = p.units.length := by
  induction events generalizing p with
  | nil => rfl
  | cons e events ih => exact (ih (p.perform e)).trans (p.length_perform e)

/-- A unit that only has to go on comes to its end, and the others stay where they are. -/
theorem exists_done (w : Work Query) {p : Pool} {i : Nat} (hw : p.units[i]? = some w) :
    ∃ events l x, p.after events = ⟨l, p.units.set i (.done x)⟩ := by
  induction w generalizing p with
  | done x =>
    obtain ⟨hbound, hdone⟩ := List.getElem?_eq_some_iff.1 hw
    refine ⟨[], p.ledger, x, ?_⟩
    rw [← hdone, List.set_getElem_self]
    rfl
  | step change next ih =>
    have hstep : p.perform (.step i 0) =
        ⟨change 0 p.ledger, p.units.set i (next 0 p.ledger)⟩ := by
      rw [Pool.perform, hw]
    have hnext : (p.perform (.step i 0)).units[i]? = some (next 0 p.ledger) := by
      rw [hstep]
      exact List.getElem?_set_self (List.getElem?_eq_some_iff.1 hw).1
    obtain ⟨events, l, x, hafter⟩ := ih 0 p.ledger hnext
    refine ⟨.step i 0 :: events, l, x, ?_⟩
    rw [Pool.after, List.foldl_cons]
    refine hafter.trans ?_
    rw [hstep, List.set_set]

theorem exists_done_below (p : Pool) (k : Nat) :
    ∃ events, ∀ i < k, ∀ w, (p.after events).units[i]? = some w → w.isDone = true := by
  induction k with
  | zero => exact ⟨[], fun i hi => absurd hi (Nat.not_lt_zero i)⟩
  | succ k ih =>
    obtain ⟨events, hdone⟩ := ih
    cases hk : (p.after events).units[k]? with
    | none =>
      refine ⟨events, fun i hi w hw => ?_⟩
      rcases Nat.lt_succ_iff_lt_or_eq.1 hi with hlt | rfl
      · exact hdone i hlt w hw
      · cases hk.symm.trans hw
    | some u =>
      obtain ⟨more, l, x, hafter⟩ := exists_done u hk
      refine ⟨events ++ more, fun i hi w hw => ?_⟩
      rw [after_append, hafter] at hw
      rcases Nat.lt_succ_iff_lt_or_eq.1 hi with hlt | rfl
      · rw [List.getElem?_set_ne (Nat.ne_of_gt hlt)] at hw
        exact hdone i hlt w hw
      · rw [List.getElem?_set_self (List.getElem?_eq_some_iff.1 hk).1] at hw
        cases hw
        rfl

theorem exists_finished (p : Pool) : ∃ events, (p.after events).Finished := by
  obtain ⟨events, hdone⟩ := p.exists_done_below p.units.length
  refine ⟨events, fun w hw => ?_⟩
  obtain ⟨i, hi, hunit⟩ := List.getElem_of_mem hw
  exact hdone i (length_after p events ▸ hi) w (List.getElem?_eq_some_iff.2 ⟨hi, hunit⟩)

/-- What arrives from a unit in time is what it has come to. -/
theorem Promises.result_eq [Regex.Engine] (h : p.Promises xs) (hfinished : p.Finished) {i : Nat}
    {r : Except Failure Query} (hr : xs[i]? = some r) {x : Executor} {duration : Nat}
    (htime : duration ≤ x.timeout) :
    x.result i ⟨duration, p.outcome i⟩ = Compiler.unitResult i r := by
  have hbound : i < p.units.length := h.length ▸ (List.getElem?_eq_some_iff.1 hr).1
  have hunit := List.getElem?_eq_getElem hbound
  obtain ⟨y, hy⟩ := Work.exists_of_isDone (hfinished _ (List.getElem_mem hbound))
  have hgives := h.gives i _ r hunit hr
  rw [hy] at hunit hgives
  cases hgives
  have hintime : ¬x.timeout < duration := Nat.not_lt.2 htime
  simp only [Executor.result, hintime, if_false, outcome, hunit]
  cases r <;> rfl

theorem Promises.results_eq [Regex.Engine] (h : p.Promises xs) (hfinished : p.Finished)
    {x : Executor} {durations : Nat → Nat} {finish : List Nat}
    (hfinish : finish.Perm (List.range xs.length))
    (htime : ∀ i < xs.length, durations i ≤ x.timeout) :
    p.results x durations finish = xs.mapIdx Compiler.unitResult := by
  rw [results, h.length]
  refine Batch.gather_eq fun i r hr => ?_
  have hbound : i < xs.length := (List.getElem?_eq_some_iff.1 hr).1
  rw [Batch.lookup_map_of_mem _ (hfinish.mem_iff.2 (List.mem_range.2 hbound)),
    h.result_eq hfinished hr (htime i hbound)]

end Pool

namespace Compiler

section

variable [Regex.Engine]

def pool (c : Compiler) (s : Surroundings) (o : Order) (ts : List Text) : Pool :=
  ⟨c.ledger, ts.map (c.compileWork s o)⟩

theorem promises_pool {c : Compiler} (hc : c.ledger.Faithful) (s : Surroundings) (o : Order)
    (ts : List Text) : (c.pool s o ts).Promises (ts.map (c.compiling s o)) := by
  refine ⟨hc, by simp [pool], fun i w x hw hx => ?_⟩
  rw [pool, List.getElem?_map] at hw
  rw [List.getElem?_map] at hx
  obtain ⟨t, ht, rfl⟩ := Option.map_eq_some_iff.1 hw
  rw [ht] at hx
  cases hx
  exact c.gives_compileWork s o t

theorem lookup_compileArrivals {c : Compiler} (hc : c.ledger.Faithful) (s : Surroundings)
    (o : Order) {ts : List Text} {i : Nat} {t : Text} (ht : ts[i]? = some t) {is : List Nat}
    (hi : i ∈ is) :
    (c.compileArrivals s o ts is).1.lookup i = some (unitResult i (c.compiling s o t)) := by
  induction is generalizing c with
  | nil => cases hi
  | cons j is ih =>
    rw [compileArrivals]
    by_cases hj : i = j
    · subst hj
      obtain ⟨l, -, hcompile⟩ := compile_eq_compiling hc s o t
      simp only [ht, hcompile, List.lookup_cons, beq_self_eq_true]
    · have hrest := (List.mem_cons.1 hi).resolve_left hj
      cases ts[j]? with
      | none => exact ih hc hrest
      | some u =>
        obtain ⟨l, hl, hcompile⟩ := compile_eq_compiling hc s o u
        simp only [hcompile, List.lookup_cons, beq_eq_false_iff_ne.2 hj]
        exact ih (c := c.withLedger l) hl hrest

theorem compileBatch_eq {c : Compiler} (hc : c.ledger.Faithful) (s : Surroundings) (o : Order)
    {ts : List Text} {is : List Nat} (his : is.Perm (List.range ts.length)) :
    (c.compileBatch s o ts is).1 = ts.mapIdx fun i t => unitResult i (c.compiling s o t) := by
  refine Batch.gather_eq fun i t ht => lookup_compileArrivals hc s o ht (his.mem_iff.2 ?_)
  exact List.mem_range.2 (List.getElem?_eq_some_iff.1 ht).1

end

theorem unitResult_eq_ok_iff {i : Nat} {r : Except Failure Query} {q : Query} :
    unitResult i r = .ok q ↔ r = .ok q := by
  cases r <;> simp [unitResult, Except.mapError]

theorem unitResult_eq_failed_iff {i : Nat} {r : Except Failure Query} {e : Failure} :
    unitResult i r = .error (.failed i e) ↔ r = .error e := by
  cases r <;> simp [unitResult, Except.mapError]

/-- From every state that a session can reach, a batch gives for every text what compiling it alone
gives, in the order of the texts, a failure with the index of its text. So it does if its units run
one after the other, in any order, and if their steps come in any order and at any times, until all
of them are done, which can always be; and in whatever order they finish, as long as each of them
takes no longer than it may. -/
theorem batch_eq_each [Regex.Engine] (o : Options) (session : Session) (s : Surroundings)
    (order : Order) (ts : List Text) :
    let c := (new o).after session
    let answers : List (Except (BatchFailure Failure) Query) :=
      ts.mapIdx fun i t => unitResult i (c.compile s order t).1
    (∀ t, (c.compileWork s order t).run s.now = c.compileAction s order t) ∧
      (∀ is : List Nat, is.Perm (List.range ts.length) →
        (c.compileBatch s order ts is).1 = answers) ∧
      (∀ events, ∃ more, ((c.pool s order ts).after (events ++ more)).Finished) ∧
      (∀ events x durations finish, ((c.pool s order ts).after events).Finished →
        finish.Perm (List.range ts.length) → (∀ i < ts.length, durations i ≤ x.timeout) →
        ((c.pool s order ts).after events).results x durations finish = answers) ∧
      answers.length = ts.length ∧
      ∀ (i : Nat) (t : Text), ts[i]? = some t →
        (∀ q, answers[i]? = some (Except.ok q) ↔ (c.compile s order t).1 = .ok q) ∧
        ∀ e, answers[i]? = some (Except.error (BatchFailure.failed i e)) ↔
          (c.compile s order t).1 = .error e := by
  intro c answers
  have hc : c.ledger.Faithful := faithful_after (faithful_new o) session
  have hcompile (t : Text) : (c.compile s order t).1 = c.compiling s order t := by
    obtain ⟨l, -, h⟩ := compile_eq_compiling hc s order t
    rw [h]
  have hanswers : answers = (ts.map (c.compiling s order)).mapIdx unitResult := by
    refine List.ext_getElem? fun i => ?_
    simp only [answers, hcompile, List.getElem?_mapIdx, List.getElem?_map, Option.map_map,
      Function.comp_def]
  refine ⟨c.run_compileWork s order, fun is his => ?_, fun events => ?_,
    fun events x durations finish hfinished hfinish htime => ?_, List.length_mapIdx,
    fun i t ht => ?_⟩
  · simp only [compileBatch_eq hc s order his, answers, hcompile]
  · obtain ⟨more, hmore⟩ := ((c.pool s order ts).after events).exists_finished
    exact ⟨more, (Pool.after_append _ events more).symm ▸ hmore⟩
  · rw [hanswers]
    have hlength : (ts.map (c.compiling s order)).length = ts.length := List.length_map _
    rw [← hlength] at hfinish htime
    exact ((promises_pool hc s order ts).after events).results_eq hfinished hfinish htime
  · have hanswer : answers[i]? = some (unitResult i (c.compile s order t).1) := by
      rw [List.getElem?_mapIdx, ht, Option.map_some]
    simp only [hanswer, Option.some.injEq, unitResult_eq_ok_iff, unitResult_eq_failed_iff,
      implies_true, and_self]

/-- Two units with one text take their steps in turn, so that both miss it in the cache before one
of them puts it in; a third fails in between. They finish in the opposite order. -/
theorem batch_eq_each_interleaved :
    letI := Regex.Engine.words
    let guard : Plugin :=
      ⟨['g'], ['1'], fun t => if t = ['x'] then .error "no".toList else .ok t, fun _ => .ok ()⟩
    let s : Surroundings := ⟨0, []⟩
    let o : Options := { Options.default with validation := .off, cache := some .default }
    let c := (new o).after [(s, .registerPlugin guard)]
    let order : Order := ⟨"sql".toList, ⟨some ['t'], []⟩, none⟩
    let ts := ["a=1".toList, ['x'], "a=1".toList]
    let events : List Pool.Event :=
      (List.range 8).flatMap fun now => [.step 0 now, .step 1 now, .step 2 now]
    let p := (c.pool s order ts).after events
    p.ledger.metrics.cacheMisses = 2 ∧ p.ledger.metrics.cacheHits = 0 ∧
      (p.results .default (fun _ => 0) [2, 1, 0])[1]? =
        some (.error (.failed 1 (.plugin ['g'] .beforeParse "no".toList))) ∧
      p.results .default (fun _ => 0) [2, 1, 0] =
        ts.mapIdx fun i t => unitResult i (c.compile s order t).1 := by
  let engine := Regex.Engine.words
  intro guard s o c order ts events p
  have hmisses : p.ledger.metrics.cacheMisses = 2 ∧ p.ledger.metrics.cacheHits = 0 := by
    decide +kernel
  have hfinished : p.Finished := by decide +kernel
  have hfinish : [2, 1, 0].Perm (List.range ts.length) := by decide
  have htime : ∀ i < ts.length, (fun _ => 0) i ≤ Executor.default.timeout :=
    fun _ _ => Nat.zero_le _
  obtain ⟨-, -, -, hresults, -, heach⟩ := batch_eq_each o [(s, .registerPlugin guard)] s order ts
  have hall := hresults events _ _ _ hfinished hfinish htime
  have hstopped : (c.compile s order ['x']).1 =
      .error (.plugin ['g'] .beforeParse "no".toList) := rfl
  refine ⟨hmisses.1, hmisses.2, ?_, hall⟩
  rw [hall]
  exact ((heach 1 ['x'] rfl).2 _).2 hstopped

end Compiler

end FilterQuery
