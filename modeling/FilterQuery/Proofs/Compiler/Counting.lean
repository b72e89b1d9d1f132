import Mathlib.Algebra.Group.Basic
import Mathlib.Algebra.Group.Pi.Basic
import Mathlib.Algebra.GroupWithZero.Nat
import FilterQuery.Proofs.Compiler.Reading
set_option autoImplicit false

/-!
What the actions of a compiler count. A text that is not let in and a plugin that stops the work
are counted once, where they arise. Every text that is let in counts as a reading, whether or not it
comes from the cache, and every query that reaches its adapter counts as a rendering; what an adapter
fails with is not looked into.
-/

namespace FilterQuery

inductive Tick where
  | parseError
  | pluginError
  | reading
  | rendering
  | renderError
  deriving DecidableEq

namespace Tick

def only (k : Tick) (b : Bool) (j : Tick) : Nat := if b ∧ j = k then 1 else 0

@[simp] theorem only_false (k : Tick) : k.only false = 0 := by
  funext j
  simp [only]

theorem only_self (k : Tick) (b : Bool) : k.only b k = b.toNat := by cases b <;> simp [only]

theorem only_of_ne {j k : Tick} (h : j ≠ k) (b : Bool) : k.only b j = 0 := by simp [only, h]

end Tick

/-- What counters of 64 bits show of what has been counted: all but the rounds that they have
made. -/
def Shows (shown counted : Nat) : Prop := ∃ rounds, counted = shown + rounds * 2 ^ 64

namespace Shows

theorem refl (n : Nat) : Shows n n := ⟨0, by simp⟩

theorem eq_of_lt {shown counted : Nat} (h : Shows shown counted) (hlt : counted < 2 ^ 64) :
    shown = counted := by
  obtain ⟨rounds, rfl⟩ := h
  obtain rfl : rounds = 0 := by omega
  simp

/-- What is counted next is counted on. -/
theorem trans {shown shown' counted n : Nat} (h : Shows shown counted)
    (h' : Shows shown' (shown + n)) : Shows shown' (counted + n) := by
  obtain ⟨rounds, rfl⟩ := h
  obtain ⟨rounds', h'⟩ := h'
  exact ⟨rounds + rounds', by rw [Nat.add_right_comm, h', Nat.add_mul]; omega⟩

theorem add_right {shown counted : Nat} (h : Shows shown counted) (n : Nat) :
    Shows (shown + n) (counted + n) := by
  obtain ⟨rounds, rfl⟩ := h
  exact ⟨rounds, Nat.add_right_comm ..⟩

theorem add_left {shown counted : Nat} (h : Shows shown counted) (n : Nat) :
    Shows (n + shown) (n + counted) := by
  simpa only [Nat.add_comm n] using h.add_right n

theorem succ (x : UInt64) : Shows (x + 1).toNat (x.toNat + 1) := by
  rw [UInt64.toNat_add, UInt64.toNat_one]
  exact ⟨(x.toNat + 1) / 2 ^ 64, (Nat.mod_add_div' ..).symm⟩

end Shows

/-- How often a tick has been counted, as far as that shows. A reading is found in the cache or made,
and a rendering succeeds or fails. -/
def Metrics.number (m : Metrics) : Tick → Nat
  | .parseError => m.parseErrors.toNat
  | .pluginError => m.pluginErrors.toNat
  | .reading => m.cacheHits.toNat + m.parses.toNat
  | .rendering => m.renders.toNat + m.renderErrors.toNat
  | .renderError => m.renderErrors.toNat

/-- With a cache a text is missed whenever it is read, without one nothing is looked up. -/
structure Ledger.Balanced (cached : Bool) (l : Ledger) : Prop where
  cache : l.cache.isSome = cached
  misses : cached = true → l.metrics.cacheMisses = l.metrics.parses
  lookups : cached = false → l.metrics.cacheHits = 0 ∧ l.metrics.cacheMisses = 0

namespace Failure

def isInvalid : Failure → Bool
  | .parse _ | .repair _ => true
  | _ => false

def isStop : Failure → Bool
  | .plugin _ _ _ => true
  | _ => false

def tally (e : Failure) : Tick → Nat :=
  Tick.parseError.only e.isInvalid + Tick.pluginError.only e.isStop

@[simp] theorem tally_parse (p : Problem) : (parse p).tally = Tick.parseError.only true := by
  simp [tally, isInvalid, isStop]

@[simp] theorem tally_repair (f : RepairFailure) :
    (repair f).tally = Tick.parseError.only true := by
  simp [tally, isInvalid, isStop]

@[simp] theorem tally_plugin (name : Text) (s : Stage) (cause : Text) :
    (plugin name s cause).tally = Tick.pluginError.only true := by
  simp [tally, isInvalid, isStop]

@[simp] theorem tally_mismatch (t : Text) : (mismatch t).tally = 0 := by
  simp [tally, isInvalid, isStop]

@[simp] theorem tally_unknownAdapter (name : Text) : (unknownAdapter name).tally = 0 :=
  tally_mismatch _

end Failure

namespace Action

variable {α β : Type}

def failureOf (x : Except Failure α) : Option Failure :=
  match x with
  | .ok _ => none
  | .error e => some e

def faults (x : Except Failure α) : Tick → Nat :=
  match x with
  | .ok _ => 0
  | .error e => e.tally

/-- What a result counts unless it is the one that an adapter has failed with. -/
def faultsUnless (refused : Bool) (x : Except Failure α) : Tick → Nat :=
  if refused then 0 else faults x

def behind (x : Except Failure α) (σ : α → Tick → Nat) : Tick → Nat :=
  match x with
  | .ok y => σ y
  | .error _ => 0

@[simp] theorem faults_ok (y : α) : faults (.ok y : Except Failure α) = 0 := rfl

@[simp] theorem faults_error (e : Failure) : faults (.error e : Except Failure α) = e.tally := rfl

@[simp] theorem behind_ok (y : α) (σ : α → Tick → Nat) : behind (.ok y) σ = σ y := rfl

@[simp] theorem behind_error (e : Failure) (σ : α → Tick → Nat) : behind (.error e) σ = 0 := rfl

theorem faults_bind (x : Except Failure α) (g : α → Except Failure β) :
    faults (x >>= g) = faults x + behind x fun y => faults (g y) := by
  cases x with
  | error e => rfl
  | ok y => exact (zero_add _).symm

@[simp] theorem ok_bind (y : α) (g : α → Except Failure β) : (.ok y >>= g) = g y := rfl

@[simp] theorem error_bind (e : Failure) (g : α → Except Failure β) :
    (.error e >>= g) = .error e := rfl

@[simp] theorem isOk_ok {ε : Type} (y : α) : (.ok y : Except ε α).isOk = true := rfl

@[simp] theorem isOk_error {ε : Type} (e : ε) : (.error e : Except ε α).isOk = false := rfl

variable [Regex.Engine]

/-- An action on a ledger that is faithful and balanced leaves it balanced, and counts as given. -/
def Counts (a : Action α) (τ : Tick → Nat) : Prop :=
  ∀ (cached : Bool) (l : Ledger), l.Faithful → l.Balanced cached →
    (a l).2.Balanced cached ∧
      ∀ k, Shows ((a l).2.metrics.number k) (l.metrics.number k + τ k)

theorem counts_pure (x : α) : Counts (pure x) 0 := fun _ _ _ hl => ⟨hl, fun _ => .refl _⟩

theorem counts_throw (e : Failure) : Counts (throw e : Action α) 0 :=
  fun _ _ _ hl => ⟨hl, fun _ => .refl _⟩

theorem counts_bind {a : Action α} {f : α → Action β} {x : Except Failure α} {τ ρ : Tick → Nat}
    {σ : α → Tick → Nat} (ha : Gives a x) (hτ : Counts a τ)
    (hσ : ∀ y, x = .ok y → Counts (f y) (σ y)) (hρ : τ + behind x σ = ρ) : Counts (a >>= f) ρ := by
  intro cached l hfaithful hl
  obtain ⟨w, ha⟩ := ha
  obtain ⟨hresult, -, hfaithful'⟩ := ha l hfaithful
  obtain ⟨hbalanced, hnumber⟩ := hτ cached l hfaithful hl
  rw [bind_apply, ← Prod.eta (a l), hresult, ← hρ]
  cases x with
  | error e => exact ⟨hbalanced, hnumber⟩
  | ok y =>
    obtain ⟨hbalanced', hnumber'⟩ := hσ y rfl cached _ hfaithful' hbalanced
    refine ⟨hbalanced', fun k => ?_⟩
    rw [behind_ok, Pi.add_apply, ← Nat.add_assoc]
    exact (hnumber k).trans (hnumber' k)

theorem counts_bind_ok {a : Action α} {f : α → Action β} {y : α} {τ σ ρ : Tick → Nat}
    (ha : Gives a (.ok y)) (hτ : Counts a τ) (hσ : Counts (f y) σ) (hρ : τ + σ = ρ) :
    Counts (a >>= f) ρ :=
  counts_bind (σ := fun _ => σ) ha hτ (fun z hz => by cases hz; exact hσ) hρ

theorem counts_bind_faults {a : Action α} {f : α → Action β} {x : Except Failure α}
    {g : α → Except Failure β} (ha : Gives a x) (hx : Counts a (faults x))
    (hg : ∀ y, Counts (f y) (faults (g y))) : Counts (a >>= f) (faults (x >>= g)) :=
  counts_bind ha hx (fun y _ => hg y) (faults_bind x g).symm

theorem counts_count {f : Metrics → Metrics} {τ : Tick → Nat}
    (hcache : ∀ m, (f m).cacheHits = m.cacheHits ∧ (f m).cacheMisses = m.cacheMisses ∧
      (f m).parses = m.parses)
    (hnumber : ∀ m k, Shows ((f m).number k) (m.number k + τ k)) :
    Counts (Ledger.count f) τ := by
  intro cached l _ hl
  obtain ⟨hhits, hmisses, hparses⟩ := hcache l.metrics
  refine ⟨⟨hl.cache, fun hcached => ?_, fun hcached => ?_⟩, hnumber l.metrics⟩
  · exact hmisses.trans ((hl.misses hcached).trans hparses.symm)
  · exact ⟨hhits.trans (hl.lookups hcached).1, hmisses.trans (hl.lookups hcached).2⟩

end Action

open FilterQuery.Action

section

variable [Regex.Engine]

namespace Ledger

theorem counts_parseFailed : Counts parseFailed (Tick.parseError.only true) :=
  counts_count (fun _ => ⟨rfl, rfl, rfl⟩) fun m k =>
    match k with
    | .parseError => .succ m.parseErrors
    | .pluginError | .reading | .rendering | .renderError => .refl _

theorem counts_repaired : Counts repaired 0 :=
  counts_count (fun _ => ⟨rfl, rfl, rfl⟩) fun _ k => by cases k <;> exact .refl _

theorem counts_rendered : Counts rendered (Tick.rendering.only true) :=
  counts_count (fun _ => ⟨rfl, rfl, rfl⟩) fun m k =>
    match k with
    | .rendering => Nat.add_right_comm .. ▸ (Shows.succ m.renders).add_right m.renderErrors.toNat
    | .parseError | .pluginError | .reading | .renderError => .refl _

theorem counts_renderFailed :
    Counts renderFailed (Tick.rendering.only true + Tick.renderError.only true) :=
  counts_count (fun _ => ⟨rfl, rfl, rfl⟩) fun m k =>
    match k with
    | .rendering => (Shows.succ m.renderErrors).add_left m.renders.toNat
    | .renderError => .succ m.renderErrors
    | .parseError | .pluginError | .reading => .refl _

theorem counts_pluginFailed : Counts pluginFailed (Tick.pluginError.only true) :=
  counts_count (fun _ => ⟨rfl, rfl, rfl⟩) fun m k =>
    match k with
    | .pluginError => .succ m.pluginErrors
    | .parseError | .reading | .rendering | .renderError => .refl _

end Ledger

theorem Plugin.counts_call {α : Type} (p : Plugin) (o : Occasion) (result : Except Text α) :
    Counts (p.call o result) (faults (result.mapError (.plugin p.name o.stage))) := by
  intro cached l hfaithful hl
  let recorded : Ledger := { l with calls := l.calls ++ [⟨p.name, p.version, o⟩] }
  have hrecorded : recorded.Balanced cached := ⟨hl.cache, hl.misses, hl.lookups⟩
  cases result with
  | ok a => exact ⟨hrecorded, fun _ => .refl _⟩
  | error cause =>
    rw [Except.mapError, faults_error, Failure.tally_plugin]
    exact Ledger.counts_pluginFailed cached recorded hfaithful hrecorded

namespace Plugins

theorem counts_amend (ps : Plugins) (t : Text) : Counts (ps.amend t) (faults (ps.amended t)) := by
  induction ps generalizing t with
  | nil => exact counts_pure t
  | cons p ps ih =>
    exact counts_bind_faults (p.gives_call (.parsing t) (p.amend t))
      (p.counts_call (.parsing t) (p.amend t)) ih

theorem counts_observe (ps : Plugins) (o : Occasion) :
    Counts (ps.observe o) (faults (ps.approved o)) := by
  induction ps with
  | nil => exact counts_pure ()
  | cons p ps ih =>
    exact counts_bind_faults (p.gives_call o (p.observe o)) (p.counts_call o (p.observe o))
      fun _ => ih

theorem counts_observe_pure {α : Type} (ps : Plugins) (o : Occasion) (x : α) :
    Counts (ps.observe o >>= fun _ => pure x) (faults (ps.approved o)) := by
  refine counts_bind (ps.gives_observe o) (ps.counts_observe o) (fun _ _ => counts_pure x) ?_
  cases ps.approved o <;> rfl

end Plugins

end

namespace Compiler

theorem counts_checked [Regex.Engine] (v : Validation) (t : Text) :
    Counts (checked v t) (faults (v.accepted t)) := by
  cases v with
  | off => exact counts_pure t
  | strict =>
    rw [checked, Validation.accepted]
    cases Diagnosis.first? t with
    | none => exact counts_pure t
    | some p =>
      rw [faults_error, Failure.tally_parse]
      exact counts_bind_ok Ledger.gives_parseFailed Ledger.counts_parseFailed (counts_throw _)
        (add_zero _)
  | repair =>
    rw [checked, Validation.accepted]
    cases Text.repairChecked t with
    | error f =>
      rw [Except.mapError, faults_error, Failure.tally_repair]
      exact counts_bind_ok Ledger.gives_parseFailed Ledger.counts_parseFailed (counts_throw _)
        (add_zero _)
    | ok r =>
      change Counts (if r ≠ t then Ledger.repaired >>= fun _ => pure r else pure r) 0
      split
      · exact counts_bind_ok Ledger.gives_repaired Ledger.counts_repaired (counts_pure r)
          (add_zero _)
      · exact counts_pure r

/-- A text is found, or it is read, and missed too if there is a cache to miss it in. -/
theorem counts_readCached [Regex.Engine] (now : Nat) (t : Text) :
    Counts (readCached now t) (Tick.reading.only true) := by
  intro cached l _ hl
  rw [readCached, bind_apply, get_apply]
  dsimp only
  cases hcache : l.cache with
  | none =>
    obtain rfl : cached = false := by rw [← hl.cache, hcache]; rfl
    refine ⟨⟨hl.cache, fun h => (by cases h), fun _ => hl.lookups rfl⟩, fun k => ?_⟩
    cases k with
    | reading => exact (Shows.succ l.metrics.parses).add_left l.metrics.cacheHits.toNat
    | _ => exact .refl _
  | some c =>
    obtain rfl : cached = true := by rw [← hl.cache, hcache]; rfl
    dsimp only
    rcases c.get now t with ⟨_ | r, d⟩
    · refine ⟨⟨rfl, fun _ => congrArg (· + 1) (hl.misses rfl), fun h => (by cases h)⟩,
        fun k => ?_⟩
      cases k with
      | reading => exact (Shows.succ l.metrics.parses).add_left l.metrics.cacheHits.toNat
      | _ => exact .refl _
    · refine ⟨⟨rfl, fun _ => hl.misses rfl, fun h => (by cases h)⟩, fun k => ?_⟩
      cases k with
      | reading =>
        have hhit := (Shows.succ l.metrics.cacheHits).add_right l.metrics.parses.toNat
        rwa [Nat.add_right_comm] at hhit
      | _ => exact .refl _

def admitted (c : Compiler) (t : Text) : Except Failure Text :=
  c.plugins.amended t >>= c.options.validation.accepted

theorem counts_prepare [Regex.Engine] (c : Compiler) (s : Surroundings) (t : Text) :
    Counts (c.prepare s t) (faults (c.reading t) + Tick.reading.only (c.admitted t).isOk) := by
  have hread : ∀ u : Text, Counts
      (readCached s.now u >>= fun r => c.plugins.observe (.parsed r) >>= fun _ => pure (u, r))
      (Tick.reading.only true + faults (c.plugins.approved (.parsed (Request.read u)))) := by
    intro u
    exact counts_bind_ok (gives_readCached s.now u) (counts_readCached s.now u)
      (c.plugins.counts_observe_pure (.parsed (Request.read u)) _) rfl
  refine counts_bind (c.plugins.gives_amend t) (c.plugins.counts_amend t)
    (fun u _ => counts_bind (gives_checked _ u) (counts_checked _ u) (fun v _ => hread v) rfl) ?_
  rw [reading, admitted]
  rcases c.plugins.amended t with e | u
  · simp
  · rcases hu : c.options.validation.accepted u with e | v
    · simp [hu]
    · rcases hv : c.plugins.approved (.parsed (Request.read v)) with e | _
      · simp [hu, hv, add_comm]
      · simp [hu, hv]

def served (c : Compiler) (q : QueryContext) : Except Failure Adapter := do
  let a ← c.adapter q.adapter
  c.plugins.approved (.querying q)
  pure a

def refusal? {α : Type} (c : Compiler) (q : QueryContext) (answer : Adapter → Except Failure α) :
    Option Failure :=
  match c.served q with
  | .ok a => failureOf (answer a)
  | .error _ => none

theorem tally_of_adapter {c : Compiler} {name : Text} {e : Failure}
    (h : c.adapter name = .error e) : e.tally = 0 := by
  rw [adapter] at h
  split at h
  · cases h
  · cases h
    exact Failure.tally_unknownAdapter name

theorem counts_render [Regex.Engine] {α : Type} (c : Compiler) (q : QueryContext)
    (answer : Adapter → Except Failure α) (output : α → Output) :
    Counts (c.render q answer output)
      (faultsUnless (c.refusal? q answer).isSome (c.rendering q answer output) +
        (Tick.rendering.only (c.served q).isOk +
          Tick.renderError.only (c.refusal? q answer).isSome)) := by
  rw [render, rendering, refusal?, served]
  rcases hadapter : c.adapter q.adapter with e | a
  · refine (congrArg (Counts _) ?_).mp (counts_throw _)
    simp [faultsUnless, tally_of_adapter hadapter]
  · rcases hanswer : answer a with e | x <;> simp only [hanswer]
    · refine counts_bind (c.plugins.gives_observe _) (c.plugins.counts_observe (.querying q))
        (fun _ _ => counts_bind_ok Ledger.gives_renderFailed Ledger.counts_renderFailed
          (counts_throw e) (add_zero _)) ?_
      rcases c.plugins.approved (.querying q) with e' | _
      · simp [faultsUnless]
      · simp [faultsUnless, failureOf, hanswer]
    · refine counts_bind (c.plugins.gives_observe _) (c.plugins.counts_observe (.querying q))
        (fun _ _ => counts_bind_ok Ledger.gives_rendered Ledger.counts_rendered
          (c.plugins.counts_observe_pure (.queried q (output x)) x) rfl) ?_
      rcases c.plugins.approved (.querying q) with e | _
      · simp [faultsUnless]
      · rcases hstopped : c.plugins.approved (.queried q (output x)) with e | _
        · simp [faultsUnless, failureOf, hstopped, hanswer, add_comm]
        · simp [faultsUnless, failureOf, hstopped, hanswer]

section

variable {α : Type} {c : Compiler} {q : QueryContext} {answer : Adapter → Except Failure α}
  {e : Failure}

theorem exists_of_refusal? (h : c.refusal? q answer = some e) :
    ∃ a, c.adapter q.adapter = .ok a ∧ c.plugins.approved (.querying q) = .ok () ∧
      answer a = .error e := by
  rw [refusal?] at h
  split at h
  · next a hserved =>
    obtain ⟨b, hadapter, hb⟩ := ok_of_bind hserved
    obtain ⟨⟨⟩, happroved, hb⟩ := ok_of_bind hb
    cases hb
    refine ⟨a, hadapter, happroved, ?_⟩
    cases hanswer : answer a with
    | error f =>
      rw [hanswer] at h
      exact congrArg Except.error (Option.some.inj h)
    | ok x =>
      rw [hanswer] at h
      cases h
  · cases h

/-- What an adapter fails with is what rendering gives. -/
theorem rendering_of_refusal? (h : c.refusal? q answer = some e) (output : α → Output) :
    c.rendering q answer output = .error e := by
  obtain ⟨a, hadapter, happroved, hanswer⟩ := exists_of_refusal? h
  simp [rendering, hadapter, happroved, hanswer]

end

end Compiler

end FilterQuery
