import FilterQuery.Compiler.Ledger
import FilterQuery.Outline
set_option autoImplicit false

/-!
What an action gives. As long as a cache holds the requests that its texts read as, an action gives
one result whatever is in the ledger, and writes the same hooks and counters whatever is in the
cache. Only the counters that tell whether a text was found there depend on it.
-/

namespace FilterQuery

def Metrics.uncached (m : Metrics) : Metrics :=
  { m with parses := 0, cacheHits := 0, cacheMisses := 0 }

namespace Ledger

def uncached (l : Ledger) : Ledger := ⟨none, l.metrics.uncached, l.calls⟩

def Faithful [Regex.Engine] (l : Ledger) : Prop :=
  ∀ c ∈ l.cache, ∀ e ∈ c.entries, e.value = Request.read e.key

/-- Entries may go at any time. -/
theorem Faithful.map [Regex.Engine] {l : Ledger} (hl : l.Faithful)
    {f : Cache Request → Cache Request} (hf : ∀ c, (f c).entries.Sublist c.entries) :
    Faithful { l with cache := l.cache.map f } := by
  intro c hc e he
  obtain ⟨b, hb, rfl⟩ := Option.map_eq_some_iff.1 hc
  exact hl b hb e ((hf b).subset he)

end Ledger

namespace Action

variable {α β : Type}

/-- An action gives a result whatever a faithful ledger holds. What shows of the ledger that it
leaves does not depend on the cache. -/
def Gives [Regex.Engine] (a : Action α) (x : Except Failure α) : Prop :=
  ∃ w : Ledger → Ledger, ∀ l : Ledger, l.Faithful →
    (a l).1 = x ∧ (a l).2.uncached = w l.uncached ∧ (a l).2.Faithful

theorem bind_apply (a : Action α) (f : α → Action β) (l : Ledger) :
    (a >>= f) l =
      match a l with
      | (.ok x, l) => f x l
      | (.error e, l) => (.error e, l) := by
  change StateT.bind a (ExceptT.bindCont f) l = _
  rw [StateT.bind]
  rcases a l with ⟨_ | x, l⟩ <;> rfl

theorem get_apply (l : Ledger) : (get : Action Ledger) l = (.ok l, l) := rfl

variable [Regex.Engine]

theorem gives_pure (x : α) : Gives (pure x) (.ok x) := ⟨id, fun _ hl => ⟨rfl, rfl, hl⟩⟩

theorem gives_throw (e : Failure) : Gives (throw e : Action α) (.error e) :=
  ⟨id, fun _ hl => ⟨rfl, rfl, hl⟩⟩

theorem gives_bind_ok {a : Action α} {f : α → Action β} {x : α} {y : Except Failure β}
    (ha : Gives a (.ok x)) (hf : Gives (f x) y) : Gives (a >>= f) y := by
  obtain ⟨first, ha⟩ := ha
  obtain ⟨second, hf⟩ := hf
  refine ⟨second ∘ first, fun l hl => ?_⟩
  obtain ⟨hresult, hshown, hfaithful⟩ := ha l hl
  obtain ⟨hresult', hshown', hfaithful'⟩ := hf _ hfaithful
  have hbind : (a >>= f) l = f x (a l).2 := by
    rw [bind_apply, ← Prod.eta (a l), hresult]
  rw [hbind]
  exact ⟨hresult', hshown'.trans (congrArg second hshown), hfaithful'⟩

theorem gives_bind_error {a : Action α} {f : α → Action β} {e : Failure}
    (ha : Gives a (.error e)) : Gives (a >>= f) (.error e) := by
  obtain ⟨w, ha⟩ := ha
  refine ⟨w, fun l hl => ?_⟩
  obtain ⟨hresult, hshown, hfaithful⟩ := ha l hl
  have hbind : (a >>= f) l = (.error e, (a l).2) := by
    rw [bind_apply, ← Prod.eta (a l), hresult]
  rw [hbind]
  exact ⟨rfl, hshown, hfaithful⟩

theorem gives_bind {a : Action α} {f : α → Action β} {x : Except Failure α}
    {g : α → Except Failure β} (ha : Gives a x) (hf : ∀ y, Gives (f y) (g y)) :
    Gives (a >>= f) (x >>= g) := by
  cases x with
  | error e => exact gives_bind_error ha
  | ok y => exact gives_bind_ok ha (hf y)

theorem gives_modify {f : Ledger → Ledger} (w : Ledger → Ledger)
    (hshown : ∀ l, (f l).uncached = w l.uncached) (hcache : ∀ l, (f l).cache = l.cache) :
    Gives (modify f) (.ok ()) := by
  refine ⟨w, fun l hl => ⟨rfl, hshown l, ?_⟩⟩
  change (f l).Faithful
  rwa [Ledger.Faithful, hcache l]

theorem gives_count {f : Metrics → Metrics} (h : ∀ m, (f m).uncached = f m.uncached) :
    Gives (Ledger.count f) (.ok ()) :=
  gives_modify (fun l => { l with metrics := f l.metrics })
    (fun l => by simp only [Ledger.uncached, h]) fun _ => rfl

end Action

open FilterQuery.Action

section

variable [Regex.Engine]

namespace Ledger

theorem gives_parseFailed : Gives parseFailed (.ok ()) := gives_count fun _ => rfl

theorem gives_repaired : Gives repaired (.ok ()) := gives_count fun _ => rfl

theorem gives_rendered : Gives rendered (.ok ()) := gives_count fun _ => rfl

theorem gives_renderFailed : Gives renderFailed (.ok ()) := gives_count fun _ => rfl

theorem gives_pluginFailed : Gives pluginFailed (.ok ()) := gives_count fun _ => rfl

end Ledger

theorem Plugin.gives_call {α : Type} (p : Plugin) (o : Occasion) (result : Except Text α) :
    Gives (p.call o result) (result.mapError (.plugin p.name o.stage)) := by
  have hrecord : Gives (modify fun l => { l with calls := l.calls ++ [⟨p.name, p.version, o⟩] })
      (.ok ()) :=
    gives_modify (fun l => { l with calls := l.calls ++ [⟨p.name, p.version, o⟩] })
      (fun _ => rfl) fun _ => rfl
  cases result with
  | ok a => exact gives_bind_ok hrecord (gives_pure a)
  | error cause =>
    exact gives_bind_ok hrecord (gives_bind_ok Ledger.gives_pluginFailed (gives_throw _))

end

namespace Plugins

def amended (ps : Plugins) (t : Text) : Except Failure Text :=
  ps.foldlM (fun t p => (p.amend t).mapError (.plugin p.name .beforeParse)) t

def approved (ps : Plugins) (o : Occasion) : Except Failure Unit :=
  ps.forM fun p => (p.observe o).mapError (.plugin p.name o.stage)

theorem gives_amend [Regex.Engine] (ps : Plugins) (t : Text) :
    Gives (ps.amend t) (ps.amended t) := by
  induction ps generalizing t with
  | nil => exact gives_pure t
  | cons p ps ih => exact gives_bind (p.gives_call (.parsing t) (p.amend t)) ih

theorem gives_observe [Regex.Engine] (ps : Plugins) (o : Occasion) :
    Gives (ps.observe o) (ps.approved o) := by
  induction ps with
  | nil => exact gives_pure ()
  | cons p ps ih => exact gives_bind (p.gives_call o (p.observe o)) fun _ => ih

end Plugins

end FilterQuery
