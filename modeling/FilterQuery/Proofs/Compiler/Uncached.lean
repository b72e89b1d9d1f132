import FilterQuery.Proofs.Compiler.Session
set_option autoImplicit false

/-!
A cache does not show. With it or without it every operation gets the same reply, calls the same
hooks and leaves the same compiler, but for the counters that tell how texts were found.
-/

namespace FilterQuery.Compiler

def uncached (c : Compiler) : Compiler :=
  { c with options := c.options.uncached, ledger := c.ledger.uncached }

variable [Regex.Engine]

theorem Alike.uncached_eq {c d : Compiler} (h : Alike c d)
    (hshown : c.ledger.uncached = d.ledger.uncached) : c.uncached = d.uncached := by
  rw [uncached, uncached, h.options, h.state, h.adapters, h.plugins, hshown]

/-- Compilers that are alike and show the same ledger show the same in every session. -/
theorem Alike.transcript_eq {c d : Compiler} (h : Alike c d)
    (hshown : c.ledger.uncached = d.ledger.uncached) (session : Session) :
    (c.transcript session).map (Prod.map id uncached) =
      (d.transcript session).map (Prod.map id uncached) := by
  induction session generalizing c d with
  | nil => rfl
  | cons x session ih =>
    obtain ⟨s, op⟩ := x
    obtain ⟨hreply, halike, hkept⟩ := h.perform s op
    rw [transcript, transcript, List.map_cons, List.map_cons, ih halike (hkept hshown)]
    congr 1
    exact Prod.ext hreply (halike.uncached_eq (hkept hshown))

theorem alike_new_uncached (o : Options) : Alike (new o) (new o.uncached) :=
  ⟨rfl, rfl, rfl, rfl, faithful_new o, faithful_new o.uncached⟩

/-- In every session, whatever the time, each operation gets the reply that it gets without a cache,
and leaves the state, the plugins, the adapters, the calls of hooks and the counters that it leaves
without one. Only the counters of texts that were read, found in the cache and missed there may
differ. -/
theorem transcript_uncached (o : Options) (session : Session) :
    ((new o).transcript session).map (Prod.map id uncached) =
      ((new o.uncached).transcript session).map (Prod.map id uncached) :=
  (alike_new_uncached o).transcript_eq rfl session

end FilterQuery.Compiler
