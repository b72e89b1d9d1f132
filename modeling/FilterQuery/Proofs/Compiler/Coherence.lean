import FilterQuery.Proofs.Compiler.Lasting
import FilterQuery.Proofs.Outline
set_option autoImplicit false

/-!
The text and the request that a compiler holds belong together, unless the request is changed by
itself. Under validation the text is valid too, as repair gives valid text only.
-/

namespace FilterQuery

/-- Text that passes a validation mode is valid, unless nothing is checked. -/
theorem Validation.first?_of_accepted {v : Validation} (hv : v ≠ .off) {t kept : Text}
    (h : v.accepted t = .ok kept) : Diagnosis.first? kept = none := by
  cases v with
  | off => exact absurd rfl hv
  | strict =>
    rw [accepted] at h
    cases hfirst : Diagnosis.first? t with
    | some p => rw [hfirst] at h; cases h
    | none =>
      rw [hfirst] at h
      cases h
      exact hfirst
  | repair =>
    rw [accepted, Text.repairChecked] at h
    cases hfirst : Diagnosis.first? (Text.repair t) with
    | some p => rw [hfirst] at h; cases h
    | none =>
      rw [hfirst] at h
      cases h
      exact hfirst

theorem Request.read_nil [Regex.Engine] : Request.read [] = .empty := by
  rw [Request.read, Outline.read, Outline.readFrom_nil]
  rfl

theorem Diagnosis.first?_nil : Diagnosis.first? [] = none := by decide +kernel

namespace Compiler

def Operation.changesRequest : Operation → Bool
  | .changeRequest _ => true
  | _ => false

section

variable [Regex.Engine]

/-- The text and the request of a compiler belong together, and the text is valid if texts are
validated. -/
structure Coherent (v : Validation) (c : Compiler) : Prop where
  mode : c.options.validation = v
  request : c.state.request = Request.read c.state.text
  valid : v ≠ .off → Diagnosis.first? c.state.text = none
  faithful : c.ledger.Faithful

namespace Coherent

variable {v : Validation} {c d : Compiler}

theorem of_empty {n : Naming} (hmode : c.options.validation = v) (hstate : c.state = .empty n)
    (hc : c.ledger.Faithful) : Coherent v c where
  mode := hmode
  request := by
    rw [hstate]
    exact Request.read_nil.symm
  valid _ := by
    rw [hstate]
    exact Diagnosis.first?_nil
  faithful := hc

theorem of_same (h : Coherent v c) (hmode : d.options.validation = c.options.validation)
    (htext : d.state.text = c.state.text) (hrequest : d.state.request = c.state.request)
    (hd : d.ledger.Faithful) : Coherent v d where
  mode := hmode.trans h.mode
  request := by rw [hrequest, htext, h.request]
  valid hv := by
    rw [htext]
    exact h.valid hv
  faithful := hd

theorem keep (h : Coherent v c) {amended kept : Text} (haccepted : v.accepted amended = .ok kept) :
    Coherent v (c.keep kept (Request.read kept)) where
  mode := h.mode
  request := rfl
  valid hv := Validation.first?_of_accepted hv haccepted
  faithful := h.faithful

theorem parse (h : Coherent v c) (s : Surroundings) (t : Text) : Coherent v (c.parse s t).2 := by
  obtain ⟨l, hl, hparse⟩ := parse_eq_reading h.faithful s t
  have hsame : Coherent v (c.withLedger l) := h.of_same rfl rfl rfl hl
  rw [hparse]
  rcases hreading : c.reading t with e | ⟨kept, r⟩
  · exact hsame
  · obtain ⟨amended, -, haccepted, rfl⟩ := ok_of_reading hreading
    rw [h.mode] at haccepted
    exact hsame.keep haccepted

theorem compileBatch (h : Coherent v c) (s : Surroundings) (o : Order) (ts : List Text)
    (order : List Nat) : Coherent v (c.compileBatch s o ts order).2 := by
  obtain ⟨l, hl, hbatch⟩ := compileArrivals_withLedger h.faithful s o ts order
  change Coherent v (c.compileArrivals s o ts order).2
  rw [hbatch]
  exact h.of_same rfl rfl rfl hl

/-- No operation but a change of the request parts it from the text. -/
theorem perform (h : Coherent v c) (s : Surroundings) {op : Operation}
    (hop : op.changesRequest = false) : Coherent v (c.perform s op).2 := by
  have hfaithful := faithful_perform h.faithful s op
  cases op with
  | parse t => exact h.parse s t
  | compileBatch o ts order => exact h.compileBatch s o ts order
  | changeRequest change => cases hop
  | changeSettings change =>
    refine h.of_same rfl ?_ ?_ hfaithful <;> cases change <;> rfl
  | reset => exact of_empty h.mode rfl hfaithful
  | _ => exact h.of_same rfl rfl rfl hfaithful

theorem after (h : Coherent v c) {session : Session}
    (hsession : ∀ x ∈ session, x.2.changesRequest = false) : Coherent v (c.after session) := by
  induction session generalizing c with
  | nil => exact h
  | cons x session ih =>
    obtain ⟨hx, hsession⟩ := List.forall_mem_cons.1 hsession
    exact ih (h.perform x.1 hx) hsession

end Coherent

/-- In every session that does not change the request by itself, with or without a cache, the
request is the one that the text reads as, and validated text has no problem. -/
theorem request_after (o : Options) {session : Session}
    (hsession : ∀ x ∈ session, x.2.changesRequest = false) :
    let c := (new o).after session
    c.state.request = Request.read c.state.text ∧
      (o.validation = .strict ∨ o.validation = .repair → Diagnosis.first? c.state.text = none) := by
  have hnew : Coherent o.validation (new o) := .of_empty rfl rfl (faithful_new o)
  have h := hnew.after hsession
  refine ⟨h.request, fun hv => h.valid ?_⟩
  rcases hv with hv | hv <;> rw [hv] <;> decide

end

/-- A text is amended and mended, read, and then found in the cache. -/
theorem request_after_repair :
    letI := Regex.Engine.words
    let p : Plugin := { Plugin.idle ['p'] with amend := fun t => .ok (t ++ " or b=2".toList) }
    let session : Session := [(⟨0, []⟩, .registerPlugin p), (⟨0, []⟩, .parse "(a=1".toList),
      (⟨1, []⟩, .changeSettings (.setWhitelist true)), (⟨2, []⟩, .parse "(a=1".toList)]
    let c := (new ⟨.asIs, .strict, .repair, some .default, none⟩).after session
    (∀ x ∈ session, x.2.changesRequest = false) ∧ c.state.text = "(a=1 or b=2)".toList ∧
      c.state.request = Request.read c.state.text ∧ Diagnosis.first? c.state.text = none := by
  let engine := Regex.Engine.words
  intro p session c
  have hsession : ∀ x ∈ session, x.2.changesRequest = false := by
    simp [session, Operation.changesRequest]
  obtain ⟨hrequest, hvalid⟩ := request_after ⟨.asIs, .strict, .repair, some .default, none⟩ hsession
  exact ⟨hsession, by decide +kernel, hrequest, hvalid (.inr rfl)⟩

end Compiler

end FilterQuery
