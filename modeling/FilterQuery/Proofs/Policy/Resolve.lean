import FilterQuery.Policy
import FilterQuery.Proofs.Adding
import FilterQuery.Proofs.Leaves
import FilterQuery.Proofs.Naming
set_option autoImplicit false

/-!
What a policy makes of the names of a request. Every name of a plan is what a name of the request
resolves to, and every field in the filters of a relation is what a field of that relation resolves
to.
-/

namespace FilterQuery

def Request.names (r : Request) : List Text :=
  r.filter.toList.flatMap Expr.fields ++ r.sort.map SortKey.field ++ r.preloads.map Prod.fst

def Plan.names (p : Plan) : List Text := p.request.names ++ p.selected ++ p.groupBy

namespace Policy

variable {p : Policy}

/-! Resolving one name. -/

theorem isIgnored_iff (p : Policy) (name : Text) :
    p.isIgnored name = true ↔ ∃ n ∈ p.ignored, p.resolution.same n (p.rename name) = true :=
  Resolution.isSome_find? ..

theorem isAllowed_iff (p : Policy) (name : Text) :
    p.isAllowed name = true ↔
      (p.whitelist = true → ∃ n ∈ p.allowed, p.resolution.same n (p.rename name) = true) := by
  cases h : p.whitelist <;> simp [isAllowed, h, Resolution.isSome_find?]

theorem resolve_eq_some_iff {name n : Text} :
    p.resolve name = some n ↔ (name ≠ [] ∧ p.isIgnored name = false) ∧
      (if p.whitelist then p.resolution.find? p.allowed (p.rename name) else some (p.rename name)) =
        some n := by
  by_cases h : name = [] ∨ p.isIgnored name = true
  · have hnot : ¬(name ≠ [] ∧ p.isIgnored name = false) := by
      rintro ⟨hne, hi⟩
      simp [hne, hi] at h
    simp [resolve, if_pos h, hnot]
  · have hboth : name ≠ [] ∧ p.isIgnored name = false := by simpa using h
    rw [resolve, if_neg h, and_iff_right hboth]

theorem mem_allowed_of_resolve {name n : Text} (hw : p.whitelist = true)
    (h : p.resolve name = some n) : n ∈ p.allowed := by
  rw [resolve_eq_some_iff, hw] at h
  exact (Resolution.find?_eq_some h.2).1

theorem same_of_resolve {name n : Text} (h : p.resolve name = some n) :
    p.resolution.same n (p.rename name) = true := by
  obtain ⟨-, h⟩ := resolve_eq_some_iff.1 h
  split at h
  · exact (Resolution.find?_eq_some h).2
  · cases h
    exact Resolution.same_refl ..

theorem admits_iff (p : Policy) (name : Text) :
    p.admits name = true ↔
      (name ≠ [] ∧ p.isIgnored name = false) ∧ p.isAllowed name = true := by
  simp only [admits, Option.isSome_iff_exists, resolve_eq_some_iff, exists_and_left]
  rw [isAllowed]
  cases p.whitelist <;> simp [Option.isSome_iff_exists]

/-! Lists of names, expressions and preloads. -/

theorem mem_names {ns : List Text} {n : Text} :
    n ∈ p.names ns ↔ ∃ m ∈ ns, p.resolve m = some n := by
  simp [names]

theorem resolve_of_mem_sort {keys : List SortKey} {k : SortKey} (h : k ∈ p.sort keys) :
    ∃ l ∈ keys, p.resolve l.field = some k.field := by
  obtain ⟨l, hl, hk⟩ := List.mem_filterMap.1 h
  obtain ⟨n, hn, rfl⟩ := Option.map_eq_some_iff.1 hk
  exact ⟨l, hl, hn⟩

theorem fields_applyWith {resolve : Text → Option Text} {e d : Expr}
    (h : p.applyWith resolve e = some d) : d.fields = e.fields.filterMap resolve := by
  obtain ⟨c, hc, rfl⟩ := Option.map_eq_some_iff.1 h
  rw [Expr.fields_rename, Expr.fields_of_prune hc]
  induction e.fields with
  | nil => rfl
  | cons f fs ih => cases hf : resolve f <;> simp [hf, ih]

def Arises (p : Policy) (ps : Preloads) (entry : Text × List Expr) : Prop :=
  (∃ q ∈ ps, p.resolve q.1 = some entry.1) ∧
    ∀ e ∈ entry.2, ∃ q ∈ ps, p.resolve q.1 = some entry.1 ∧
      ∃ d ∈ q.2, p.nestedFilter q.1 d = some e

theorem arises_addPreload {ps acc : Preloads} {q : Text × List Expr} (hq : q ∈ ps)
    (h : ∀ entry ∈ acc, p.Arises ps entry) : ∀ entry ∈ p.addPreload acc q, p.Arises ps entry := by
  unfold addPreload
  cases hname : p.resolve q.1 with
  | none => exact h
  | some name =>
    have hnew : ∀ e ∈ q.2.filterMap (p.nestedFilter q.1), ∃ s ∈ ps, p.resolve s.1 = some name ∧
        ∃ d ∈ s.2, p.nestedFilter s.1 d = some e := fun e he =>
      ⟨q, hq, hname, List.mem_filterMap.1 he⟩
    intro entry hentry
    rcases Preloads.mem_add hentry with hold | rfl | ⟨fs, hfs, rfl⟩
    · exact h entry hold
    · exact ⟨⟨q, hq, hname⟩, hnew⟩
    · -- Relations that go by one name have their filters joined.
      obtain ⟨hex, hall⟩ := h (name, fs) hfs
      refine ⟨hex, fun e he => ?_⟩
      rcases List.mem_append.1 he with he | he
      · exact hall e he
      · exact hnew e he

theorem arises_of_mem_preloads {ps : Preloads} {entry : Text × List Expr}
    (h : entry ∈ p.preloads ps) : p.Arises ps entry :=
  List.foldlRecOn ps p.addPreload (motive := fun acc => ∀ entry ∈ acc, p.Arises ps entry)
    (by simp) (fun _ hacc _ hq => arises_addPreload hq hacc) entry h

theorem resolve_of_mem_filter {e d : Expr} {f : Text} (h : p.filter e = some d)
    (hf : f ∈ d.fields) : ∃ g ∈ e.fields, p.resolve g = some f := by
  rw [fields_applyWith h] at hf
  exact List.mem_filterMap.1 hf

theorem resolve_of_mem_names {r : Request} {selected groupBy : List Text} {n : Text}
    (h : n ∈ (p.apply r selected groupBy).names) :
    ∃ m ∈ r.names ++ selected ++ groupBy, p.resolve m = some n := by
  simp only [Plan.names, Request.names, apply, List.mem_append] at h ⊢
  rcases h with (((h | h) | h) | h) | h
  · obtain ⟨d, hd, hn⟩ := List.mem_flatMap.1 h
    obtain ⟨e, he, hfilter⟩ := Option.bind_eq_some_iff.1 (Option.mem_toList.1 hd)
    obtain ⟨g, hg, hres⟩ := resolve_of_mem_filter hfilter hn
    have hmem : g ∈ r.filter.toList.flatMap Expr.fields :=
      List.mem_flatMap.2 ⟨e, Option.mem_toList.2 he, hg⟩
    exact ⟨g, .inl (.inl (.inl (.inl hmem))), hres⟩
  · obtain ⟨k, hk, rfl⟩ := List.mem_map.1 h
    obtain ⟨l, hl, hres⟩ := resolve_of_mem_sort hk
    exact ⟨l.field, .inl (.inl (.inl (.inr (List.mem_map_of_mem hl)))), hres⟩
  · obtain ⟨entry, hentry, rfl⟩ := List.mem_map.1 h
    obtain ⟨q, hq, hres⟩ := (arises_of_mem_preloads hentry).1
    exact ⟨q.1, .inl (.inl (.inr (List.mem_map_of_mem hq))), hres⟩
  · obtain ⟨m, hm, hres⟩ := mem_names.1 h
    exact ⟨m, .inl (.inr hm), hres⟩
  · obtain ⟨m, hm, hres⟩ := mem_names.1 h
    exact ⟨m, .inr hm, hres⟩

theorem resolveNested_of_mem_preloads {ps : Preloads} {entry : Text × List Expr} {e : Expr}
    {f : Text} (hentry : entry ∈ p.preloads ps) (he : e ∈ entry.2) (hf : f ∈ e.fields) :
    ∃ q ∈ ps, p.resolve q.1 = some entry.1 ∧
      ∃ g ∈ q.2.flatMap Expr.fields, p.resolveNested q.1 g = some f := by
  obtain ⟨q, hq, hname, d, hd, hnested⟩ := (arises_of_mem_preloads hentry).2 e he
  rw [fields_applyWith hnested] at hf
  obtain ⟨g, hg, hres⟩ := List.mem_filterMap.1 hf
  exact ⟨q, hq, hname, g, List.mem_flatMap.2 ⟨d, hd, hg⟩, hres⟩

end Policy

end FilterQuery
