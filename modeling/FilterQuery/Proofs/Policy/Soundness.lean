import FilterQuery.Proofs.Policy.Resolve
set_option autoImplicit false

/-!
What a policy keeps out of a plan. Under an active whitelist every name in a plan is a listed one,
and in a plan over names of ASCII characters no name is ignored.
-/

namespace FilterQuery.Policy

variable {p : Policy}

/-! Whitelists. -/

theorem eq_of_afterSegments {n : Nat} {name t : Text} (hn : 0 < n)
    (h : afterSegments n name = some t) :
    ∃ lead, name = lead ++ '.' :: t ∧ (lead.splitOn '.').length = n := by
  unfold afterSegments at h
  dsimp only at h
  split at h
  · cases h
  · rename_i hlen
    cases h
    have hlead : (name.splitOn '.').take n ≠ [] := by simp; omega
    have htail : (name.splitOn '.').drop n ≠ [] := by simp; omega
    refine ⟨Text.join ['.'] ((name.splitOn '.').take n), ?_, ?_⟩
    · calc name = Text.join ['.'] (name.splitOn '.') := (Text.join_splitOn '.' name).symm
        _ = Text.join ['.'] ((name.splitOn '.').take n ++ (name.splitOn '.').drop n) := by
          rw [List.take_append_drop]
        _ = _ := by rw [Text.join_append hlead htail, List.append_assoc]; rfl
    · rw [Text.splitOn_join_of_splitOn (fun s hs => List.mem_of_mem_take hs) hlead, List.length_take]
      omega

theorem resolveNested_cases {relation field n : Text}
    (h : p.resolveNested relation field = some n) :
    (field ≠ [] ∧ p.isIgnored field = false ∧ p.isIgnored (qualified relation field) = false) ∧
      ((p.whitelist = false ∧ n = p.rename field) ∨
        (p.whitelist = true ∧ p.resolution.find? p.allowed (p.rename field) = some n) ∨
        (p.whitelist = true ∧ p.resolution.find? p.allowed (p.rename field) = none ∧
          ∃ entry, p.resolution.find? p.allowed (p.rename (qualified relation field)) = some entry ∧
            afterSegments (relation.splitOn '.').length entry = some n ∧ n ≠ [])) := by
  unfold resolveNested at h
  split at h
  · cases h
  · rename_i hkept
    refine ⟨by simpa using hkept, ?_⟩
    split at h
    · rename_i hw
      split at h
      · rename_i entry hfind
        cases h
        exact .inr (.inl ⟨hw, hfind⟩)
      · rename_i hfind
        obtain ⟨htail, hne⟩ := Option.filter_eq_some_iff.1 h
        obtain ⟨entry, hentry, hafter⟩ := Option.bind_eq_some_iff.1 htail
        exact .inr (.inr ⟨hw, hfind, entry, hentry, hafter, by simpa using hne⟩)
    · rename_i hw
      cases h
      exact .inl ⟨by simpa using hw, rfl⟩

/-- A field of a relation that is listed by itself, or behind as many segments as the relation
has. -/
def ListsIn (p : Policy) (relation field : Text) : Prop :=
  field ∈ p.allowed ∨
    field ≠ [] ∧ ∃ lead, lead ++ '.' :: field ∈ p.allowed ∧
      (lead.splitOn '.').length = (relation.splitOn '.').length

theorem listsIn_of_resolveNested {relation field n : Text} (hw : p.whitelist = true)
    (h : p.resolveNested relation field = some n) : p.ListsIn relation n := by
  obtain ⟨-, ⟨hoff, -⟩ | ⟨-, hfind⟩ | ⟨-, -, entry, hentry, hafter, hne⟩⟩ := resolveNested_cases h
  · rw [hw] at hoff
    cases hoff
  · exact .inl (Resolution.find?_eq_some hfind).1
  · have hpos : 0 < (relation.splitOn '.').length :=
      List.length_pos_iff.2 (List.splitOn_ne_nil '.' relation)
    obtain ⟨lead, rfl, hlen⟩ := eq_of_afterSegments hpos hafter
    exact .inr ⟨hne, lead, (Resolution.find?_eq_some hentry).1, hlen⟩

/-- Whatever names a request gives and however it spells them, a plan under an active whitelist
has listed names only, and in the filters of a relation listed fields of a relation by which the
request asked for it. -/
theorem apply_whitelisted (hw : p.whitelist = true) (r : Request) (selected groupBy : List Text) :
    (∀ n ∈ (p.apply r selected groupBy).names, n ∈ p.allowed) ∧
      ∀ entry ∈ (p.apply r selected groupBy).request.preloads, ∀ e ∈ entry.2, ∀ f ∈ e.fields,
        ∃ q ∈ r.preloads, p.resolve q.1 = some entry.1 ∧ p.ListsIn q.1 f := by
  constructor
  · intro n hn
    obtain ⟨m, -, hres⟩ := resolve_of_mem_names hn
    exact mem_allowed_of_resolve hw hres
  · intro entry hentry e he f hf
    obtain ⟨q, hq, hname, g, -, hres⟩ := resolveNested_of_mem_preloads hentry he hf
    exact ⟨q, hq, hname, listsIn_of_resolveNested hw hres⟩

theorem apply_whitelisted_orders :
    let p : Policy := { (empty .snakeCase .flexible).allow
      ["id".toList, "orders".toList, "orders.OrderStatus".toList] with whitelist := true }
    let r : Request := ⟨some (.junction .and [.leaf "I_D".toList (.null true),
        .leaf "secret".toList (.null true)]), [⟨"Id".toList, .desc⟩], .none,
      [("Orders".toList, [.leaf "order status".toList (.null false)])]⟩
    let plan := p.apply r ["ID".toList] []
    p.whitelist = true ∧
      plan.names = ["id".toList, "id".toList, "orders".toList, "id".toList] ∧
      plan.request.preloads.flatMap (fun q => q.2.flatMap Expr.fields) = ["order_status".toList] ∧
      (∀ n ∈ plan.names, n ∈ p.allowed) ∧
      ∀ entry ∈ plan.request.preloads, ∀ e ∈ entry.2, ∀ f ∈ e.fields,
        ∃ q ∈ r.preloads, p.resolve q.1 = some entry.1 ∧ p.ListsIn q.1 f := by
  intro p r plan
  exact ⟨rfl, by decide, by decide, apply_whitelisted (p := p) rfl r _ _⟩

/-! Ignore lists. -/

inductive Over (P : Text → Prop) : Policy → Prop where
  | empty (naming : Naming) (resolution : Resolution) : Over P (empty naming resolution)
  | ignore {p : Policy} {names : List Text} :
    Over P p → (∀ n ∈ names, P n) → Over P (p.ignore names)
  | allow {p : Policy} {names : List Text} :
    Over P p → (∀ n ∈ names, P n) → Over P (p.allow names)
  | whitelist {p : Policy} (active : Bool) : Over P p → Over P { p with whitelist := active }

theorem Over.allowed_renamed {P : Text → Prop} (h : p.Over P) :
    ∀ n ∈ p.allowed, ∃ name, P name ∧ p.rename name = n := by
  induction h with
  | empty => simp [Policy.empty]
  | ignore _ _ ih => exact ih
  | @allow p names _ hnames ih =>
    intro n hn
    rcases List.mem_append.1 (List.mem_eraseDups.1 hn) with hn | hn
    · exact ih n hn
    · obtain ⟨name, hname, rfl⟩ := List.mem_map.1 hn
      exact ⟨name, hnames name hname, rfl⟩
  | whitelist _ _ ih => exact ih

theorem rename_of_resolve {name n : Text} (hp : p.Over Text.IsAscii)
    (hname : p.whitelist = false → name.IsAscii) (h : p.resolve name = some n) :
    p.rename n = n := by
  cases hw : p.whitelist with
  | true =>
    obtain ⟨listed, hlisted, rfl⟩ := hp.allowed_renamed n (mem_allowed_of_resolve hw h)
    exact p.naming.apply_apply hlisted
  | false =>
    obtain ⟨-, h⟩ := resolve_eq_some_iff.1 h
    rw [hw] at h
    cases h
    exact p.naming.apply_apply (hname hw)

/-- The check is made on the name that is given. It holds of the name that it resolves to, which is
the same name to the policy. -/
theorem not_isIgnored_of_resolve {name n : Text} (hn : p.rename n = n)
    (h : p.resolve name = some n) : p.isIgnored n = false := by
  rw [← Bool.not_eq_true, isIgnored_iff, hn]
  rintro ⟨i, hi, hsame⟩
  have hignored : p.isIgnored name = true :=
    (isIgnored_iff p name).2 ⟨i, hi, Resolution.same_trans hsame (same_of_resolve h)⟩
  rw [(resolve_eq_some_iff.1 h).1.2] at hignored
  cases hignored

/-- Under an active whitelist only the listed names have to be of ASCII characters. -/
theorem apply_not_ignored (hp : p.Over Text.IsAscii) (r : Request) (selected groupBy : List Text)
    (hr : p.whitelist = false → ∀ n ∈ r.names ++ selected ++ groupBy, n.IsAscii) :
    ∀ n ∈ (p.apply r selected groupBy).names, p.isIgnored n = false := by
  intro n hn
  obtain ⟨m, hm, hres⟩ := resolve_of_mem_names hn
  exact not_isIgnored_of_resolve (rename_of_resolve hp (fun hw => hr hw m hm) hres) hres

theorem apply_not_ignored_bank :
    let p : Policy := (empty .snakeCase .flexible).ignore ["Bank_ID".toList]
    let r : Request := ⟨some (.junction .and [.leaf "VendorID".toList (.null true),
        .leaf "bank.id".toList (.null true)]), [⟨"bankId".toList, .desc⟩], .none, []⟩
    let plan := p.apply r ["BANK id".toList] ["vendor id".toList]
    p.Over Text.IsAscii ∧ (∀ n ∈ r.names ++ ["BANK id".toList] ++ ["vendor id".toList], n.IsAscii) ∧
      plan.names = ["vendor_id".toList, "vendor_id".toList] ∧
      ∀ n ∈ plan.names, p.isIgnored n = false := by
  intro p r plan
  have hp : p.Over Text.IsAscii := (Over.empty .snakeCase .flexible).ignore (by decide)
  have hr : ∀ n ∈ r.names ++ ["BANK id".toList] ++ ["vendor id".toList], n.IsAscii := by decide
  exact ⟨hp, hr, by decide, apply_not_ignored hp r _ _ fun _ => hr⟩

end FilterQuery.Policy
