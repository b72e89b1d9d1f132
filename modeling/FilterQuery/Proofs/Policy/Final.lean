import FilterQuery.Proofs.Distinct
import FilterQuery.Proofs.Policy.Soundness
import FilterQuery.Proofs.Pruning
import FilterQuery.Proofs.Renaming
set_option autoImplicit false

/-!
A policy that is applied once more. What a name resolves to resolves to itself, unless it is empty
or a listed name that is renamed to another listed one; and a policy leaves its own plans as they
are exactly if they have no such names.
-/

namespace FilterQuery

def Request.columns (r : Request) : List Text :=
  r.filter.toList.flatMap Expr.fields ++ r.sort.map SortKey.field

def Plan.columns (p : Plan) : List Text := p.request.columns ++ p.selected ++ p.groupBy

structure Plan.SameColumns (p q : Plan) : Prop where
  filter : p.request.filter = q.request.filter
  sort : p.request.sort = q.request.sort
  selected : p.selected = q.selected
  groupBy : p.groupBy = q.groupBy

namespace Policy

variable {p : Policy}

theorem isIgnored_of_same {m n : Text} (h : p.resolution.same (p.rename m) (p.rename n) = true) :
    p.isIgnored m = p.isIgnored n := by
  rw [Bool.eq_iff_iff, isIgnored_iff, isIgnored_iff]
  exact exists_congr fun i => and_congr_right fun _ =>
    ⟨fun hi => Resolution.same_trans hi h,
      fun hi => Resolution.same_trans hi (Resolution.same_symm h)⟩

/-- A listed name that is renamed to another listed one. -/
def Displaced (p : Policy) (m : Text) : Prop := p.rename m ∈ p.allowed ∧ p.rename m ≠ m

/-- Names that resolve to displaced ones do come up: capital I with a dot above takes two renamings
to become i, and between them it is found by another spelling of i. -/
theorem exists_displaced : ∃ (p : Policy) (n m : Text), p.Over (fun _ => True) ∧ n.IsAscii ∧
    p.resolve n = some m ∧ p.Displaced m := by
  obtain ⟨honce, htwice⟩ := Naming.snakeCase_apply_dotted
  let p : Policy := { (empty .snakeCase .flexible).allow [['İ'], ['i']] with whitelist := true }
  have hallowed : p.allowed = [['i', Char.ofNat 0x307], ['i']] := by
    have hi : Naming.snakeCase.apply ['i'] = ['i'] := by decide
    simp only [p, allow, addTo, empty, rename, List.map_cons, List.map_nil, List.nil_append, honce,
      hi]
    decide
  refine ⟨p, "i.".toList, ['i', Char.ofNat 0x307],
    .whitelist true ((Over.empty _ _).allow fun _ _ => trivial), by decide, ?_, ?_⟩
  · have hignored : p.isIgnored "i.".toList = false := by decide
    rw [resolve_eq_some_iff, hallowed]
    exact ⟨⟨by decide, hignored⟩, by decide⟩
  · rw [Displaced, hallowed]
    change Naming.snakeCase.apply _ ∈ _ ∧ Naming.snakeCase.apply _ ≠ _
    rw [htwice]
    decide

theorem exists_rename_of_resolve {P : Text → Prop} (hp : p.Over P) {n m : Text}
    (h : p.resolve n = some m) : ∃ name, p.rename name = m := by
  cases hw : p.whitelist with
  | true =>
    obtain ⟨name, -, hname⟩ := hp.allowed_renamed m (mem_allowed_of_resolve hw h)
    exact ⟨name, hname⟩
  | false =>
    obtain ⟨-, h⟩ := resolve_eq_some_iff.1 h
    rw [hw] at h
    exact ⟨n, Option.some.inj h⟩

/-- Renaming what a name resolves to gives the same name to the policy. -/
theorem same_rename_of_resolve {P : Text → Prop} (hp : p.Over P) {n m : Text} (hn : n.IsAscii)
    (h : p.resolve n = some m) : p.resolution.same (p.rename m) (p.rename n) = true := by
  have hsame := same_of_resolve h
  cases hr : p.resolution with
  | strict =>
    rw [hr] at hsame
    have hm : m = p.rename n := eq_of_beq hsame
    rw [hm, rename, rename, p.naming.apply_apply hn, Resolution.same_refl]
  | flexible =>
    obtain ⟨name, rfl⟩ := exists_rename_of_resolve hp h
    rw [hr, Resolution.same_iff_folded] at hsame
    rw [Resolution.same_iff_folded, ← hsame]
    exact p.naming.folded_apply_apply name

/-- What a name resolves to it is itself renamed to, or it is a listed name that was found by
another spelling. -/
theorem rename_eq_or_of_resolve {n m : Text} (hn : n.IsAscii) (h : p.resolve n = some m) :
    p.rename m = m ∨ p.whitelist = true ∧ p.rename n ∉ p.allowed := by
  have happly : p.rename (p.rename n) = p.rename n := p.naming.apply_apply hn
  obtain ⟨-, h⟩ := resolve_eq_some_iff.1 h
  cases hw : p.whitelist with
  | false =>
    rw [hw] at h
    cases h
    exact .inl happly
  | true =>
    by_cases hmem : p.rename n ∈ p.allowed
    · rw [hw, if_pos rfl, Resolution.find?_of_mem hmem] at h
      cases h
      exact .inl happly
    · exact .inr ⟨rfl, hmem⟩

theorem resolve_self_iff {P : Text → Prop} (hp : p.Over P) {n m : Text} (hn : n.IsAscii)
    (h : p.resolve n = some m) : p.resolve m = some m ↔ m ≠ [] ∧ ¬p.Displaced m := by
  have hsame := same_rename_of_resolve hp hn h
  have hcases := rename_eq_or_of_resolve hn h
  obtain ⟨⟨-, hignored⟩, hfound⟩ := resolve_eq_some_iff.1 h
  rw [resolve_eq_some_iff, isIgnored_of_same hsame, and_iff_left hignored]
  refine and_congr_right fun _ => ?_
  by_cases hrename : p.rename m = m
  · refine iff_of_true ?_ fun hdisplaced => hdisplaced.2 hrename
    rw [hrename]
    split
    · rename_i hw
      exact Resolution.find?_of_mem (mem_allowed_of_resolve hw h)
    · rfl
  · obtain ⟨hw, hlisted⟩ := hcases.resolve_left hrename
    rw [if_pos hw] at hfound ⊢
    by_cases hmem : p.rename m ∈ p.allowed
    · rw [Resolution.find?_of_mem hmem, Option.some.injEq]
      exact iff_of_false hrename fun hnot => hnot ⟨hmem, hrename⟩
    · rw [Resolution.find?_congr hmem hlisted hsame]
      exact iff_of_true hfound fun hdisplaced => hmem hdisplaced.1

theorem folded_eq_nil_of_resolve {n : Text} (hn : n.IsAscii) (h : p.resolve n = some []) :
    n.folded = [] := by
  have hsame := same_of_resolve h
  cases hr : p.resolution with
  | strict =>
    rw [hr] at hsame
    rw [← p.naming.folded_apply hn, ← rename, ← eq_of_beq hsame, Text.folded_nil]
  | flexible =>
    rw [hr, Resolution.same_iff_folded] at hsame
    rw [← p.naming.folded_apply hn, ← rename, ← hsame, Text.folded_nil]

theorem of_displaced {n m : Text} (hn : n.IsAscii) (h : p.resolve n = some m)
    (hm : p.Displaced m) : p.whitelist = true ∧ p.naming = .snakeCase ∧
      p.resolution = .flexible ∧ ¬p.Over Text.IsAscii := by
  obtain ⟨hw, hlisted⟩ := (rename_eq_or_of_resolve hn h).resolve_left hm.2
  refine ⟨hw, ?_, ?_, fun hp => hm.2 (rename_of_resolve hp (fun _ => hn) h)⟩
  · cases hnaming : p.naming with
    | snakeCase => rfl
    | asIs => exact absurd (by rw [rename, hnaming, Naming.apply]) hm.2
  · have hsame := same_of_resolve h
    cases hr : p.resolution with
    | flexible => rfl
    | strict =>
      rw [hr] at hsame
      exact absurd (eq_of_beq hsame ▸ mem_allowed_of_resolve hw h) hlisted

/-! Plans that a policy is applied to once more. -/

theorem resolve_of_mem_columns {r : Request} {selected groupBy : List Text} {m : Text}
    (h : m ∈ (p.apply r selected groupBy).columns) :
    ∃ n ∈ r.columns ++ selected ++ groupBy, p.resolve n = some m := by
  have hnames : m ∈ (p.apply { r with preloads := [] } selected groupBy).names := by
    simpa [Plan.columns, Request.columns, Plan.names, Request.names, apply, preloads] using h
  simpa [Request.names, Request.columns] using resolve_of_mem_names hnames

theorem filter_eq_self_iff {e d : Expr} (h : p.filter e = some d) :
    p.filter d = some d ↔ ∀ f ∈ d.fields, p.resolve f = some f := by
  constructor
  · intro hself
    exact List.filterMap_eq_self_iff.1 (fields_applyWith hself).symm
  · intro hfinal
    have hleaf : ∀ l ∈ d.leaves, p.resolve l.1 = some l.1 := fun l hl =>
      hfinal l.1 (List.mem_map_of_mem hl)
    obtain ⟨c, hc, rfl⟩ := Option.map_eq_some_iff.1 h
    have hbranching := Expr.isBranching_rename (fun f => (p.resolve f).getD (p.rename f))
      (Expr.isBranching_prune hc)
    have hprune := Expr.prune_of_forall (fun f => (p.resolve f).isSome) hbranching
      fun l hl => Option.isSome_of_mem (hleaf l hl)
    rw [filter, applyWith, hprune, Option.map_some]
    refine congrArg some (Expr.rename_of_forall fun l hl => ?_)
    rw [hleaf l hl]
    rfl

theorem filter_plan_iff (p : Policy) (filter : Option Expr) :
    (filter.bind p.filter).bind p.filter = filter.bind p.filter ↔
      ∀ f ∈ (filter.bind p.filter).toList.flatMap Expr.fields, p.resolve f = some f := by
  cases h : filter.bind p.filter with
  | none => simp
  | some d =>
    obtain ⟨e, -, he⟩ := Option.bind_eq_some_iff.1 h
    rw [Option.bind_some, filter_eq_self_iff he]
    simp

theorem sort_eq_self_iff {keys : List SortKey} :
    p.sort keys = keys ↔ ∀ f ∈ keys.map SortKey.field, p.resolve f = some f := by
  rw [sort, List.filterMap_eq_self_iff, List.forall_mem_map]
  refine forall_congr' fun k => imp_congr_right fun _ => ?_
  obtain ⟨field, direction⟩ := k
  simp

theorem names_names_iff (p : Policy) (ns : List Text) :
    p.names (p.names ns) = p.names ns ↔ ∀ f ∈ p.names ns, p.resolve f = some f :=
  List.eraseDups_filterMap_eq_self_iff (List.nodup_eraseDups _)

theorem sameColumns_iff (p : Policy) (r : Request) (selected groupBy : List Text) :
    let plan := p.apply r selected groupBy
    (p.apply plan.request plan.selected plan.groupBy).SameColumns plan ↔
      ∀ m ∈ plan.columns, p.resolve m = some m := by
  intro plan
  have hfilter := p.filter_plan_iff r.filter
  have hsort : p.sort plan.request.sort = plan.request.sort ↔ _ := sort_eq_self_iff
  have hselected := p.names_names_iff selected
  have hgroupBy := p.names_names_iff groupBy
  simp only [Plan.columns, Request.columns, List.forall_mem_append]
  exact ⟨fun h => ⟨⟨⟨hfilter.1 h.filter, hsort.1 h.sort⟩, hselected.1 h.selected⟩,
      hgroupBy.1 h.groupBy⟩,
    fun h => ⟨hfilter.2 h.1.1.1, hsort.2 h.1.1.2, hselected.2 h.1.2, hgroupBy.2 h.2⟩⟩

/-- Any names may be listed; the names that are resolved are of ASCII characters. What they resolve
to may be displaced only through a list of other characters, as `exists_displaced` shows. -/
theorem resolved_names_final (hp : p.Over fun _ => True) :
    (∀ n m, n.IsAscii → p.resolve n = some m →
      (p.resolve m = some m ↔ m ≠ [] ∧ ¬p.Displaced m) ∧
      (m = [] → n.folded = []) ∧
      (p.whitelist = false → (m = [] ↔ p.naming = .snakeCase ∧ '.' ∉ n ∧ n.folded = [])) ∧
      (p.Displaced m → p.whitelist = true ∧ p.naming = .snakeCase ∧ p.resolution = .flexible ∧
        ¬p.Over Text.IsAscii)) ∧
    ∀ (r : Request) (selected groupBy : List Text),
      (∀ n ∈ r.columns ++ selected ++ groupBy, n.IsAscii) →
      let plan := p.apply r selected groupBy
      (p.apply plan.request plan.selected plan.groupBy).SameColumns plan ↔
        ∀ m ∈ plan.columns, m ≠ [] ∧ ¬p.Displaced m := by
  constructor
  · intro n m hn h
    refine ⟨resolve_self_iff hp hn h, ?_, ?_, of_displaced hn h⟩
    · rintro rfl
      exact folded_eq_nil_of_resolve hn h
    · intro hw
      obtain ⟨⟨hne, -⟩, hm⟩ := resolve_eq_some_iff.1 h
      rw [hw] at hm
      rw [← Option.some.inj hm]
      exact p.naming.apply_eq_nil_iff hn hne
  · intro r selected groupBy hr plan
    refine (p.sameColumns_iff r selected groupBy).trans (forall₂_congr fun m hm => ?_)
    obtain ⟨n, hn, h⟩ := resolve_of_mem_columns hm
    exact resolve_self_iff hp (hr n hn) h

theorem resolved_names_final_underscore :
    let p : Policy := (empty .snakeCase .flexible).ignore ["Bank_ID".toList]
    let r : Request := ⟨some (.junction .and [.leaf "UserID".toList (.null true),
        .leaf "_".toList (.null true)]), [⟨"bankId".toList, .asc⟩, ⟨"orders.ID".toList, .desc⟩],
      .none, []⟩
    let plan := p.apply r ["USER id".toList] []
    (p.Over (fun _ => True) ∧ ∀ n ∈ r.columns ++ ["USER id".toList] ++ [], n.IsAscii) ∧
      plan.columns = ["user_id".toList, [], "orders.id".toList, "user_id".toList] ∧
      p.resolve "user_id".toList = some "user_id".toList ∧
      p.resolve "_".toList = some [] ∧ p.resolve [] ≠ some [] ∧
      ¬(p.apply plan.request plan.selected plan.groupBy).SameColumns plan := by
  intro p r plan
  have hp : p.Over fun _ => True := (Over.empty .snakeCase .flexible).ignore fun _ _ => trivial
  have hr : ∀ n ∈ r.columns ++ ["USER id".toList] ++ [], n.IsAscii := by decide
  have hcolumns : plan.columns = ["user_id".toList, [], "orders.id".toList, "user_id".toList] := by
    decide
  have huser : p.resolve "UserID".toList = some "user_id".toList := by decide
  have hnone : p.resolve "_".toList = some [] := by decide
  obtain ⟨hnames, hplans⟩ := resolved_names_final hp
  have hinactive : p.whitelist ≠ true := by decide
  refine ⟨⟨hp, hr⟩, hcolumns, ?_, hnone, fun hself => ?_, fun hsame => ?_⟩
  · obtain ⟨hiff, -, -, hdisplaced⟩ := hnames _ _ (by decide) huser
    exact hiff.2 ⟨by decide, fun h => hinactive (hdisplaced h).1⟩
  · exact ((hnames _ _ (by decide) hnone).1.1 hself).1 rfl
  · have hfinal := (hplans r _ _ hr).1 hsame [] (by rw [hcolumns]; simp)
    exact hfinal.1 rfl

end Policy

end FilterQuery
