import FilterQuery.Proofs.Reading
set_option autoImplicit false

/-!
The shape of requests. Whatever a text holds, the filters that are read from it are named tests of
scalars under negations and junctions of two operands, and its other sections are in order too.
-/

namespace FilterQuery

def Value.IsScalar : Value → Prop
  | .float x => x.isFinite = true
  | .list _ => False
  | _ => True

section

variable [Regex.Engine]

def Test.WellFormed : Test → Prop
  | .compare _ v => v.IsScalar
  | .pattern .regex p => Regex.Engine.accepts p = true
  | .pattern _ _ => True
  | .member _ vs => ∀ v ∈ vs, v.IsScalar
  | .between low high => low.IsScalar ∧ high.IsScalar
  | .null _ => True

inductive Expr.WellFormed : Expr → Prop where
  | leaf {f : Text} {t : Test} (named : f ≠ []) (test : t.WellFormed) : WellFormed (.leaf f t)
  | not {e : Expr} (operand : e.WellFormed) : WellFormed (.not e)
  | junction (j : Junction) {l r : Expr} (left : l.WellFormed) (right : r.WellFormed) :
    WellFormed (.junction j [l, r])

theorem Expr.compositional_wellFormed : Compositional Expr.WellFormed := ⟨.not, .junction⟩

end

theorem Value.isScalar_of_reread {v : Value} (h : v.reread.Writable) : v.IsScalar := by
  cases v with
  | float x => exact h
  | list vs => exact h
  | _ => trivial

theorem Test.wellFormed_of_reread [Regex.Engine] {t : Test} (h : t.reread.Writable) :
    t.WellFormed := by
  cases t with
  | compare c v => exact Value.isScalar_of_reread h
  | pattern k p =>
    cases k with
    | regex => exact h
    | _ => trivial
  | member n vs => exact fun v hv => Value.isScalar_of_reread (h v.reread (List.mem_map_of_mem hv))
  | between low high => exact ⟨Value.isScalar_of_reread h.1, Value.isScalar_of_reread h.2⟩
  | null n => trivial

namespace Condition

theorem fieldName?_ne_nil {t f : Text} (h : fieldName? t = some f) : f ≠ [] := by
  unfold fieldName? at h
  split at h
  · cases h
  · split at h
    · simpa using (Option.filter_eq_some_iff.1 h).2
    · cases h
      exact List.cons_ne_nil _ _

variable [Regex.Engine]

theorem build_cases {o : Operator} {f operand : Text} {e : Expr} (h : build o f operand = some e) :
    ∃ t, e = .leaf f t ∨ e = .not (.leaf f t) := by
  cases o with
  | null n =>
    cases h
    exact ⟨_, .inl rfl⟩
  | pattern k =>
    cases k <;> obtain ⟨_, -, rfl⟩ := Option.map_eq_some_iff.1 h <;> exact ⟨_, .inl rfl⟩
  | notLike | notRegex =>
    obtain ⟨_, -, rfl⟩ := Option.map_eq_some_iff.1 h
    exact ⟨_, .inr rfl⟩
  | member _ | between | compare _ =>
    obtain ⟨_, -, rfl⟩ := Option.map_eq_some_iff.1 h
    exact ⟨_, .inl rfl⟩

theorem wellFormed_build {o : Operator} {f operand : Text} {e : Expr} (hf : f ≠ [])
    (h : build o f operand = some e) : e.WellFormed := by
  have htests := (typed_build h).tests
  obtain ⟨t, rfl | rfl⟩ := build_cases h
  · exact .leaf hf (Test.wellFormed_of_reread (htests (f, t) (List.mem_singleton_self _)))
  · exact .not (.leaf hf (Test.wellFormed_of_reread (htests (f, t) (List.mem_singleton_self _))))

theorem wellFormed_readAt {o : Operator} {before after rest : Text} {e : Expr}
    (h : (readAt o before after rest).1 = some e) : e.WellFormed := by
  unfold readAt at h
  split at h
  · cases h
  · rename_i f hf
    have hne := fieldName?_ne_nil hf
    split at h
    · exact wellFormed_build hne h
    · split at h
      · exact wellFormed_build hne h
      · split at h
        · cases h
        · exact wellFormed_build hne h

theorem wellFormed_read {token rest : Text} {e : Expr} (h : (read token rest).1 = some e) :
    e.WellFormed := by
  unfold read at h
  split at h
  · exact wellFormed_readAt h
  · split at h
    · cases h
    · split at h
      · exact wellFormed_readAt h
      · cases h

end Condition

section

variable [Regex.Engine]

/-- What every comparison has that is read, and what operators pass on, the outline has. -/
theorem Outline.Holds.readFrom {P : Expr → Prop} {o : Outline} (h : o.Holds P)
    (hread : ∀ {token rest e}, (Condition.read token rest).1 = some e → P e) (t : Text) :
    (o.readFrom t).Holds P := by
  fun_induction Outline.readFrom o t with
  | case1 => exact h
  | case2 o t l hl _ ih => exact ih (h.step fun _ => hread)

theorem Expr.wellFormed_read {t : Text} {e : Expr} (h : Expr.read t = some e) : e.WellFormed :=
  (Outline.holds_empty.readFrom Condition.wellFormed_read t).assemble compositional_wellFormed h

theorem Preloads.exists_read_of_mem {ss : List LoadSection} :
    ∀ p ∈ ofSections ss, ∀ e ∈ p.2, ∃ t, Expr.read t = some e := by
  have hfold : ∀ ps : Preloads, (∀ p ∈ ps, ∀ e ∈ p.2, ∃ t, Expr.read t = some e) →
      ∀ p ∈ ss.foldl addSection ps, ∀ e ∈ p.2, ∃ t, Expr.read t = some e := by
    induction ss with
    | nil => exact fun _ hps => hps
    | cons s ss ih =>
      intro ps hps
      refine ih _ fun p hp => ?_
      have hfilter : ∀ e ∈ (s.filter.bind Expr.read).toList, ∃ t, Expr.read t = some e := by
        intro e he
        obtain ⟨t, -, ht⟩ := Option.bind_eq_some_iff.1 (Option.mem_toList.1 he)
        exact ⟨t, ht⟩
      rcases mem_add hp with hmem | rfl | ⟨fs, hfs, rfl⟩
      · exact hps p hmem
      · exact hfilter
      · exact List.forall_mem_append.2 ⟨hps _ hfs, hfilter⟩
  exact hfold [] (by simp)

end

namespace Entry

theorem isWord_iff {t : Text} :
    IsWord t ↔ t ≠ [] ∧ ∀ c ∈ t, Text.isBlank c = false ∧ c ≠ '"' ∧ c ≠ ':' ∧ c ≠ ',' := by
  simp [IsWord, inWord, and_assoc]

end Entry

namespace Request

/-- Of every text, the filter and the filters of all preloads are well formed, the order names its
fields without white space, quote marks, colons and commas, the relations are named without white
space around their names, and the numbers of the page have 63 bits. -/
theorem read_wellFormed [Regex.Engine] (t : Text) :
    (∀ e ∈ (read t).filter, e.WellFormed) ∧
      (∀ k ∈ (read t).sort, k.field ≠ [] ∧
        ∀ c ∈ k.field, Text.isBlank c = false ∧ c ≠ '"' ∧ c ≠ ':' ∧ c ≠ ',') ∧
      (∀ p ∈ (read t).preloads,
        p.1 ≠ [] ∧ Text.trim p.1 = p.1 ∧ ∀ e ∈ p.2, e.WellFormed) ∧
      (read t).page.skip < 2 ^ 63 ∧ (read t).page.take < 2 ^ 63 := by
  have hsound := Outline.sound_read t
  have hpreloads : (read t).preloads.Sound := Preloads.sound_ofSections hsound.loads
  obtain ⟨hskip, htake⟩ : (read t).page.Bounded := hsound.page
  have hmax : Int64.maxValue.toInt = 2 ^ 63 - 1 := by decide
  refine ⟨fun e he => Expr.wellFormed_read he, fun k hk => Entry.isWord_iff.1 (hsound.sort k hk),
    fun p hp => ?_, by omega, by omega⟩
  obtain ⟨hne, htrimmed, -⟩ := hpreloads.relations p hp
  refine ⟨hne, htrimmed.trim_eq, fun e he => ?_⟩
  obtain ⟨u, hu⟩ := Preloads.exists_read_of_mem p hp e he
  exact Expr.wellFormed_read hu

end Request

end FilterQuery
