import FilterQuery.Proofs.Adding
import FilterQuery.Proofs.Outline
import FilterQuery.Proofs.Section
set_option autoImplicit false

/-!
Preloads read back. The text of each filter is level and trimmed, so that the sections of a load
block are found again; collected by relation they give the preloads they were written for.
-/

namespace FilterQuery

namespace Inherited

variable {P : Text → Prop}

mutual

/-- The text of an expression has a property that spaces and parentheses keep, when its fields
have it. -/
theorem expr [Regex.Engine] (h : Inherited P) (space : P [' '])
    (parens : ∀ t, P t → P ('(' :: t ++ [')'])) :
    ∀ {e : Expr}, (∀ p ∈ e.leaves, P p.1 ∧ p.2.Writable) → P e.write
  | .leaf f t, hl => by
    obtain ⟨hf, ht⟩ := hl (f, t) (by simp [Expr.leaves])
    rw [Expr.write]
    exact h.append _ _ hf (h.write ht)
  | .junction j es, hl => by
    rw [Expr.write]
    refine parens _ (h.join ?_ (h.exprs space parens ?_))
    · refine h.append [' '] _ space (h.append _ _ (h.of_marks ?_) space)
      cases j <;> decide
    · rwa [Expr.leaves] at hl
  | .not e, hl => by
    have hnot : (Expr.not e).write = notWord ++ ([' '] ++ ('(' :: e.write ++ [')'])) := by
      rw [Expr.write]
      simp
    rw [hnot]
    rw [Expr.leaves] at hl
    exact h.append _ _ (h.of_marks (by decide)) (h.append _ _ space (parens _ (h.expr space parens hl)))

theorem exprs [Regex.Engine] (h : Inherited P) (space : P [' '])
    (parens : ∀ t, P t → P ('(' :: t ++ [')'])) :
    ∀ {es : List Expr}, (∀ p ∈ Expr.leavesEach es, P p.1 ∧ p.2.Writable) →
      ∀ t ∈ Expr.writeEach es, P t
  | [], _, t, ht => by simp [Expr.writeEach] at ht
  | e :: es, hl, t, ht => by
    rw [Expr.leavesEach, List.forall_mem_append] at hl
    rw [Expr.writeEach, List.mem_cons] at ht
    rcases ht with rfl | ht
    · exact h.expr space parens hl.1
    · exact h.exprs space parens hl.2 t ht

end

end Inherited

namespace Text

theorem inherited_trimmed : Inherited Trimmed where
  nil := by simp [Trimmed]
  append _ _ ht hu := ht.append hu
  mark c hc := by
    simpa [Trimmed] using isBlank_of_isMark hc
  quoted t := by
    have hblank : isBlank '"' = false := by decide
    simp [Trimmed, Quoted.write, hblank, List.getLast?_cons]
  brackets t _ := by
    have hopen : isBlank '[' = false := by decide
    have hclose : isBlank ']' = false := by decide
    simp [Trimmed, hopen, hclose, List.getLast?_cons]

end Text

theorem Expr.trimmed_write [Regex.Engine] {e : Expr} (h : e.Readable) :
    e.write ≠ [] ∧ Text.Trimmed e.write := by
  have hends : ∀ c t d, Text.isBlank c = false → Text.isBlank d = false →
      Text.Trimmed (c :: t ++ [d]) := by
    intro c t d hc hd
    simp [Text.Trimmed, hc, hd, List.getLast?_cons]
  cases e with
  | leaf f t =>
    obtain ⟨hlegible, hwritable⟩ := h (f, t) (by simp [leaves])
    obtain ⟨hne, hf⟩ := Condition.trimmed_of_fieldName? hlegible.named
    rw [write]
    exact ⟨by simp [hne], hf.append (Text.inherited_trimmed.write hwritable)⟩
  | junction j es =>
    rw [write]
    exact ⟨List.cons_ne_nil _ _, hends _ _ _ (by decide) (by decide)⟩
  | not e =>
    have hwrite : (Expr.not e).write = 'n' :: ("ot (".toList ++ e.write) ++ [')'] := by
      rw [write]
      simp [notWord]
    rw [hwrite]
    exact ⟨List.cons_ne_nil _ _, hends _ _ _ (by decide) (by decide)⟩

theorem Expr.read_write [Regex.Engine] {e : Expr} (h : e.Readable) (hbinary : e.isBinary = true) :
    Expr.read e.write = some e := by
  have hread := congrArg Request.filter (Request.read_write_filter h)
  rw [paired_of_isBinary hbinary] at hread
  exact hread

def Expr.Enclosable (e : Expr) : Prop := ∀ p ∈ e.leaves, ∀ c ∈ p.1, c ∉ ['[', ']', '|']

instance (e : Expr) : Decidable e.Enclosable :=
  decidable_of_iff (e.leaves.all (fun p => p.1.all fun c => !(['[', ']', '|'].contains c)) = true)
    (by simp [Expr.Enclosable])

theorem Expr.level_write [Regex.Engine] {e : Expr} (h : e.Writable) (he : e.Enclosable) :
    LoadSection.Uncut e.write ∧ LoadSection.Unsplit e.write := by
  have hfield : ∀ p ∈ e.leaves, Passable LoadSection.guides p.1 := by
    intro p hp
    refine passable_of_forall fun c hc => ?_
    have hplain := (h p hp).1.not_reserved c hc
    have hguide := he p hp c hc
    simp only [List.mem_cons, List.not_mem_nil, or_false, not_or] at hplain hguide
    simp [LoadSection.guides, hplain, hguide]
  have huncut : ∀ c : Char, c ≠ '"' → c ≠ '[' → c ≠ ']' → LoadSection.Uncut [c] := by
    intro c hquote hopen hclose
    exact LoadSection.uncut_of_clear (p := fun c => c = '[' || c = ']') rfl rfl
      (passable_singleton hquote (by simp [hopen, hclose]))
  constructor
  · refine LoadSection.inherited_uncut.expr (huncut ' ' (by decide) (by decide) (by decide))
      (fun t ht => ?_) fun p hp => ⟨LoadSection.uncut_of_clear rfl rfl (hfield p hp), (h p hp).2⟩
    exact ((huncut '(' (by decide) (by decide) (by decide)).append ht).append
      (huncut ')' (by decide) (by decide) (by decide))
  · refine LoadSection.inherited_unsplit.expr
      (LoadSection.unsplit_of_clear (passable_singleton (by decide) rfl))
      (fun t ht => ht.enclose (.inr rfl))
      fun p hp => ⟨LoadSection.unsplit_of_clear (hfield p hp), (h p hp).2⟩

namespace Preloads

theorem forall_writeSections {P : Text → Prop} {ps : Preloads} (hr : ∀ p ∈ ps, P p.1)
    (hf : ∀ p ∈ ps, ∀ e ∈ p.2, P (p.1 ++ ':' :: e.write)) : ∀ s ∈ ps.writeSections, P s := by
  induction ps with
  | nil => simp [writeSections]
  | cons p ps ih =>
    obtain ⟨r, es⟩ := p
    rw [List.forall_mem_cons] at hr hf
    intro s hs
    rw [writeSections, List.mem_append] at hs
    rcases hs with hs | hs
    · split at hs
      · rw [List.mem_singleton.1 hs]
        exact hr.1
      · obtain ⟨e, he, rfl⟩ := List.mem_map.1 hs
        exact hf.1 e he
    · exact ih hr.2 hf.2 s hs

theorem writeSections_ne_nil {ps : Preloads} (h : ps ≠ []) : ps.writeSections ≠ [] := by
  cases ps with
  | nil => exact absurd rfl h
  | cons p ps =>
    obtain ⟨r, es⟩ := p
    cases es <;> simp [writeSections]

def sections : Preloads → List LoadSection
  | [] => []
  | (r, es) :: ps =>
    (if es.isEmpty then [⟨r, none⟩] else es.map fun e => ⟨r, some e.write⟩) ++ sections ps

variable [Regex.Engine]

theorem filterMap_read_writeSections {ps : Preloads} (hr : ∀ p ∈ ps, LegibleRelation p.1)
    (hf : ∀ p ∈ ps, ∀ e ∈ p.2, e.Readable) :
    ps.writeSections.filterMap LoadSection.read = ps.sections := by
  induction ps with
  | nil => rfl
  | cons p ps ih =>
    obtain ⟨r, es⟩ := p
    rw [List.forall_mem_cons] at hr hf
    have hes : (if es.isEmpty then [r] else es.map fun e => r ++ ':' :: e.write).filterMap
        LoadSection.read = if es.isEmpty then [⟨r, none⟩] else es.map fun e => ⟨r, some e.write⟩ := by
      split
      · simp [LoadSection.read_relation hr.1]
      · rw [List.filterMap_map, ← List.filterMap_eq_map]
        refine List.filterMap_congr fun e he => ?_
        obtain ⟨hne, htrimmed⟩ := Expr.trimmed_write (hf.1 e he)
        exact LoadSection.read_filtered hr.1 hne htrimmed
    rw [writeSections, sections, List.filterMap_append, hes, ih hr.2 hf.2]

def addSection (ps : Preloads) (s : LoadSection) : Preloads :=
  ps.add s.relation (s.filter.bind Expr.read).toList

theorem foldl_filters {r : Text} {ps : Preloads} (h : r ∉ ps.map Prod.fst) {es : List Expr}
    (hread : ∀ e ∈ es, Expr.read e.write = some e) (fs : List Expr) :
    (es.map fun e => LoadSection.mk r (some e.write)).foldl addSection (ps ++ [(r, fs)]) =
      ps ++ [(r, fs ++ es)] := by
  induction es generalizing fs with
  | nil => simp
  | cons e es ih =>
    rw [List.forall_mem_cons] at hread
    have hadd : addSection (ps ++ [(r, fs)]) ⟨r, some e.write⟩ = ps ++ [(r, fs ++ [e])] := by
      rw [addSection, Option.bind_some, hread.1]
      exact add_last h fs [e]
    rw [List.map_cons, List.foldl_cons, hadd, ih hread.2]
    simp

theorem foldl_sections {ps : Preloads} (qs : Preloads) (h : ((qs ++ ps).map Prod.fst).Nodup)
    (hread : ∀ p ∈ ps, ∀ e ∈ p.2, Expr.read e.write = some e) :
    ps.sections.foldl addSection qs = qs ++ ps := by
  induction ps generalizing qs with
  | nil => simp [sections]
  | cons p ps ih =>
    obtain ⟨r, es⟩ := p
    rw [List.forall_mem_cons] at hread
    have hnew : r ∉ qs.map Prod.fst := by
      rw [List.map_append, List.map_cons, List.nodup_append] at h
      intro hr
      exact h.2.2 r hr r (List.mem_cons_self ..) rfl
    -- the first filter of a relation makes its entry, and the others join it
    have hes : (if es.isEmpty then [LoadSection.mk r none]
        else es.map fun e => LoadSection.mk r (some e.write)).foldl addSection qs =
          qs ++ [(r, es)] := by
      cases es with
      | nil => exact add_new hnew []
      | cons e es =>
        have hadd : addSection qs ⟨r, some e.write⟩ = qs ++ [(r, [e])] := by
          rw [addSection, Option.bind_some, hread.1 e (List.mem_cons_self ..)]
          exact add_new hnew [e]
        have hrest := foldl_filters hnew (fun f hf => hread.1 f (List.mem_cons_of_mem _ hf)) [e]
        rw [List.isEmpty_cons, if_neg (by decide), List.map_cons, List.foldl_cons, hadd, hrest]
        rfl
    have happ : qs ++ (r, es) :: ps = qs ++ [(r, es)] ++ ps := by simp
    rw [sections, List.foldl_append, hes, ih _ (by rwa [← happ]) hread.2, ← happ]

theorem ofSections_sections {ps : Preloads} (h : (ps.map Prod.fst).Nodup)
    (hread : ∀ p ∈ ps, ∀ e ∈ p.2, Expr.read e.write = some e) : ofSections ps.sections = ps :=
  foldl_sections [] h hread

end Preloads

end FilterQuery
