import FilterQuery.Proofs.Request
import FilterQuery.Proofs.Typed
set_option autoImplicit false

/-!
What a text is read as. Each step of a reading keeps the outline sound, so that every request that
is read has typed filters, fields of an order that are words, page numbers of 63 bits and relations
with a name. Such a request reads back from its own text wherever its parts are legible in it.
-/

namespace FilterQuery

open QuoteState

theorem ne_of_isPrefixOf? {c d : Char} {t : Text} (h : [d].isPrefixOf? (c :: t) = none) :
    decide (c = d) = false := by
  rw [Text.isPrefixOf?_cons] at h
  split at h
  · cases h
  · rename_i hne
    simpa using fun heq : c = d => hne (beq_iff_eq.2 heq.symm)

theorem findUnquoted_some {d : Char} {q : QuoteState} {t before rest : Text}
    (h : findUnquoted [d] q t = some (before, rest)) :
    q.after before = .outside ∧ q.Clear (fun c => c = d) before := by
  induction t generalizing q before with
  | nil => cases h
  | cons c t ih =>
    rw [findUnquoted] at h
    split at h
    · rename_i hstarts
      cases h
      split at hstarts
      · rename_i hs
        exact ⟨((structural_iff q c).1 hs).1, clear_nil _ _⟩
      · cases hstarts
    · rename_i hstarts
      obtain ⟨⟨b, r⟩, hfind, heq⟩ := Option.map_eq_some_iff.1 h
      cases heq
      obtain ⟨hafter, hclear⟩ := ih hfind
      refine ⟨hafter, (clear_cons ..).2 ⟨fun hs => ?_, hclear⟩⟩
      rw [if_pos hs] at hstarts
      exact ne_of_isPrefixOf? hstarts

theorem findUnquoted_none {d : Char} {q : QuoteState} {t : Text}
    (h : findUnquoted [d] q t = none) : q.Clear (fun c => c = d) t := by
  induction t generalizing q with
  | nil => exact clear_nil _ _
  | cons c t ih =>
    rw [findUnquoted] at h
    split at h
    · cases h
    · rename_i hstarts
      refine (clear_cons ..).2 ⟨fun hs => ?_, ih (Option.map_eq_none_iff.1 h)⟩
      rw [if_pos hs] at hstarts
      exact ne_of_isPrefixOf? hstarts

structure LoadSection.Named (s : LoadSection) : Prop where
  ne_nil : s.relation ≠ []
  trimmed : Text.Trimmed s.relation
  clear : QuoteState.outside.Clear (fun c => c = ':') s.relation
  closed : s.filter ≠ none → Closed s.relation

theorem LoadSection.named_read {t : Text} {s : LoadSection} (h : read t = some s) : s.Named := by
  simp only [read] at h
  cases hfind : findUnquoted [':'] .outside (Text.trim t) with
  | some p =>
    obtain ⟨before, rest⟩ := p
    obtain ⟨hafter, hclear⟩ := findUnquoted_some hfind
    simp only [hfind] at h
    split at h
    · cases h
    · rename_i hne
      cases h
      exact ⟨hne, Text.trimmed_trim before, clear_trim hclear, fun _ => closed_trim hafter⟩
  | none =>
    simp only [hfind] at h
    split at h
    · cases h
    · rename_i hne
      cases h
      exact ⟨hne, Text.trimmed_trim t, findUnquoted_none hfind, fun hfilter => absurd rfl hfilter⟩

namespace Entry

theorem isWord_readWord {t word rest : Text} (h : readWord t = some (word, rest)) :
    IsWord word := by
  simp only [readWord] at h
  split at h
  · cases h
  · rename_i hne
    cases h
    exact ⟨hne, List.all_eq_true.1 List.all_takeWhile⟩

theorem isWord_key {t : Text} {e : Entry} (h : read t = some e) : IsWord e.key := by
  unfold read at h
  split at h
  · rename_i key rest hword
    simp only at h
    split at h
    · cases h
      exact isWord_readWord hword
    · cases h
  · cases h

end Entry

theorem isWord_readSort (body : Text) : ∀ k ∈ readSort body, Entry.IsWord k.field := by
  intro k hk
  obtain ⟨e, he, hkey⟩ := List.mem_filterMap.1 hk
  obtain ⟨t, -, hread⟩ := List.mem_filterMap.1 he
  have hword := Entry.isWord_key hread
  unfold Entry.sortKey? at hkey
  split at hkey
  · cases hkey
    exact hword
  · obtain ⟨d, -, rfl⟩ := Option.map_eq_some_iff.1 hkey
    exact hword

def Page.Bounded (p : Page) : Prop :=
  p.skip ≤ Int64.maxValue.toInt ∧ p.take ≤ Int64.maxValue.toInt

theorem bounded_apply {p : Page} (h : p.Bounded) (e : Entry) : (Entry.apply p e).Bounded := by
  unfold Entry.apply
  split
  · exact h
  · rename_i n hn
    have hmax : (n.toInt.toNat : Int) ≤ Int64.maxValue.toInt := by
      have hle : n.toInt ≤ Int64.maxValue.toInt := Int64.le_iff_toInt_le.1 (Int64.le_maxValue n)
      have hpos : 0 ≤ Int64.maxValue.toInt := by decide
      omega
    split
    · exact ⟨hmax, h.2⟩
    · split
      · exact ⟨h.1, hmax⟩
      · exact h

theorem bounded_applyPage {p : Page} (h : p.Bounded) (body : Text) : (applyPage p body).Bounded := by
  unfold applyPage
  induction Entry.readAll body generalizing p with
  | nil => exact h
  | cons e es ih => exact ih (bounded_apply h e)

structure Outline.Holds (P : Expr → Prop) (o : Outline) : Prop where
  nodes : Node.HasEach P o.nodes
  outer : ∀ ns ∈ o.outer, Node.HasEach P ns

structure Outline.Sound [Regex.Engine] (o : Outline) : Prop where
  tree : o.Holds Expr.Typed
  sort : ∀ k ∈ o.sort, Entry.IsWord k.field
  page : o.page.Bounded
  loads : ∀ s ∈ o.loads, s.Named

namespace Outline

section

variable {P : Expr → Prop} {o : Outline}

theorem holds_empty : empty.Holds P := ⟨trivial, by simp [empty]⟩

theorem Holds.add (h : o.Holds P) {n : Node} (hn : n.Has P) : (o.add n).Holds P :=
  ⟨(Node.hasEach_append ..).2 ⟨h.nodes, hn, trivial⟩, h.outer⟩

theorem Holds.openGroup (h : o.Holds P) : o.openGroup.Holds P :=
  ⟨trivial, List.forall_mem_cons.2 ⟨h.nodes, h.outer⟩⟩

theorem Holds.closeGroup (h : o.Holds P) : o.closeGroup.Holds P := by
  unfold Outline.closeGroup
  split
  · exact ⟨h.nodes, h.outer⟩
  · rename_i ns outer houter
    have hall := h.outer
    rw [houter, List.forall_mem_cons] at hall
    exact ⟨(Node.hasEach_append ..).2 ⟨hall.1, h.nodes, trivial⟩, hall.2⟩

theorem Holds.load (h : o.Holds P) (t : Text) : (o.load t).1.Holds P := by
  unfold Outline.load
  split <;> exact ⟨h.nodes, h.outer⟩

theorem Holds.step [Regex.Engine] (h : o.Holds P) {l : Lexeme}
    (hread : ∀ e, (Condition.read l.text l.rest).1 = some e → P e) : (o.step l).1.Holds P := by
  unfold Outline.step
  split
  · exact h.openGroup
  · split
    · exact h.closeGroup
    · split
      · exact h.add trivial
      · split
        · exact h.load _
        · split
          · exact ⟨h.nodes, h.outer⟩
          · split
            · exact ⟨h.nodes, h.outer⟩
            · split
              · rename_i e rest heq
                exact h.add (hread e (congrArg Prod.fst heq))
              · exact h

theorem hasEach_closeAll {nodes : List Node} {outer : List (List Node)}
    (h : Node.HasEach P nodes) (houter : ∀ ns ∈ outer, Node.HasEach P ns) :
    Node.HasEach P (closeAll nodes outer) := by
  induction outer generalizing nodes with
  | nil => exact h
  | cons ns outer ih =>
    rw [List.forall_mem_cons] at houter
    exact ih ((Node.hasEach_append ..).2 ⟨houter.1, h, trivial⟩) houter.2

theorem Holds.assemble (h : o.Holds P) (hP : Compositional P) {e : Expr}
    (he : Node.assemble o.root = some e) : P e :=
  Node.has_assemble hP (hasEach_closeAll h.nodes h.outer) he

end

variable {o : Outline}

variable [Regex.Engine]

theorem sound_empty : empty.Sound := by
  refine ⟨holds_empty, ?_, ⟨by decide, by decide⟩, ?_⟩ <;> simp [empty]

theorem Sound.closeGroup (h : o.Sound) : o.closeGroup.Sound := by
  have htree := h.tree.closeGroup
  unfold Outline.closeGroup at htree ⊢
  cases houter : o.outer <;> simp only [houter] at htree <;> exact { h with tree := htree }

theorem Sound.load (h : o.Sound) (t : Text) : (o.load t).1.Sound := by
  have hread : ∀ body, ∀ s ∈ o.loads ++ LoadSection.readAll body, s.Named := by
    intro body
    refine List.forall_mem_append.2 ⟨h.loads, fun s hs => ?_⟩
    obtain ⟨u, -, hu⟩ := List.mem_filterMap.1 hs
    exact LoadSection.named_read hu
  unfold Outline.load
  split
  · rename_i body rest hcut
    exact { h with tree := ⟨h.tree.nodes, h.tree.outer⟩, loads := hread body }
  · exact { h with tree := ⟨h.tree.nodes, h.tree.outer⟩, loads := hread t }

theorem Sound.step (h : o.Sound) (l : Lexeme) : (o.step l).1.Sound := by
  unfold Outline.step
  split
  · exact { h with tree := h.tree.openGroup }
  · split
    · exact h.closeGroup
    · split
      · exact { h with tree := h.tree.add trivial }
      · split
        · exact h.load _
        · split
          · rename_i body hsort
            exact { h with
              tree := ⟨h.tree.nodes, h.tree.outer⟩
              sort := List.forall_mem_append.2 ⟨h.sort, isWord_readSort body⟩ }
          · split
            · rename_i body hpage
              exact { h with
                tree := ⟨h.tree.nodes, h.tree.outer⟩
                page := bounded_applyPage h.page body }
            · split
              · rename_i e rest hread
                exact { h with tree := h.tree.add (Condition.typed_read hread) }
              · exact h

theorem Sound.readFrom (h : o.Sound) (t : Text) : (o.readFrom t).Sound := by
  fun_induction Outline.readFrom o t with
  | case1 => exact h
  | case2 o t l hl _ ih => exact ih (h.step l)

theorem sound_read (t : Text) : (read t).Sound := sound_empty.readFrom t

end Outline

theorem Expr.typed_read [Regex.Engine] {t : Text} {e : Expr} (h : Expr.read t = some e) : e.Typed :=
  (Outline.sound_read t).tree.assemble Expr.compositional_typed h

namespace Preloads

section

variable [Regex.Engine]

structure Sound (ps : Preloads) : Prop where
  distinct : (ps.map Prod.fst).Nodup
  relations : ∀ p ∈ ps, p.1 ≠ [] ∧ Text.Trimmed p.1 ∧ QuoteState.outside.Clear (fun c => c = ':') p.1
  closed : ∀ p ∈ ps, p.2 ≠ [] → Closed p.1
  filters : ∀ p ∈ ps, ∀ e ∈ p.2, e.Typed

theorem Sound.addSection {ps : Preloads} (h : ps.Sound) {s : LoadSection} (hs : s.Named) :
    (ps.addSection s).Sound := by
  have hname := And.intro hs.ne_nil (And.intro hs.trimmed hs.clear)
  have hfilters : ∀ e ∈ (s.filter.bind Expr.read).toList, e.Typed := by
    intro e he
    obtain ⟨t, -, hread⟩ := Option.bind_eq_some_iff.1 (Option.mem_toList.1 he)
    exact Expr.typed_read hread
  have hclosed : (s.filter.bind Expr.read).toList ≠ [] → Closed s.relation := by
    intro hne
    refine hs.closed fun hnone => hne ?_
    rw [hnone]
    rfl
  unfold Preloads.addSection
  generalize (s.filter.bind Expr.read).toList = es at hfilters hclosed
  refine ⟨nodup_add _ _ h.distinct, fun p hp => ?_, fun p hp hne => ?_, fun p hp => ?_⟩
  · rcases mem_add hp with hmem | rfl | ⟨fs, -, rfl⟩
    · exact h.relations p hmem
    · exact hname
    · exact hname
  · rcases mem_add hp with hmem | rfl | ⟨fs, hfs, rfl⟩
    · exact h.closed p hmem hne
    · exact hclosed hne
    · by_cases hnil : es = []
      · rw [hnil, List.append_nil] at hne
        exact h.closed (s.relation, fs) hfs hne
      · exact hclosed hnil
  · rcases mem_add hp with hmem | rfl | ⟨fs, hfs, rfl⟩
    · exact h.filters p hmem
    · exact hfilters
    · exact List.forall_mem_append.2 ⟨h.filters _ hfs, hfilters⟩

theorem sound_ofSections {ss : List LoadSection} (h : ∀ s ∈ ss, s.Named) :
    (ofSections ss).Sound := by
  have hfold : ∀ ps : Preloads, ps.Sound → (ss.foldl Preloads.addSection ps).Sound := by
    induction ss with
    | nil => exact fun _ hps => hps
    | cons s ss ih =>
      rw [List.forall_mem_cons] at h
      exact fun ps hps => ih h.2 _ (hps.addSection h.1)
  refine hfold [] ⟨List.nodup_nil, ?_, ?_, ?_⟩ <;> simp

end

theorem relation_mem_writeSections {ps : Preloads} {p : Text × List Expr} (hp : p ∈ ps)
    (hne : p.2 = []) : p.1 ∈ ps.writeSections := by
  induction ps with
  | nil => cases hp
  | cons q ps ih =>
    obtain ⟨s, fs⟩ := q
    rw [writeSections]
    rcases List.mem_cons.1 hp with rfl | hp
    · rw [show fs = [] from hne]
      exact List.mem_append_left _ (List.mem_singleton_self s)
    · exact List.mem_append_right _ (ih hp)

end Preloads

namespace Request

def leaves (r : Request) : List (Text × Test) :=
  (r.filter.toList ++ r.preloads.flatMap Prod.snd).flatMap Expr.leaves

/-- A request of which the text shows every joint: leaves that are legible, instants of four-digit
years, fields of the order without parentheses, and load sections whose brackets balance and that
part at the bars between them. -/
structure Recoverable (r : Request) : Prop where
  leaves : ∀ p ∈ r.leaves, FilterQuery.Legible p.1 p.2 ∧ p.2.Dated
  sort : ∀ k ∈ r.sort, ∀ c ∈ k.field, isParenthesis c = false
  preloads : LoadSection.Apart r.preloads.writeSections

instance (r : Request) : Decidable r.Recoverable :=
  decidable_of_iff ((∀ p ∈ r.leaves, FilterQuery.Legible p.1 p.2 ∧ p.2.Dated) ∧
      (∀ k ∈ r.sort, k.field.all (fun c => !isParenthesis c) = true) ∧
      LoadSection.Apart r.preloads.writeSections)
    ⟨fun ⟨hl, hs, hp⟩ => ⟨hl, fun k hk c hc => by simpa using List.all_eq_true.1 (hs k hk) c hc, hp⟩,
      fun ⟨hl, hs, hp⟩ =>
        ⟨hl, fun k hk => List.all_eq_true.2 fun c hc => by simp [hs k hk c hc], hp⟩⟩

section

variable [Regex.Engine]

theorem readable_of_leaves {r : Request} (h : r.Recoverable) {e : Expr}
    (he : e ∈ r.filter.toList ++ r.preloads.flatMap Prod.snd) (ht : e.Typed) :
    e.Readable ∧ e.isBinary = true := by
  refine ⟨fun p hp => ?_, ht.binary⟩
  obtain ⟨hlegible, hdated⟩ := h.leaves p (List.mem_flatMap.2 ⟨e, he, hp⟩)
  have hwritable := ht.tests p hp
  rw [Test.reread_eq_iff.2 hdated] at hwritable
  exact ⟨hlegible, hwritable⟩

theorem closed_relation {r : Request} (h : r.Recoverable) (hs : r.preloads.Sound) :
    ∀ p ∈ r.preloads, Closed p.1 := by
  intro p hp
  by_cases hne : p.2 = []
  · exact h.preloads.closed p.1 (Preloads.relation_mem_writeSections hp hne)
  · exact hs.closed p hp hne

theorem legible_read {t : Text} (h : (read t).Recoverable) : (read t).Legible := by
  have hsound := Outline.sound_read t
  have hpreloads : (read t).preloads.Sound := Preloads.sound_ofSections hsound.loads
  exact {
    filter := fun e he => readable_of_leaves h
      (List.mem_append_left _ (Option.mem_toList.2 he))
      (hsound.tree.assemble Expr.compositional_typed he)
    sort := fun k hk => ⟨hsound.sort k hk, h.sort k hk⟩
    page := hsound.page
    distinct := hpreloads.distinct
    relations := fun p hp => by
      obtain ⟨hne, htrimmed, hclear⟩ := hpreloads.relations p hp
      exact ⟨hne, htrimmed, closed_relation h hpreloads p hp, hclear⟩
    filters := fun p hp e he => readable_of_leaves h
      (List.mem_append_right _ (List.mem_flatMap.2 ⟨p, hp, he⟩)) (hpreloads.filters p hp e he)
    apart := h.preloads }

/-- A text that was read and is written again reads as before, if it is recoverable. -/
theorem read_write_read {t : Text} (h : (read t).Recoverable) : read (read t).write = read t :=
  read_write (legible_read h)

end

example :
    letI := Regex.Engine.words
    (read "\"first name\"=\"Ann\"".toList).write = "first name=\"Ann\"".toList ∧
      (read "first name=\"Ann\"".toList).filter.map Expr.fields = some ["name".toList] := by
  decide +kernel

/-- Quoted names, white space around operators and sections in any order are written in one way. -/
theorem read_write_read_spaced :
    letI := Regex.Engine.words
    (read "sort=b \"n\" <in> (1, 2) or not a.b =^\"x%\" load=[p: x > 1|q]".toList).Recoverable ∧
      (read "sort=b \"n\" <in> (1, 2) or not a.b =^\"x%\" load=[p: x > 1|q]".toList).write =
        "(n<in>[1,2] or not (a.b=^\"x%\")) sort=b:asc load=[p:x>1|q]".toList ∧
      read "(n<in>[1,2] or not (a.b=^\"x%\")) sort=b:asc load=[p:x>1|q]".toList =
        read "sort=b \"n\" <in> (1, 2) or not a.b =^\"x%\" load=[p: x > 1|q]".toList := by
  let engine := Regex.Engine.words
  have hrecoverable :
      (read "sort=b \"n\" <in> (1, 2) or not a.b =^\"x%\" load=[p: x > 1|q]".toList).Recoverable := by
    decide +kernel
  have hwrite : (read "sort=b \"n\" <in> (1, 2) or not a.b =^\"x%\" load=[p: x > 1|q]".toList).write =
      "(n<in>[1,2] or not (a.b=^\"x%\")) sort=b:asc load=[p:x>1|q]".toList := by
    decide +kernel
  have hback := read_write_read hrecoverable
  rw [hwrite] at hback
  exact ⟨hrecoverable, hwrite, hback⟩

end Request

end FilterQuery
