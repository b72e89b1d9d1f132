import FilterQuery.Proofs.QuotedSpan
import FilterQuery.Proofs.Request
set_option autoImplicit false

/-!
Load blocks that are written section by section. Three scans take a block apart: the cut counts its
brackets, the split its brackets and parentheses, and the search for a colon counts neither. Over
properly nested text each of them keeps the same stack of open brackets, so they agree on what
stands outside all of them.
-/

namespace FilterQuery

open FilterQuery.QuoteState FilterQuery.Bracket

theorem WellBracketed.append {t u : Text} (ht : WellBracketed t) (hu : WellBracketed u) :
    WellBracketed (t ++ u) := by
  induction ht with
  | nil => exact hu
  | plain hc _ ih => exact .plain hc ih
  | literal hbody _ ih => simpa using WellBracketed.literal hbody ih
  | enclosed b h _ _ ih => simpa using WellBracketed.enclosed b h ih

theorem wellBracketed_of_plain {t : Text} (h : ∀ c ∈ t, isDelimiter c = false) :
    WellBracketed t := by
  induction t with
  | nil => exact .nil
  | cons c t ih =>
    rw [List.forall_mem_cons] at h
    exact .plain h.1 (ih h.2)

instance (t : Text) : Decidable (WellBracketed t) :=
  decidable_of_iff (outside.after t = outside ∧ after? .outside [] t = some []) (balanced_iff t)

theorem inherited_wellBracketed : Inherited WellBracketed where
  nil := .nil
  append _ _ ht hu := ht.append hu
  mark c hc := by
    refine .plain ?_ .nil
    have hne : ∀ d, isMark d = false → c ≠ d := fun _ hd => ne_of_isMark hc hd
    simp [isDelimiter, hne '(' (by decide), hne ')' (by decide), hne '[' (by decide),
      hne ']' (by decide), hne '"' (by decide)]
  quoted t := .literal (Quoted.literalBody_flatMap t) .nil
  brackets _ ht := .enclosed .square ht .nil

namespace LoadSection

def write (s : LoadSection) : Text := s.relation ++ s.filter.elim [] (':' :: ·)

def writeAll (ss : List LoadSection) : Text := Text.join ['|'] (ss.map write)

/-- A section with a plain relation whose filter text has closed literals and properly nested
brackets. -/
structure Framed (s : LoadSection) : Prop where
  relation : PlainRelation s.relation
  filter : ∀ w ∈ s.filter, w ≠ [] ∧ Text.trim w = w ∧ WellBracketed w

instance (s : LoadSection) : Decidable s.Framed :=
  decidable_of_iff (PlainRelation s.relation ∧
      ∀ w ∈ s.filter, w ≠ [] ∧ Text.trim w = w ∧ WellBracketed w)
    ⟨fun ⟨hr, hf⟩ => ⟨hr, hf⟩, fun ⟨hr, hf⟩ => ⟨hr, hf⟩⟩

/-- No bar of a text stands where every literal and every bracket before it is closed. -/
def BarsEnclosed (w : Text) : Prop := ∀ u v, w = u ++ '|' :: v → ¬WellBracketed u

theorem barsEnclosed_iff (w : Text) : BarsEnclosed w ↔
    ∀ n < w.length, w[n]? = some '|' → ¬WellBracketed (w.take n) := by
  constructor
  · intro h n hn hbar
    obtain ⟨hlt, hbar⟩ := List.getElem?_eq_some_iff.1 hbar
    refine h _ (w.drop (n + 1)) ?_
    rw [← hbar, List.getElem_cons_drop, List.take_append_drop]
  · rintro h u v rfl
    have hu := h u.length (by simp) (by simp)
    rwa [List.take_left] at hu

instance (w : Text) : Decidable (BarsEnclosed w) := decidable_of_iff _ (barsEnclosed_iff w).symm

/-- The split counts the open brackets of both kinds. -/
theorem nesting_step? {q : QuoteState} {opened o : List Bracket} {c : Char}
    (h : step? q opened c = some o) (depth : Nat) :
    nesting q (depth + opened.length) c = depth + o.length := by
  rcases step?_cases h with ⟨b, hs, rfl, rfl⟩ | ⟨b, hs, rfl, rfl⟩ | ⟨hno, rfl⟩
  · have hopen : b.opening = '[' ∨ b.opening = '(' := by cases b <;> simp [opening]
    rw [nesting, if_pos ⟨hs, hopen⟩]
    rfl
  · have hopen : ¬(b.closing = '[' ∨ b.closing = '(') := by cases b <;> simp [closing]
    have hclose : b.closing = ']' ∨ b.closing = ')' := by cases b <;> simp [closing]
    rw [nesting, if_neg fun hc => hopen hc.2, if_pos ⟨hs, hclose⟩]
    rfl
  · have hround := fun hs => hno hs .round
    have hsquare := fun hs => hno hs .square
    simp only [opening, closing] at hround hsquare
    rw [nesting, if_neg, if_neg]
    · rintro ⟨hs, hc | hc⟩
      · exact (hsquare hs).2 hc
      · exact (hround hs).2 hc
    · rintro ⟨hs, hc | hc⟩
      · exact (hsquare hs).1 hc
      · exact (hround hs).1 hc

/-- A text is not split where at each of its bars a literal or a bracket is open. -/
theorem splitTop_of_after? {q : QuoteState} {opened o : List Bracket} {t : Text}
    (h : after? q opened t = some o)
    (hbars : ∀ u v, t = u ++ '|' :: v → q.after u = outside → after? q opened u ≠ some [])
    (depth : Nat) (rest : Text) :
    splitTop '|' q (depth + opened.length) (t ++ rest) =
      (splitTop '|' (q.after t) (depth + o.length) rest).modifyHead (t ++ ·) := by
  induction t generalizing q opened with
  | nil =>
    cases h
    rw [List.nil_append, after_nil]
    cases splitTop '|' q (depth + o.length) rest <;> rfl
  | cons c t ih =>
    obtain ⟨o', hstep, hrest⟩ := Option.bind_eq_some_iff.1 h
    -- a count of zero means that no bracket is open, and there stands no bar
    have hbar : ¬(q.structural c = true ∧ c = '|' ∧ depth + opened.length = 0) := by
      rintro ⟨hs, rfl, hzero⟩
      have hopened : opened = [] := List.eq_nil_of_length_eq_zero (by omega)
      exact hbars [] t rfl ((structural_iff _ _).1 hs).1 (by rw [hopened]; rfl)
    have htail : ∀ u v, t = u ++ '|' :: v → (q.next c).after u = outside →
        after? (q.next c) o' u ≠ some [] := by
      rintro u v rfl hafter hmatched
      refine hbars (c :: u) v rfl hafter ?_
      rw [after?, hstep]
      exact hmatched
    rw [List.cons_append, splitTop, if_neg hbar, nesting_step? hstep, ih hrest htail, after_cons]
    simp [Function.comp_def]

theorem BarsEnclosed.unsplit {w : Text} (hw : WellBracketed w) (h : BarsEnclosed w) :
    Unsplit w := by
  obtain ⟨hclosed, hmatched⟩ := hw.scan []
  refine ⟨hclosed, fun depth u => ?_⟩
  have hsplit := splitTop_of_after? hmatched (fun u v happ hafter hopened =>
    h u v happ ((balanced_iff u).1 ⟨hafter, hopened⟩)) depth u
  rwa [hclosed] at hsplit

namespace Framed

variable {s : LoadSection}

theorem wellBracketed_write (h : s.Framed) : WellBracketed s.write := by
  have hrelation : WellBracketed s.relation := wellBracketed_of_plain fun c hc => by
    have hne := h.relation.not_reserved c hc
    simp only [List.mem_cons, List.not_mem_nil, or_false, not_or] at hne
    simp [isDelimiter, hne]
  rw [write]
  cases hfilter : s.filter with
  | none => exact hrelation.append .nil
  | some w => exact hrelation.append (.plain (by decide) (h.filter w hfilter).2.2)

theorem unsplit_write (h : s.Framed) (hbars : ∀ w ∈ s.filter, BarsEnclosed w) :
    Unsplit s.write := by
  have hrelation : Unsplit s.relation := unsplit_of_clear h.relation.passable.2
  have hcolon : Unsplit [':'] := unsplit_of_clear (passable_singleton (by decide) rfl)
  rw [write]
  cases hfilter : s.filter with
  | none => exact hrelation.append inherited_unsplit.nil
  | some w =>
    exact hrelation.append (hcolon.append ((hbars w hfilter).unsplit (h.filter w hfilter).2.2))

theorem read_write (h : s.Framed) : read s.write = some s := by
  obtain ⟨r, filter⟩ := s
  cases filter with
  | none =>
    rw [write, Option.elim_none, List.append_nil]
    exact read_relation h.relation.legible
  | some w =>
    obtain ⟨hne, htrim, -⟩ := h.filter w rfl
    exact read_filtered h.relation.legible hne (htrim ▸ Text.trimmed_trim w)

end Framed

theorem cut_writeAll {ss : List LoadSection} (h : ∀ s ∈ ss, s.Framed) (rest : Text) :
    cut (writeAll ss ++ ']' :: rest) = some (writeAll ss, rest) := by
  have hjoin : WellBracketed (writeAll ss) := by
    refine inherited_wellBracketed.join (.plain (by decide) .nil) fun t ht => ?_
    obtain ⟨s, hs, rfl⟩ := List.mem_map.1 ht
    exact (h s hs).wellBracketed_write
  obtain ⟨hclosed, hmatched⟩ := hjoin.scan []
  exact cutBlock_of_after? hclosed hmatched rest

/-- A bar at the top of a filter text ends the section. -/
theorem readAll_bar_at_top : ¬∀ ss : List LoadSection, (∀ s ∈ ss, s.Framed) → ∀ rest : Text,
    cut (writeAll ss ++ ']' :: rest) = some (writeAll ss, rest) ∧ readAll (writeAll ss) = ss := by
  intro h
  exact absurd (h [⟨"a".toList, some "x=1|b".toList⟩] (by decide) []).2 (by decide)

/-- A block of sections whose filter texts have their bars enclosed is cut at its own bracket,
whatever stands behind it, is read as these sections, and the reader goes on behind the bracket. -/
theorem readAll_writeAll [Regex.Engine] {ss : List LoadSection} (h : ∀ s ∈ ss, s.Framed)
    (hbars : ∀ s ∈ ss, ∀ w ∈ s.filter, BarsEnclosed w) (rest : Text) :
    cut (writeAll ss ++ ']' :: rest) = some (writeAll ss, rest) ∧
      readAll (writeAll ss) = ss ∧
      ∀ o : Outline, o.readFrom (loadMark ++ writeAll ss ++ ']' :: rest) =
        { o with loads := o.loads ++ ss }.readFrom rest := by
  have hcut := cut_writeAll h rest
  have hread : readAll (writeAll ss) = ss := by
    cases ss with
    | nil => rfl
    | cons s ss =>
      have hunsplit : ∀ t ∈ (s :: ss).map write, Unsplit t := by
        intro t ht
        obtain ⟨u, hu, rfl⟩ := List.mem_map.1 ht
        exact (h u hu).unsplit_write (hbars u hu)
      have hsections : ∀ u ∈ s :: ss, (read ∘ write) u = some u := fun u hu => (h u hu).read_write
      rw [readAll, writeAll, List.map_cons, splitTop_join hunsplit, ← List.map_cons,
        List.filterMap_map, List.filterMap_congr hsections, List.filterMap_some]
  refine ⟨hcut, hread, fun o => ?_⟩
  rw [List.append_assoc, Outline.readFrom_load, Outline.load, hcut]
  simp only [hread]

theorem readAll_writeAll_nested :
    (∀ s ∈ [⟨"a".toList, some "x<in>[\"|]:\",2]".toList⟩, ⟨"b".toList, none⟩,
        ⟨"c".toList, some "load=[d:(y=1)|e] z=2".toList⟩], Framed s) ∧
      cut "a:x<in>[\"|]:\",2]|b|c:load=[d:(y=1)|e] z=2]]|w".toList =
        some ("a:x<in>[\"|]:\",2]|b|c:load=[d:(y=1)|e] z=2".toList, "]|w".toList) ∧
      readAll "a:x<in>[\"|]:\",2]|b|c:load=[d:(y=1)|e] z=2".toList =
        [⟨"a".toList, some "x<in>[\"|]:\",2]".toList⟩, ⟨"b".toList, none⟩,
          ⟨"c".toList, some "load=[d:(y=1)|e] z=2".toList⟩] := by
  have hframed : ∀ s ∈ [⟨"a".toList, some "x<in>[\"|]:\",2]".toList⟩, ⟨"b".toList, none⟩,
      ⟨"c".toList, some "load=[d:(y=1)|e] z=2".toList⟩], Framed s := by decide
  let engine := Regex.Engine.words
  obtain ⟨hcut, hread, -⟩ := readAll_writeAll hframed (by decide) "]|w".toList
  exact ⟨hframed, hcut, hread⟩

end LoadSection

end FilterQuery
