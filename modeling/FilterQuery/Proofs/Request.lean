import FilterQuery.Proofs.Joints
import FilterQuery.Proofs.Preloads
set_option autoImplicit false

/-!
Requests read back. Each section of a request's text is one token, or a load block that ends the
text, and adds to the outline what it was written for.
-/

namespace FilterQuery

theorem Page.eq_none_of_isEmpty {p : Page} (h : p.isEmpty = true) : p = Page.none := by
  obtain ⟨skip, take⟩ := p
  simp only [isEmpty, Bool.and_eq_true, beq_iff_eq] at h
  rw [h.1, h.2]
  rfl

namespace Outline

open Lexeme

/-- Sections with a space between every two, or before each, are read alike. -/
theorem readFrom_join [Regex.Engine] (o : Outline) (ss : List Text) :
    o.readFrom (Text.join [' '] ss) = o.readFrom (ss.flatMap (' ' :: ·)) := by
  have hjoin : ∀ (s : Text) (ss : List Text),
      Text.join [' '] (s :: ss) = s ++ ss.flatMap (' ' :: ·) := by
    intro s ss
    induction ss generalizing s with
    | nil => simp
    | cons t ss ih =>
      rw [Text.join_cons_cons, ih, List.flatMap_cons]
      rfl
  cases ss with
  | nil => rfl
  | cons s ss => rw [hjoin, List.flatMap_cons, List.cons_append, readFrom_gap (by decide)]

theorem atBreak_flatMap (ss : List Text) {rest : Text} (hr : AtBreak rest) :
    AtBreak (ss.flatMap (' ' :: ·) ++ rest) := by
  cases ss with
  | nil => exact hr
  | cons s ss => exact atBreak_cons (by decide)

section

variable [Regex.Engine]

theorem step_sort (o : Outline) (gap body rest : Text) :
    o.step ⟨gap, sortMark ++ body, rest⟩ = ({ o with sort := o.sort ++ readSort body }, rest) := rfl

theorem step_page (o : Outline) (gap body rest : Text) :
    o.step ⟨gap, pageMark ++ body, rest⟩ = ({ o with page := applyPage o.page body }, rest) := rfl

theorem step_load (o : Outline) (gap body rest : Text) :
    o.step ⟨gap, loadMark ++ body, rest⟩ = o.load (body ++ rest) := rfl

end

theorem breaks_of_inWord {c : Char} (h : Entry.inWord c = true)
    (hparenthesis : isParenthesis c = false) : c ≠ '"' ∧ breaks c = false := by
  refine ⟨?_, breaks_of_not_blank (Entry.isBlank_of_inWord h) hparenthesis⟩
  rintro rfl
  exact absurd h (by decide)

theorem next?_section (mark : Text) {body rest : Text} (hne : mark ≠ []) (hmark : Passable breaks mark)
    (hbody : Passable breaks body) (hr : AtBreak rest) :
    next? (mark ++ body ++ rest) = some ⟨[], mark ++ body, rest⟩ := by
  have hpass := hmark.append hbody
  exact next?_word (by simp [hne]) hpass.2 hpass.1 hr

variable [Regex.Engine]

theorem readFrom_sort {ks : List SortKey} (hne : ks ≠ [])
    (h : ∀ k ∈ ks, Entry.IsWord k.field ∧ ∀ c ∈ k.field, isParenthesis c = false) (o : Outline)
    {rest : Text} (hr : AtBreak rest) :
    o.readFrom (sortMark ++ Text.join [','] (ks.map SortKey.write) ++ rest) =
      { o with sort := o.sort ++ ks }.readFrom rest := by
  have hbody : Passable breaks (Text.join [','] (ks.map SortKey.write)) := by
    refine inherited_breaks.join (passable_of_all (by decide)) fun t ht => ?_
    obtain ⟨k, hk, rfl⟩ := List.mem_map.1 ht
    have hfield : Passable breaks k.field :=
      passable_of_forall fun c hc => breaks_of_inWord ((h k hk).1.2 c hc) ((h k hk).2 c hc)
    have hdirection : Passable breaks (':' :: k.direction.word) := by
      refine passable_of_all ?_
      cases k.direction <;> decide
    exact hfield.append hdirection
  have hnext := next?_section sortMark (by decide) (passable_of_all (by decide)) hbody hr
  rw [readFrom_next hnext, step_sort, readSort_join hne fun k hk => (h k hk).1]

theorem readFrom_page {p : Page} (hskip : p.skip ≤ Int64.maxValue.toInt)
    (htake : p.take ≤ Int64.maxValue.toInt) (o : Outline) {rest : Text} (hr : AtBreak rest) :
    o.readFrom (p.write ++ rest) = { o with page := p }.readFrom rest := by
  have hnumber : ∀ n, Passable breaks (Text.ofNat n) := fun n =>
    inherited_breaks.of_marks <| List.all_eq_true.2 fun c hc => by
      simp [isMark, Text.isPlain_of_isDigit (Text.isDigit_of_mem_ofNat hc)]
  have hbody : Passable breaks
      ("skip:".toList ++ Text.ofNat p.skip ++ ",take:".toList ++ Text.ofNat p.take) :=
    (((passable_of_all (by decide)).append (hnumber _)).append
      (passable_of_all (by decide))).append (hnumber _)
  have hnext := next?_section pageMark (by decide) (passable_of_all (by decide)) hbody hr
  have hwrite : p.write = pageMark ++
      ("skip:".toList ++ Text.ofNat p.skip ++ ",take:".toList ++ Text.ofNat p.take) := by
    unfold Page.write
    rw [show "page=skip:".toList = pageMark ++ "skip:".toList by decide, List.append_assoc pageMark,
      List.append_assoc pageMark, List.append_assoc pageMark]
  rw [hwrite, readFrom_next hnext, step_page, applyPage_write hskip htake]

theorem readFrom_load (o : Outline) (t : Text) :
    o.readFrom (loadMark ++ t) = (o.load t).1.readFrom (o.load t).2 := by
  have hmark : Passable breaks loadMark := passable_of_all (by decide)
  have hnext := next?_append (u := loadMark) (by decide) hmark.2 hmark.1 t
  rw [readFrom_next hnext, step_load, spanWord_append]

end Outline

section

variable [Regex.Engine]

structure Request.Legible (r : Request) : Prop where
  filter : ∀ e ∈ r.filter, e.Readable ∧ e.isBinary = true
  sort : ∀ k ∈ r.sort, Entry.IsWord k.field ∧ ∀ c ∈ k.field, isParenthesis c = false
  page : r.page.skip ≤ Int64.maxValue.toInt ∧ r.page.take ≤ Int64.maxValue.toInt
  distinct : (r.preloads.map Prod.fst).Nodup
  relations : ∀ p ∈ r.preloads, LegibleRelation p.1
  filters : ∀ p ∈ r.preloads, ∀ e ∈ p.2, e.Readable ∧ e.isBinary = true
  apart : LoadSection.Apart r.preloads.writeSections

namespace Outline

open Lexeme

/-- A section that may be missing leads to an outline if it does so when present, and the outline
is unchanged when it is missing. -/
theorem readFrom_optional {missing : Bool} {s rest : Text} {o a : Outline}
    (hmissing : missing = true → a = o)
    (hpresent : missing = false → o.readFrom (s ++ rest) = a.readFrom rest) :
    o.readFrom ((if missing then [] else [s]).flatMap (' ' :: ·) ++ rest) = a.readFrom rest := by
  cases missing with
  | true => rw [hmissing rfl]; rfl
  | false =>
    have hflat : (if false = true then [] else [s]).flatMap (' ' :: ·) ++ rest = ' ' :: (s ++ rest) := by
      simp
    rw [hflat, readFrom_gap (by decide), hpresent rfl]

theorem readFrom_preloads {ps : Preloads} (hr : ∀ p ∈ ps, LegibleRelation p.1)
    (hf : ∀ p ∈ ps, ∀ e ∈ p.2, e.Readable)
    (hne : ps ≠ []) (hapart : LoadSection.Apart ps.writeSections) (o : Outline) :
    o.readFrom (ps.write ++ []) = { o with loads := o.loads ++ ps.sections }.readFrom [] := by
  have hsplit := hapart.splitTop_join (Preloads.writeSections_ne_nil hne)
  have hwrite : ps.write ++ [] = loadMark ++ (Text.join ['|'] ps.writeSections ++ [']']) := by
    unfold Preloads.write
    rw [List.append_nil, List.append_assoc]
    rfl
  have hload : o.load (Text.join ['|'] ps.writeSections ++ [']']) =
      ({ o with loads := o.loads ++ ps.sections }, []) := by
    rw [load, LoadSection.cut_eq_iff.2 hapart.squared]
    simp only [LoadSection.readAll, hsplit, Preloads.filterMap_read_writeSections hr hf]
  rw [hwrite, readFrom_load, hload]

end Outline

end

namespace Request

open Outline Lexeme

def filterNodes (r : Request) : List Node := (r.filter.map Expr.nodes).getD []

/-! The sections that a request writes, none of a kind that it lacks. -/

def filterSection (r : Request) : List Text := r.filter.toList.map Expr.write

def sortSection (r : Request) : List Text :=
  if r.sort.isEmpty then [] else [sortMark ++ Text.join [','] (r.sort.map SortKey.write)]

def pageSection (r : Request) : List Text := if r.page.isEmpty then [] else [r.page.write]

def preloadSection (r : Request) : List Text :=
  if r.preloads.isEmpty then [] else [r.preloads.write]

theorem writeSections_eq (r : Request) :
    r.writeSections = r.filterSection ++ r.sortSection ++ r.pageSection ++ r.preloadSection := rfl

section

variable [Regex.Engine]

namespace Legible

variable {r : Request} {rest : Text}

theorem readFrom_filterSection (h : r.Legible) (o : Outline) (hr : AtBreak rest) :
    o.readFrom (r.filterSection.flatMap (' ' :: ·) ++ rest) =
      (o.addAll r.filterNodes).readFrom rest := by
  cases hf : r.filter with
  | none => simp [filterSection, filterNodes, hf, addAll_nil]
  | some e =>
    have htext : r.filterSection.flatMap (' ' :: ·) ++ rest = ' ' :: (e.write ++ rest) := by
      simp [filterSection, hf]
    rw [htext, readFrom_gap (by decide), readFrom_write (h.filter e hf).1 o hr]
    simp only [filterNodes, hf, Option.map_some, Option.getD_some]

theorem readFrom_sortSection (h : r.Legible) (o : Outline) (hr : AtBreak rest) :
    o.readFrom (r.sortSection.flatMap (' ' :: ·) ++ rest) =
      { o with sort := o.sort ++ r.sort }.readFrom rest := by
  refine readFrom_optional (fun he => ?_) (fun he => ?_)
  · rw [List.isEmpty_iff.1 he, List.append_nil]
  · exact readFrom_sort (List.isEmpty_eq_false_iff.1 he) h.sort o hr

theorem readFrom_pageSection (h : r.Legible) {o : Outline} (ho : o.page = Page.none)
    (hr : AtBreak rest) :
    o.readFrom (r.pageSection.flatMap (' ' :: ·) ++ rest) =
      { o with page := r.page }.readFrom rest := by
  refine readFrom_optional (fun he => ?_) (fun he => ?_)
  · rw [Page.eq_none_of_isEmpty he, ← ho]
  · exact readFrom_page h.page.1 h.page.2 o hr

theorem readFrom_preloadSection (h : r.Legible) (o : Outline) :
    o.readFrom (r.preloadSection.flatMap (' ' :: ·) ++ []) =
      { o with loads := o.loads ++ r.preloads.sections }.readFrom [] := by
  refine readFrom_optional (fun he => ?_) (fun he => ?_)
  · rw [List.isEmpty_iff.1 he, Preloads.sections, List.append_nil]
  · exact readFrom_preloads h.relations (fun p hp e he => (h.filters p hp e he).1)
      (List.isEmpty_eq_false_iff.1 he) h.apart o

end Legible

theorem outline_write {r : Request} (h : r.Legible) :
    Outline.read r.write = ⟨r.filterNodes, [], r.sort, r.page, r.preloads.sections, []⟩ := by
  have hsections : r.writeSections.flatMap (' ' :: ·) =
      r.filterSection.flatMap (' ' :: ·) ++ (r.sortSection.flatMap (' ' :: ·) ++
        (r.pageSection.flatMap (' ' :: ·) ++ (r.preloadSection.flatMap (' ' :: ·) ++ []))) := by
    simp only [writeSections_eq, List.flatMap_append, List.append_assoc, List.append_nil]
  have hload := atBreak_flatMap r.preloadSection atBreak_nil
  have hpage := atBreak_flatMap r.pageSection hload
  have hsort := atBreak_flatMap r.sortSection hpage
  rw [Outline.read, write, readFrom_join, hsections, h.readFrom_filterSection _ hsort,
    h.readFrom_sortSection _ hpage, h.readFrom_pageSection rfl hload, h.readFrom_preloadSection,
    readFrom_nil]
  rfl

theorem read_write {r : Request} (h : r.Legible) : read r.write = r := by
  have hassemble : Node.assemble r.filterNodes = r.filter := by
    cases hf : r.filter with
    | none => simp [filterNodes, hf]; rfl
    | some e =>
      simp only [filterNodes, hf, Option.map_some, Option.getD_some]
      rw [Node.assemble_nodes, Expr.paired_of_isBinary (h.filter e hf).2]
  have hpreloads : Preloads.ofSections r.preloads.sections = r.preloads := by
    refine Preloads.ofSections_sections h.distinct fun p hp e he => ?_
    exact Expr.read_write (h.filters p hp e he).1 (h.filters p hp e he).2
  rw [read, outline_write h]
  simp only [root, closeAll, hassemble, hpreloads]

/-- A request of writable parts: plain fields and relations, and page numbers of 63 bits. -/
structure Writable (r : Request) : Prop where
  filter : ∀ e ∈ r.filter, e.Writable ∧ e.isBinary = true
  sort : ∀ k ∈ r.sort, PlainSortField k.field
  page : r.page.skip ≤ Int64.maxValue.toInt ∧ r.page.take ≤ Int64.maxValue.toInt
  distinct : (r.preloads.map Prod.fst).Nodup
  relations : ∀ p ∈ r.preloads, PlainRelation p.1
  filters : ∀ p ∈ r.preloads, ∀ e ∈ p.2, e.Writable ∧ e.isBinary = true ∧ e.Enclosable

instance (r : Request) : Decidable r.Writable :=
  decidable_of_iff ((∀ e ∈ r.filter, e.Writable ∧ e.isBinary = true) ∧
      (∀ k ∈ r.sort, PlainSortField k.field) ∧
      (r.page.skip ≤ Int64.maxValue.toInt ∧ r.page.take ≤ Int64.maxValue.toInt) ∧
      (r.preloads.map Prod.fst).Nodup ∧ (∀ p ∈ r.preloads, PlainRelation p.1) ∧
      ∀ p ∈ r.preloads, ∀ e ∈ p.2, e.Writable ∧ e.isBinary = true ∧ e.Enclosable)
    ⟨fun ⟨hf, hs, hp, hd, hr, he⟩ => ⟨hf, hs, hp, hd, hr, he⟩,
      fun ⟨hf, hs, hp, hd, hr, he⟩ => ⟨hf, hs, hp, hd, hr, he⟩⟩

theorem Writable.legible {r : Request} (h : r.Writable) : r.Legible := by
  have hlevel : ∀ s ∈ r.preloads.writeSections, LoadSection.Uncut s ∧ LoadSection.Unsplit s := by
    have hrelation : ∀ p ∈ r.preloads, LoadSection.Uncut p.1 ∧ LoadSection.Unsplit p.1 := by
      intro p hp
      have hpass := (h.relations p hp).passable.2
      exact ⟨LoadSection.uncut_of_clear rfl rfl hpass, LoadSection.unsplit_of_clear hpass⟩
    have hcolon : Passable LoadSection.guides [':'] := passable_singleton (by decide) rfl
    refine Preloads.forall_writeSections hrelation fun p hp e he => ?_
    obtain ⟨hwritable, -, henclosable⟩ := h.filters p hp e he
    obtain ⟨huncut, hunsplit⟩ := Expr.level_write hwritable henclosable
    exact ⟨(hrelation p hp).1.append ((LoadSection.uncut_of_clear rfl rfl hcolon).append huncut),
      (hrelation p hp).2.append ((LoadSection.unsplit_of_clear hcolon).append hunsplit)⟩
  exact {
    filter := fun e he => ⟨(h.filter e he).1.readable, (h.filter e he).2⟩
    sort := fun k hk => by
      refine ⟨Entry.isWord_of_plainSortField (h.sort k hk), fun c hc => ?_⟩
      have hne := (h.sort k hk).not_reserved c hc
      simp only [List.mem_cons, List.not_mem_nil, or_false, not_or] at hne
      simp [isParenthesis, hne]
    page := h.page
    distinct := h.distinct
    relations := fun p hp => (h.relations p hp).legible
    filters := fun p hp e he =>
      ⟨(h.filters p hp e he).1.readable, (h.filters p hp e he).2.1⟩
    apart := LoadSection.apart_of_level hlevel }

/-- A request of writable parts is read from its text, every list in its order. -/
theorem read_write_of_writable {r : Request} (h : r.Writable) : read r.write = r :=
  read_write h.legible

end

/-- A relation that is named for each of its filters and one without a filter, with brackets and
bars in quotes. -/
theorem read_write_of_writable_sections :
    letI := Regex.Engine.words
    let r : Request := ⟨some (.leaf "a".toList (.null true)),
      [⟨"b".toList, .desc⟩, ⟨"c.d".toList, .asc⟩], ⟨0, 7⟩,
      [("posts".toList, [.leaf "t".toList (.compare .eq (.text "]|:(".toList)),
        .not (.leaf "u".toList (.between (.int 1) (.int 2))),
        .leaf "v".toList (.pattern .regex "x1".toList)]),
        ("old posts".toList, [])]⟩
    r.Writable ∧
      r.write = ("a<notnull> sort=b:desc,c.d:asc page=skip:0,take:7 load=[posts:t=\"]|:(\"|" ++
        "posts:not (u<bet>1..2)|posts:v=~\"x1\"|old posts]").toList ∧
      read r.write = r := by
  let engine := Regex.Engine.words
  intro r
  have hwritable : r.Writable := by decide
  exact ⟨hwritable, by decide +kernel, read_write_of_writable hwritable⟩

end Request

end FilterQuery
