import FilterQuery.Proofs.Value
import FilterQuery.Proofs.Sql.Placeholders
set_option autoImplicit false

/-!
Statements with their arguments written in place. A literal opens and closes its own quotes and
shows no question mark outside them, so what stands behind it is scanned as it was behind the
placeholder. An explained statement is the statement with a literal in each hole, and the holes are
its placeholders.
-/

namespace FilterQuery

theorem Decimal.isPlain_of_mem_positional {d : Decimal} {fraction : Bool} {c : Char}
    (h : c ∈ d.positional fraction) : Text.isPlain c = true := by
  have hdigits : ∀ c ∈ Text.ofNat d.digits, Text.isPlain c = true := fun c hc =>
    Text.isPlain_of_isDigit (Text.isDigit_of_mem_ofNat hc)
  have hzeros : ∀ n, ∀ c ∈ List.replicate n '0', Text.isPlain c = true := fun n c hc =>
    Text.isPlain_of_isDigit (isDigit_of_mem_zeros hc)
  have hpoint : Text.isPlain '.' = true := by decide
  have hzero : Text.isPlain '0' = true := by decide
  simp only [positional] at h
  split at h
  · rcases List.mem_append.1 h with h | h
    · exact (List.mem_append.1 h).elim (hdigits c) (hzeros _ c)
    · cases fraction <;> simp at h
      rcases h with rfl | rfl
      · exact hpoint
      · exact hzero
  · split at h
    · simp only [List.mem_append, List.mem_cons, List.not_mem_nil, or_false] at h
      rcases h with ((rfl | rfl) | h) | h
      · exact hzero
      · exact hpoint
      · exact hzeros _ c h
      · exact hdigits c h
    · simp only [List.mem_append, List.mem_cons] at h
      rcases h with h | rfl | h
      · exact hdigits c (List.mem_of_mem_take h)
      · exact hpoint
      · exact hdigits c (List.mem_of_mem_drop h)

theorem Decimal.isPlain_of_mem_scientific {d : Decimal} {c : Char}
    (h : c ∈ d.scientific false) : Text.isPlain c = true := by
  obtain ⟨p⟩ := scientific_parts d
  rw [p.text_eq] at h
  exact (Numeral.isBare_compose p.whole_ne_nil p.whole_digits p.fraction_digits).plain c h

theorem Binary64.isPlain_of_mem_write {x : Binary64} (hx : x.isFinite = true) {layout : FloatLayout}
    (hplus : layout.plus = false) {c : Char} (h : c ∈ x.write layout) : Text.isPlain c = true := by
  cases x with
  | nan | infinite s => cases hx
  | finite s m e hc =>
    simp only [write, hplus] at h
    rcases List.mem_append.1 h with h | h
    · cases s with
      | false => cases h
      | true =>
        cases List.mem_singleton.1 h
        decide
    · split at h
      · exact Decimal.isPlain_of_mem_positional h
      · exact Decimal.isPlain_of_mem_scientific h

namespace Sql

def openBehind (opened : Option Char) (t : Text) : Option Char := t.foldl openMark opened

theorem openBehind_cons (opened : Option Char) (c : Char) (t : Text) :
    openBehind opened (c :: t) = openBehind (openMark opened c) t := rfl

theorem openBehind_append (opened : Option Char) (t u : Text) :
    openBehind opened (t ++ u) = openBehind (openBehind opened t) u := List.foldl_append

theorem placeholdersFrom_append (opened : Option Char) (offset : Nat) (t u : Text) :
    placeholdersFrom opened offset (t ++ u) =
      placeholdersFrom opened offset t ++
        placeholdersFrom (openBehind opened t) (offset + t.byteLength) u := by
  induction t generalizing opened offset with
  | nil => rfl
  | cons c t ih =>
    simp only [List.cons_append, placeholdersFrom, ih, Text.byteLength_cons, Nat.add_assoc]
    split <;> rfl

theorem isPlaceholder_iff {opened : Option Char} {c : Char} :
    isPlaceholder opened c = true ↔ opened = none ∧ c = '?' := by
  simp [isPlaceholder, Option.isNone_iff_eq_none]

theorem inlineFrom_placeholder (d : Dialect) (v : Value) (vs : List Value) (t : Text) :
    inlineFrom d none (v :: vs) ('?' :: t) = literal d v ++ inlineFrom d none vs t := rfl

theorem inlineFrom_cons (d : Dialect) {opened : Option Char} {c : Char}
    (h : isPlaceholder opened c = false) (args : List Value) (t : Text) :
    inlineFrom d opened args (c :: t) = c :: inlineFrom d (openMark opened c) args t := by
  rw [inlineFrom]
  exact fun _ _ htrue => absurd (h ▸ htrue) Bool.false_ne_true

/-- A text that opens and closes its own quotes, with no placeholder outside them. -/
structure Sealed (t : Text) : Prop where
  closes : openBehind none t = none
  silent : ∀ offset, placeholdersFrom none offset t = []

namespace Sealed

theorem nil : Sealed [] := ⟨rfl, fun _ => rfl⟩

theorem append {t u : Text} (ht : Sealed t) (hu : Sealed u) : Sealed (t ++ u) := by
  refine ⟨?_, fun offset => ?_⟩
  · rw [openBehind_append, ht.closes, hu.closes]
  · rw [placeholdersFrom_append, ht.silent, ht.closes, hu.silent, List.nil_append]

theorem of_fixed {t : Text} (h : Fixed t) : Sealed t := by
  induction t with
  | nil => exact nil
  | cons c t ih =>
    rw [Fixed, List.forall_mem_cons] at h
    have hc : Sealed [c] := by
      refine ⟨?_, fun offset => ?_⟩
      · simp [openBehind, openMark, h.1.1]
      · simp [placeholdersFrom, isPlaceholder, h.1.2]
    exact hc.append (ih h.2)

theorem of_plain {t : Text} (h : ∀ c ∈ t, Text.isPlain c = true) : Sealed t := by
  refine of_fixed fun c hc => ⟨?_, Text.ne_of_isPlain (h c hc) (by decide)⟩
  have hquote : c ≠ '\'' := Text.ne_of_isPlain (h c hc) (by decide)
  have hdouble : c ≠ '"' := Text.ne_of_isPlain (h c hc) (by decide)
  have hgrave : c ≠ '\x60' := Text.ne_of_isPlain (h c hc) (by decide)
  simp [isMark, hquote, hdouble, hgrave]

/-- A mark that stands inside the quotes is doubled, which closes and opens them. -/
theorem quote {m : Char} (hm : isMark m = true) (t : Text) : Sealed (quote m t) := by
  have hplaceholder : ∀ opened, isPlaceholder opened m = false := by
    intro opened
    have hne : m ≠ '?' := by
      rintro rfl
      cases hm
    simp [isPlaceholder, hne]
  have hopen : openMark none m = some m := by simp [openMark, hm]
  have hclose : openMark (some m) m = none := by simp [openMark]
  -- inside the quotes no placeholder counts, and behind the closing mark nothing is open
  have hbody : ∀ offset, openBehind (some m) (Text.replace m [m, m] t ++ [m]) = none ∧
      placeholdersFrom (some m) offset (Text.replace m [m, m] t ++ [m]) = [] := by
    induction t with
    | nil =>
      intro offset
      simp [Text.replace, openBehind, placeholdersFrom, hplaceholder, hclose]
    | cons c t ih =>
      intro offset
      rw [Text.replace] at ih
      rw [Text.replace, List.flatMap_cons, List.append_assoc]
      by_cases hc : c = m
      · subst hc
        simp only [if_true, List.cons_append, List.nil_append, openBehind_cons, placeholdersFrom,
          hplaceholder, hclose, hopen, Bool.false_eq_true, if_false]
        exact ih _
      · have hstay : openMark (some m) c = some m := by simp [openMark, hc]
        have hinside : isPlaceholder (some m) c = false := rfl
        simp only [if_neg hc, List.cons_append, List.nil_append, openBehind_cons, placeholdersFrom,
          hinside, hstay, Bool.false_eq_true, if_false]
        exact ih _
  refine ⟨?_, fun offset => ?_⟩
  · rw [Sql.quote, List.cons_append, openBehind_cons, hopen]
    exact (hbody 0).1
  · rw [Sql.quote, List.cons_append, placeholdersFrom, hopen, hplaceholder]
    exact (hbody _).2

theorem join {separator : Text} (hseparator : Sealed separator) {ts : List Text}
    (h : ∀ t ∈ ts, Sealed t) : Sealed (Text.join separator ts) := by
  induction ts with
  | nil => exact nil
  | cons t ts ih =>
    rw [List.forall_mem_cons] at h
    cases ts with
    | nil => simpa using h.1
    | cons u ts =>
      rw [Text.join_cons_cons]
      exact h.1.append (hseparator.append (ih h.2))

end Sealed

theorem sealed_text (t : Text) : Sealed (Dialect.text t) := .quote (by decide) t

theorem sealed_timestamp (d : Dialect) (t : Timestamp) : Sealed (d.timestamp t) := by
  cases d with
  | standard => exact sealed_text _
  | postgres => exact (Sealed.of_fixed (by decide)).append (sealed_text _)

mutual

theorem sealed_literal (d : Dialect) : ∀ v : Value, Sealed (literal d v)
  | .int n => by
    rw [literal]
    exact .of_plain (Text.isBare_ofInt _).plain
  | .float x => by
    rw [literal]
    split
    · exact .of_plain fun c hc => Binary64.isPlain_of_mem_write ‹_› rfl hc
    · exact .of_fixed (by decide)
  | .bool b => by
    rw [literal]
    cases b
    all_goals exact .of_fixed (by decide)
  | .text t => by
    rw [literal]
    exact sealed_text t
  | .time t => by
    rw [literal]
    exact sealed_timestamp d t
  | .null => by
    rw [literal]
    exact .of_fixed (by decide)
  | .list vs => by
    rw [literal]
    have hcomma : Sealed ", ".toList := .of_fixed (by decide)
    have hbody := hcomma.join (sealed_literalEach d vs)
    have hopen : Sealed ['('] := .of_fixed (by decide)
    have hclose : Sealed [')'] := .of_fixed (by decide)
    exact (hopen.append hbody).append hclose

theorem sealed_literalEach (d : Dialect) : ∀ vs : List Value, ∀ t ∈ literalEach d vs, Sealed t
  | [] => fun _ h => absurd h List.not_mem_nil
  | v :: vs => by
    rw [literalEach, List.forall_mem_cons]
    exact ⟨sealed_literal d v, sealed_literalEach d vs⟩

end

structure Template where
  front : Text
  holes : List (Value × Text)

namespace Template

def args (τ : Template) : List Value := τ.holes.map Prod.fst

def fill (write : Value → Text) (τ : Template) : Text :=
  τ.front ++ τ.holes.flatMap fun (v, piece) => write v ++ piece

def before (τ : Template) (n : Nat) : Template := ⟨τ.front, τ.holes.take n⟩

def asked : Template → Text := fill fun _ => ['?']

/-- The byte offset of each hole where placeholders are written in them. -/
def offsets (τ : Template) : List Nat :=
  (List.range τ.holes.length).map fun n => (τ.before n).asked.byteLength

def push (c : Char) (τ : Template) : Template := ⟨c :: τ.front, τ.holes⟩

def pushHole (v : Value) (τ : Template) : Template := ⟨[], (v, τ.front) :: τ.holes⟩

variable (write : Value → Text) (τ : Template)

theorem fill_push (c : Char) : (τ.push c).fill write = c :: τ.fill write := rfl

theorem fill_pushHole (v : Value) : (τ.pushHole v).fill write = write v ++ τ.fill write := by
  simp [fill, pushHole]

theorem before_pushHole_succ (v : Value) (n : Nat) :
    (τ.pushHole v).before (n + 1) = (τ.before n).pushHole v := rfl

theorem offsets_push (c : Char) : (τ.push c).offsets = τ.offsets.map (c.utf8Size + ·) := by
  rw [offsets, offsets, List.map_map]
  rfl

theorem offsets_pushHole (v : Value) : (τ.pushHole v).offsets = 0 :: τ.offsets.map (1 + ·) := by
  have hlength : (τ.pushHole v).holes.length = τ.holes.length + 1 := rfl
  rw [offsets, hlength, List.range_succ_eq_map, List.map_cons, List.map_map, offsets, List.map_map]
  refine congrArg _ (List.map_congr_left fun n _ => ?_)
  simp only [Function.comp_apply, before_pushHole_succ, asked, fill_pushHole,
    Text.byteLength_append]
  rfl

/-- A template of a text and of the arguments for its placeholders, scanned from a state on.
Inlining puts the literals between the same pieces, which are scanned as before. -/
structure Of (d : Dialect) (opened : Option Char) (offset : Nat) (t : Text) (args : List Value)
    (τ : Template) : Prop where
  text_eq : t = τ.asked
  args_eq : args = τ.args
  inline_eq : inlineFrom d opened args t = τ.fill (literal d)
  offsets_eq : placeholdersFrom opened offset t = τ.offsets.map (offset + ·)
  scan_eq (n : Nat) : openBehind opened ((τ.before n).fill (literal d)) =
    openBehind opened (τ.before n).asked

namespace Of

variable {τ} {d : Dialect} {opened : Option Char} {offset : Nat} {t : Text} {args : List Value}

theorem nil : Of d opened offset [] [] ⟨[], []⟩ :=
  ⟨rfl, rfl, rfl, rfl, fun n => by simp [before, asked, fill]⟩

theorem push {c : Char} (hc : isPlaceholder opened c = false)
    (h : Of d (openMark opened c) (offset + c.utf8Size) t args τ) :
    Of d opened offset (c :: t) args (τ.push c) where
  text_eq := by
    rw [h.text_eq]
    rfl
  args_eq := h.args_eq
  inline_eq := by rw [inlineFrom_cons d hc, h.inline_eq, fill_push]
  offsets_eq := by
    rw [placeholdersFrom, hc, if_neg Bool.false_ne_true, h.offsets_eq, offsets_push, List.map_map]
    simp only [Function.comp_def, Nat.add_assoc]
  scan_eq := h.scan_eq

theorem pushHole (v : Value) (h : Of d none (offset + 1) t args τ) :
    Of d none offset ('?' :: t) (v :: args) (τ.pushHole v) where
  text_eq := by
    rw [asked, fill_pushHole, h.text_eq]
    rfl
  args_eq := by
    rw [h.args_eq]
    rfl
  inline_eq := by rw [fill_pushHole, ← h.inline_eq, inlineFrom_placeholder]
  offsets_eq := by
    have hplaces : placeholdersFrom none offset ('?' :: t) =
        offset :: placeholdersFrom none (offset + 1) t := rfl
    rw [hplaces, h.offsets_eq, offsets_pushHole, List.map_cons, List.map_map]
    simp only [Function.comp_def, Nat.add_zero, Nat.add_assoc]
  scan_eq n := by
    cases n with
    | zero => rfl
    | succ n =>
      rw [before_pushHole_succ, asked, fill_pushHole, fill_pushHole, openBehind_append,
        openBehind_append, (sealed_literal d v).closes]
      exact h.scan_eq n

end Of

end Template

theorem exists_template (d : Dialect) {opened : Option Char} {offset : Nat} {t : Text}
    {args : List Value} (h : (placeholdersFrom opened offset t).length = args.length) :
    ∃ τ, Template.Of d opened offset t args τ := by
  induction t generalizing opened offset args with
  | nil =>
    obtain rfl : args = [] := List.eq_nil_of_length_eq_zero h.symm
    exact ⟨_, .nil⟩
  | cons c t ih =>
    rw [placeholdersFrom] at h
    cases hplaceholder : isPlaceholder opened c with
    | false =>
      rw [hplaceholder, if_neg Bool.false_ne_true] at h
      obtain ⟨τ, hτ⟩ := ih h
      exact ⟨τ.push c, hτ.push hplaceholder⟩
    | true =>
      obtain ⟨rfl, rfl⟩ := isPlaceholder_iff.1 hplaceholder
      have hopen : openMark none '?' = none := rfl
      rw [hplaceholder, if_pos rfl, hopen] at h
      cases args with
      | nil => cases h
      | cons v vs =>
        obtain ⟨τ, hτ⟩ := ih (Nat.succ.inj h)
        exact ⟨τ.pushHole v, hτ.pushHole v⟩

theorem placeholdersFrom_inlineFrom (d : Dialect) {opened : Option Char} {offset : Nat} {t : Text}
    {args : List Value} (h : (placeholdersFrom opened offset t).length = args.length)
    (offset' : Nat) : placeholdersFrom opened offset' (inlineFrom d opened args t) = [] := by
  induction t generalizing opened offset args offset' with
  | nil => rfl
  | cons c t ih =>
    rw [placeholdersFrom] at h
    cases hplaceholder : isPlaceholder opened c with
    | false =>
      rw [hplaceholder, if_neg Bool.false_ne_true] at h
      rw [inlineFrom_cons d hplaceholder, placeholdersFrom, hplaceholder,
        if_neg Bool.false_ne_true]
      exact ih h _
    | true =>
      obtain ⟨rfl, rfl⟩ := isPlaceholder_iff.1 hplaceholder
      have hopen : openMark none '?' = none := rfl
      rw [hplaceholder, if_pos rfl, hopen] at h
      cases args with
      | nil => cases h
      | cons v vs =>
        rw [inlineFrom_placeholder, placeholdersFrom_append, (sealed_literal d v).silent,
          (sealed_literal d v).closes, List.nil_append]
        exact ih (Nat.succ.inj h) _

end Sql

namespace Adapter

open Sql

/-- An explained statement is the statement with the literal of each argument in place of its
placeholder. None is left, every literal closes its own quotes, and so every piece between them is
scanned as in the statement. -/
theorem query_explained {name : Text} {d : Dialect} {own : Option Text} {shared : Text} {p : Plan}
    {target : Target} {parts : Option (List Part)} {q : Query}
    (hoperator : Fixed (style d own shared).regexOperator)
    (hq : (sql name d own).query shared p target parts = .ok q) :
    ∃ τ : Template, q = .sql τ.asked τ.args ∧ placeholders τ.asked = τ.offsets ∧
      (sql name d own).explanation shared p target parts = .ok (τ.fill (literal d)) ∧
      placeholders (τ.fill (literal d)) = [] ∧
      (∀ v, openBehind none (literal d v) = none) ∧
      ∀ n, openBehind none ((τ.before n).fill (literal d)) = openBehind none (τ.before n).asked := by
  cases htable : table? target with
  | none =>
    rw [sql_query_of_no_table htable] at hq
    cases hq
  | some table =>
    have hexplained := sql_explanation_of_query hq
    rw [sql_query_of_table htable] at hq
    cases hq
    have hmatched := Style.matched_statement hoperator rfl table p (parts.getD Part.statement)
    have hlength := hmatched.length_placeholders
    obtain ⟨τ, htext, hargs, hinline, hoffsets, hscan⟩ := exists_template d hlength
    refine ⟨τ, by rw [← htext, ← hargs], ?_, hexplained.trans (congrArg _ hinline), ?_,
      fun v => (sealed_literal d v).closes, hscan⟩
    · rw [← htext]
      simpa [placeholders] using hoffsets
    · rw [← hinline]
      exact placeholdersFrom_inlineFrom d hlength 0

/-- Marks of all kinds in names and values, lists in lists, and what is no number. -/
theorem query_explained_quotes :
    let pg := sql "pg".toList .postgres none
    let p : Plan := ⟨⟨some (.junction .and [
        .leaf "é?\"".toList (.compare .eq (.text "it's \"?\" \x60".toList)),
        .leaf "n".toList (.member false [.list [.int 1, .list [.text "?'".toList]], .float .nan]),
        .leaf "a.b".toList (.compare .gt (.time ⟨0, 0⟩))]), [], Page.none, []⟩, [], []⟩
    let target : Target := ⟨some "t".toList, []⟩
    Fixed (style .postgres none defaultRegexOperator).regexOperator ∧
    (∃ q, pg.query defaultRegexOperator p target (some [.filter]) = .ok q) ∧
    ∃ t, pg.explanation defaultRegexOperator p target (some [.filter]) = .ok t ∧
      t = ("WHERE (\"é?\"\"\" = 'it''s \"?\" \x60' AND \"n\" IN ((1, ('?''')), NULL) AND " ++
        "\"a\".\"b\" > TIMESTAMPTZ '1970-01-01T00:00:00+00:00')").toList ∧
      placeholders t = [] := by
  intro pg p target
  have hoperator : Fixed (style .postgres none defaultRegexOperator).regexOperator := by decide
  obtain ⟨q, hq⟩ : ∃ q, pg.query defaultRegexOperator p target (some [.filter]) = .ok q := ⟨_, rfl⟩
  obtain ⟨τ, -, -, hexplained, hnone, -⟩ := query_explained hoperator hq
  refine ⟨hoperator, ⟨q, hq⟩, _, hexplained, ?_, hnone⟩
  have hfill := hexplained.symm.trans (sql_explanation_of_query hq)
  rw [Except.ok.inj hfill]
  cases hq
  decide +kernel

end Adapter

end FilterQuery
