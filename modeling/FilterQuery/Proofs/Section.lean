import FilterQuery.Section
import FilterQuery.Proofs.Inherited
set_option autoImplicit false

/-!
The sections beside the filter read back: the entries of an order and of a page, and the bodies of
load blocks. Text that is level, with its brackets and parentheses paired, is neither cut nor split
inside.
-/

namespace FilterQuery

structure PlainSortField (f : Text) : Prop where
  ne_nil : f ≠ []
  not_blank : ∀ c ∈ f, Text.isBlank c = false
  not_reserved : ∀ c ∈ f, c ∉ ['"', '(', ')', ':', ',']

instance (f : Text) : Decidable (PlainSortField f) :=
  decidable_of_iff (f ≠ [] ∧ f.all (fun c => !Text.isBlank c) = true ∧
      f.all (fun c => !(['"', '(', ')', ':', ','].contains c)) = true)
    ⟨fun ⟨h, hb, hr⟩ => ⟨h, by simpa using hb, by simpa using hr⟩,
      fun ⟨h, hb, hr⟩ => ⟨h, by simpa using hb, by simpa using hr⟩⟩

namespace Entry

def IsWord (t : Text) : Prop := t ≠ [] ∧ ∀ c ∈ t, inWord c = true

theorem isBlank_of_inWord {c : Char} (h : inWord c = true) : Text.isBlank c = false := by
  simp only [inWord, Bool.and_eq_true] at h
  simpa using h.1.1.1

theorem isWord_of_plain {t : Text} (hne : t ≠ []) (h : ∀ c ∈ t, Text.isPlain c = true) :
    IsWord t := by
  refine ⟨hne, fun c hc => ?_⟩
  have hquote : c ≠ '"' := Text.ne_of_isPlain (h c hc) (by decide)
  have hcolon : c ≠ ':' := Text.ne_of_isPlain (h c hc) (by decide)
  have hcomma : c ≠ ',' := Text.ne_of_isPlain (h c hc) (by decide)
  simp [inWord, Text.isBlank_of_isPlain (h c hc), hquote, hcolon, hcomma]

theorem isWord_of_plainSortField {f : Text} (h : PlainSortField f) : IsWord f := by
  refine ⟨h.ne_nil, fun c hc => ?_⟩
  have hne := h.not_reserved c hc
  simp only [List.mem_cons, List.not_mem_nil, or_false, not_or] at hne
  simp [inWord, h.not_blank c hc, hne.1, hne.2.2.2.1, hne.2.2.2.2]

theorem readWord_append {u v : Text} (hu : IsWord u) (hv : ∀ c ∈ v.head?, inWord c = false) :
    readWord (u ++ v) = some (u, v) := by
  have htake : (u ++ v).takeWhile inWord = u := by
    rw [List.takeWhile_append_of_pos hu.2]
    cases v with
    | nil => simp
    | cons c v => simp [hv c rfl]
  have hdrop : (u ++ v).dropWhile inWord = v := by
    rw [List.dropWhile_append_of_pos hu.2]
    cases v with
    | nil => simp
    | cons c v => simp [hv c rfl]
  rw [readWord]
  simp only [htake, hdrop, if_neg hu.1]

theorem read_pair {key value : Text} (hkey : IsWord key) (hvalue : IsWord value) :
    read (key ++ ':' :: value) = some ⟨key, some value⟩ := by
  have hstart : Text.trimStart (key ++ ':' :: value) = key ++ ':' :: value := by
    obtain ⟨d, u, rfl⟩ := List.exists_cons_of_ne_nil hkey.1
    refine Text.trimStart_of_head ?_
    simpa using isBlank_of_inWord (hkey.2 d (List.mem_cons_self ..))
  have hword := readWord_append (v := ':' :: value) hkey (by simp; decide)
  have hrest := readWord_append (v := []) hvalue (by simp)
  rw [List.append_nil] at hrest
  rw [read, hstart, hword]
  simp [readValue, hrest]

theorem readAll_join (ps : List (Text × Text)) (hne : ps ≠ [])
    (h : ∀ p ∈ ps, IsWord p.1 ∧ IsWord p.2) :
    readAll (Text.join [','] (ps.map fun p => p.1 ++ ':' :: p.2)) =
      ps.map fun p => ⟨p.1, some p.2⟩ := by
  have hcomma : ∀ t ∈ ps.map fun p => p.1 ++ ':' :: p.2, ',' ∉ t := by
    intro t ht
    obtain ⟨p, hp, rfl⟩ := List.mem_map.1 ht
    have hword : ∀ u, IsWord u → ',' ∉ u := fun u hu hc => absurd (hu.2 _ hc) (by decide)
    simp [hword _ (h p hp).1, hword _ (h p hp).2]
  have hblank : ∀ t ∈ ps.map fun p => p.1 ++ ':' :: p.2, (!t.all Text.isBlank) = true := by
    intro t ht
    obtain ⟨p, hp, rfl⟩ := List.mem_map.1 ht
    simp [show Text.isBlank ':' = false by decide]
  rw [readAll, Text.join, List.splitOn_intercalate _ hcomma (by simpa using hne),
    List.filter_eq_self.2 hblank, List.filterMap_map]
  clear hne hcomma hblank
  induction ps with
  | nil => rfl
  | cons p ps ih =>
    rw [List.forall_mem_cons] at h
    rw [List.filterMap_cons, Function.comp_apply, read_pair h.1.1 h.1.2, ih h.2]
    rfl

end Entry

namespace Direction

theorem ofWord?_word (d : Direction) : ofWord? d.word = some d := by cases d <;> rfl

theorem isWord_word (d : Direction) : Entry.IsWord d.word := by
  cases d
  all_goals exact ⟨by decide, List.all_eq_true.1 (by decide)⟩

end Direction

theorem readSort_join {ks : List SortKey} (hne : ks ≠ []) (h : ∀ k ∈ ks, Entry.IsWord k.field) :
    readSort (Text.join [','] (ks.map SortKey.write)) = ks := by
  have hpairs := Entry.readAll_join (ks.map fun k => (k.field, k.direction.word))
    (by simpa using hne) (by
      intro p hp
      obtain ⟨k, hk, rfl⟩ := List.mem_map.1 hp
      exact ⟨h k hk, k.direction.isWord_word⟩)
  rw [List.map_map, List.map_map] at hpairs
  rw [readSort, show ks.map SortKey.write =
    ks.map ((fun p : Text × Text => p.1 ++ ':' :: p.2) ∘ fun k => (k.field, k.direction.word)) from rfl,
    hpairs, List.filterMap_map]
  clear hpairs hne h
  induction ks with
  | nil => rfl
  | cons k ks ih =>
    rw [List.filterMap_cons, ih]
    simp [Entry.sortKey?, Direction.ofWord?_word]

theorem readInt64_ofNat {n : Nat} (h : n ≤ Int64.maxValue.toInt) :
    readInt64 (Text.ofNat n) = some (Int64.ofInt n) ∧ (Int64.ofInt n).toInt = n := by
  refine ⟨by rw [readInt64, Text.toInt?_ofNat]; simp [h], ?_⟩
  have hmax : (n : Int) ≤ 2 ^ 63 - 1 := h
  exact Int64.toInt_ofInt_of_le (by omega) (by omega)

theorem applyPage_write {p : Page} (hskip : p.skip ≤ Int64.maxValue.toInt)
    (htake : p.take ≤ Int64.maxValue.toInt) (q : Page) :
    applyPage q ("skip:".toList ++ Text.ofNat p.skip ++ ",take:".toList ++ Text.ofNat p.take) = p := by
  obtain ⟨hs, hskip⟩ := readInt64_ofNat hskip
  obtain ⟨ht, htake⟩ := readInt64_ofNat htake
  have hword : ∀ n, Entry.IsWord (Text.ofNat n) := fun n =>
    Entry.isWord_of_plain (Text.ofNat_ne_nil n) fun c hc =>
      Text.isPlain_of_isDigit (Text.isDigit_of_mem_ofNat hc)
  have hkeys : Entry.IsWord "skip".toList ∧ Entry.IsWord "take".toList := by
    exact ⟨⟨by decide, List.all_eq_true.1 (by decide)⟩, ⟨by decide, List.all_eq_true.1 (by decide)⟩⟩
  have hpairs := Entry.readAll_join
    [("skip".toList, Text.ofNat p.skip), ("take".toList, Text.ofNat p.take)] (by simp) (by
      intro e he
      simp only [List.mem_cons, List.not_mem_nil, or_false] at he
      rcases he with rfl | rfl
      · exact ⟨hkeys.1, hword _⟩
      · exact ⟨hkeys.2, hword _⟩)
  have hjoin : "skip:".toList ++ Text.ofNat p.skip ++ ",take:".toList ++ Text.ofNat p.take =
      Text.join [','] ([("skip".toList, Text.ofNat p.skip), ("take".toList, Text.ofNat p.take)].map
        fun p => p.1 ++ ':' :: p.2) := by
    simp
  rw [hjoin, applyPage, hpairs]
  simp [Entry.apply, hs, ht, hskip, htake, Text.sameLetters]
  exact fun h => absurd h (by decide)

namespace LoadSection

open QuoteState

def guides (c : Char) : Bool := c = '[' || c = ']' || c = '(' || c = ')' || c = '|'

/-- A text that is not cut inside an open block. -/
def Uncut (t : Text) : Prop :=
  Closed t ∧ ∀ depth, 1 ≤ depth → ∀ u, cutBlock .outside depth (t ++ u) =
    (cutBlock .outside depth u).map fun (body, rest) => (t ++ body, rest)

def Unsplit (t : Text) : Prop :=
  Closed t ∧ ∀ depth u, splitTop '|' .outside depth (t ++ u) =
    (splitTop '|' .outside depth u).modifyHead (t ++ ·)

theorem after_of_cutBlock {q : QuoteState} {depth : Nat} {t body rest : Text}
    (h : cutBlock q depth t = some (body, rest)) : q.after body = .outside := by
  induction t generalizing q depth body with
  | nil => cases h
  | cons c t ih =>
    rw [cutBlock] at h
    split at h
    · rename_i hc
      cases h
      exact ((QuoteState.structural_iff q c).1 hc.1).1
    · obtain ⟨⟨b, r⟩, hcut, heq⟩ := Option.map_eq_some_iff.1 h
      cases heq
      rw [QuoteState.after_cons]
      exact ih hcut

theorem cutBlock_append_of_clear {p : Char → Bool} (hopen : p '[' = true) (hclose : p ']' = true)
    {q : QuoteState} {t : Text} (h : q.Clear p t) (depth : Nat) (u : Text) :
    cutBlock q depth (t ++ u) =
      (cutBlock (q.after t) depth u).map fun (body, rest) => (t ++ body, rest) := by
  induction t generalizing q with
  | nil => simp
  | cons c t ih =>
    rw [clear_cons] at h
    have hne : q.structural c = true → c ≠ '[' ∧ c ≠ ']' := by
      intro hs
      constructor
      all_goals
        rintro rfl
        simp_all
    have hnesting : bracketNesting q depth c = depth := by
      rw [bracketNesting, if_neg fun hc => (hne hc.1).1 hc.2, if_neg fun hc => (hne hc.1).2 hc.2]
    rw [List.cons_append, cutBlock, if_neg fun hc => (hne hc.1).2 hc.2.1, hnesting, ih h.2, after_cons]
    simp [Function.comp_def]

theorem splitTop_append_of_clear {q : QuoteState} {t : Text} (h : q.Clear guides t) (depth : Nat)
    (u : Text) : splitTop '|' q depth (t ++ u) =
      (splitTop '|' (q.after t) depth u).modifyHead (t ++ ·) := by
  induction t generalizing q with
  | nil =>
    rw [List.nil_append, after_nil]
    cases splitTop '|' q depth u <;> rfl
  | cons c t ih =>
    rw [clear_cons] at h
    have hne : q.structural c = true → (c ≠ '[' ∧ c ≠ ']' ∧ c ≠ '(' ∧ c ≠ ')') ∧ c ≠ '|' := by
      intro hs
      simpa [guides, and_assoc] using h.1 hs
    have hnesting : nesting q depth c = depth := by
      rw [nesting, if_neg, if_neg]
      · rintro ⟨hs, hc | hc⟩
        · exact (hne hs).1.2.1 hc
        · exact (hne hs).1.2.2.2 hc
      · rintro ⟨hs, hc | hc⟩
        · exact (hne hs).1.1 hc
        · exact (hne hs).1.2.2.1 hc
    rw [List.cons_append, splitTop, if_neg fun hc => (hne hc.1).2 hc.2.1, hnesting, ih h.2, after_cons]
    simp [Function.comp_def]

theorem uncut_of_clear {p : Char → Bool} (hopen : p '[' = true) (hclose : p ']' = true) {t : Text}
    (h : Passable p t) : Uncut t := by
  refine ⟨h.1, fun depth _ u => ?_⟩
  rw [cutBlock_append_of_clear hopen hclose h.2, h.1]

theorem unsplit_of_clear {t : Text} (h : Passable guides t) : Unsplit t := by
  refine ⟨h.1, fun depth u => ?_⟩
  rw [splitTop_append_of_clear h.2, h.1]

theorem Uncut.append {t u : Text} (ht : Uncut t) (hu : Uncut u) : Uncut (t ++ u) := by
  refine ⟨ht.1.append hu.1, fun depth hd v => ?_⟩
  rw [List.append_assoc, ht.2 depth hd, hu.2 depth hd]
  simp [Function.comp_def]

theorem Unsplit.append {t u : Text} (ht : Unsplit t) (hu : Unsplit u) : Unsplit (t ++ u) := by
  refine ⟨ht.1.append hu.1, fun depth v => ?_⟩
  rw [List.append_assoc, ht.2 depth, hu.2 depth]
  simp [Function.comp_def]

theorem closed_enclose {c d : Char} (hc : c ≠ '"') (hd : d ≠ '"') {t : Text} (ht : Closed t) :
    Closed (c :: t ++ [d]) := ((closed_singleton hc).append ht).append (closed_singleton hd)

theorem Uncut.brackets {t : Text} (ht : Uncut t) : Uncut ('[' :: t ++ [']']) := by
  refine ⟨closed_enclose (by decide) (by decide) ht.1, fun depth hd u => ?_⟩
  have hopen : cutBlock .outside depth ('[' :: (t ++ ']' :: u)) =
      (cutBlock .outside (depth + 1) (t ++ ']' :: u)).map fun (body, rest) => ('[' :: body, rest) := rfl
  have hclose : cutBlock .outside (depth + 1) (']' :: u) =
      (cutBlock .outside depth u).map fun (body, rest) => (']' :: body, rest) := by
    rw [cutBlock, if_neg (by omega)]
    rfl
  rw [List.cons_append, List.cons_append, List.append_assoc, List.cons_append, List.nil_append, hopen,
    ht.2 _ (by omega), hclose]
  simp [Function.comp_def]

theorem Unsplit.enclose {c d : Char} (h : (c, d) = ('[', ']') ∨ (c, d) = ('(', ')')) {t : Text}
    (ht : Unsplit t) : Unsplit (c :: t ++ [d]) := by
  have hquote : c ≠ '"' ∧ d ≠ '"' := by
    rcases h with h | h
    all_goals
      cases h
      decide
  refine ⟨closed_enclose hquote.1 hquote.2 ht.1, fun depth u => ?_⟩
  have hopen : splitTop '|' .outside depth (c :: (t ++ d :: u)) =
      (splitTop '|' .outside (depth + 1) (t ++ d :: u)).modifyHead (c :: ·) := by
    rcases h with h | h
    all_goals
      cases h
      rfl
  have hclose : splitTop '|' .outside (depth + 1) (d :: u) =
      (splitTop '|' .outside depth u).modifyHead (d :: ·) := by
    rcases h with h | h
    all_goals
      cases h
      rfl
  rw [List.cons_append, List.cons_append, List.append_assoc, List.cons_append, List.nil_append, hopen,
    ht.2, hclose]
  simp [Function.comp_def]

theorem passable_mark {c : Char} (h : isMark c = true) : Passable guides [c] := by
  have hne : ∀ d, isMark d = false → c ≠ d := fun _ hd => ne_of_isMark h hd
  refine passable_singleton (hne _ (by decide)) ?_
  simp [guides, hne '[' (by decide), hne ']' (by decide), hne '(' (by decide), hne ')' (by decide),
    hne '|' (by decide)]

theorem inherited_uncut : Inherited Uncut where
  nil := uncut_of_clear (p := guides) rfl rfl ⟨closed_nil, clear_nil _ _⟩
  append _ _ ht hu := ht.append hu
  mark _ hc := uncut_of_clear rfl rfl (passable_mark hc)
  quoted t := uncut_of_clear (p := guides) rfl rfl ⟨Quoted.closed_write t, Quoted.clear_write _ t⟩
  brackets _ ht := ht.brackets

theorem inherited_unsplit : Inherited Unsplit where
  nil := unsplit_of_clear ⟨closed_nil, clear_nil _ _⟩
  append _ _ ht hu := ht.append hu
  mark _ hc := unsplit_of_clear (passable_mark hc)
  quoted t := unsplit_of_clear ⟨Quoted.closed_write t, Quoted.clear_write _ t⟩
  brackets _ ht := ht.enclose (.inl rfl)

theorem cut_join {ss : List Text} (h : ∀ s ∈ ss, Uncut s) (rest : Text) :
    cut (Text.join ['|'] ss ++ ']' :: rest) = some (Text.join ['|'] ss, rest) := by
  have hbar : Uncut ['|'] :=
    uncut_of_clear (p := fun c => c = '[' || c = ']') rfl rfl (passable_singleton (by decide) rfl)
  have hjoin : Uncut (Text.join ['|'] ss) := inherited_uncut.join hbar h
  rw [cut, hjoin.2 1 (Nat.le_refl 1)]
  simp [cutBlock, structural]

theorem splitTop_join {s : Text} {ss : List Text} (h : ∀ u ∈ s :: ss, Unsplit u) :
    splitTop '|' .outside 0 (Text.join ['|'] (s :: ss)) = s :: ss := by
  induction ss generalizing s with
  | nil =>
    have hs := (h s (List.mem_cons_self ..)).2 0 []
    rw [List.append_nil] at hs
    simpa [splitTop] using hs
  | cons u ss ih =>
    rw [List.forall_mem_cons] at h
    have hbar : splitTop '|' .outside 0 ('|' :: Text.join ['|'] (u :: ss)) =
        [] :: splitTop '|' .outside 0 (Text.join ['|'] (u :: ss)) := rfl
    rw [Text.join_cons_cons, List.singleton_append, h.1.2, hbar, ih h.2]
    simp

end LoadSection

structure PlainRelation (r : Text) : Prop where
  ne_nil : r ≠ []
  trimmed : Text.trim r = r
  not_reserved : ∀ c ∈ r, c ∉ [':', '|', '[', ']', '(', ')', '"']

instance (r : Text) : Decidable (PlainRelation r) :=
  decidable_of_iff (r ≠ [] ∧ Text.trim r = r ∧
      r.all (fun c => !([':', '|', '[', ']', '(', ')', '"'].contains c)) = true)
    ⟨fun ⟨h, ht, hr⟩ => ⟨h, ht, by simpa using hr⟩, fun ⟨h, ht, hr⟩ => ⟨h, ht, by simpa using hr⟩⟩

/-- A relation that reads as itself before a colon and alone. -/
structure LegibleRelation (r : Text) : Prop where
  ne_nil : r ≠ []
  trimmed : Text.Trimmed r
  passable : Passable (fun c => c = ':') r

theorem PlainRelation.passable {r : Text} (h : PlainRelation r) :
    Passable (fun c => c = ':') r ∧ Passable LoadSection.guides r := by
  constructor
  all_goals
    refine passable_of_forall fun c hc => ?_
    have hne := h.not_reserved c hc
    simp only [List.mem_cons, List.not_mem_nil, or_false, not_or] at hne
    simp [LoadSection.guides, hne]

theorem PlainRelation.legible {r : Text} (h : PlainRelation r) : LegibleRelation r :=
  ⟨h.ne_nil, h.trimmed ▸ Text.trimmed_trim r, h.passable.1⟩

namespace LoadSection

theorem read_relation {r : Text} (h : LegibleRelation r) : read r = some ⟨r, none⟩ := by
  have hnone := findUnquoted_append_of_clear h.passable.2 (d := ':') (by decide) [] []
  rw [List.append_nil] at hnone
  have hfind : findUnquoted [':'] .outside r = none := hnone.trans (by simp [findUnquoted])
  simp [read, h.trimmed.trim_eq, hfind, h.ne_nil]

theorem read_filtered {r w : Text} (h : LegibleRelation r) (hne : w ≠ []) (hw : Text.Trimmed w) :
    read (r ++ ':' :: w) = some ⟨r, some w⟩ := by
  have hfind := findUnquoted_append_of_clear h.passable.2 (d := ':') (by decide) [] (':' :: w)
  have hcolon : findUnquoted [':'] .outside (':' :: w) = some ([], w) := by
    rw [findUnquoted]
    rfl
  rw [h.passable.1, hcolon] at hfind
  have htrimmed : Text.Trimmed (r ++ ':' :: w) :=
    h.trimmed.append (Text.Trimmed.append (t := [':']) (by simp [Text.Trimmed]; decide) hw)
  simp [read, htrimmed.trim_eq, hfind, h.trimmed.trim_eq, hw.trim_eq, h.ne_nil, hne]

end LoadSection

end FilterQuery
