import Mathlib.Data.List.Count
import FilterQuery.Document.Filter
import FilterQuery.Pattern.Regex
set_option autoImplicit false

/-!
Patterns with wildcards and their regexes. Regexes without groups, classes and alternatives are read
as what they ask for from left to right, and the regex of a pattern is one of them. It finds a text
exactly if the pattern matches it with wildcards that stand for no line feed.
-/

namespace FilterQuery

namespace Regex

inductive Atom where
  | dot
  | char (c : Char)

/-- Without further flags a dot takes every character but a line feed. -/
def Atom.Takes : Atom → Char → Prop
  | dot, c => c ≠ '\n'
  | char d, c => c = d

inductive Item where
  | start
  | stop
  | one (a : Atom)
  | many (a : Atom)

/-- The items match the text from its start on, `before` being what stands in front of it. -/
def Matches : List Item → Text → Text → Prop
  | [], _, _ => True
  | .start :: is, before, t => before = [] ∧ Matches is before t
  | .stop :: is, before, t => t = [] ∧ Matches is before t
  | .one a :: is, before, t => ∃ c rest, t = c :: rest ∧ a.Takes c ∧ Matches is (before ++ [c]) rest
  | .many a :: is, before, t =>
    ∃ u rest, t = u ++ rest ∧ (∀ c ∈ u, a.Takes c) ∧ Matches is (before ++ u) rest

def Finds (is : List Item) (t : Text) : Prop :=
  ∃ before rest, t = before ++ rest ∧ Matches is before rest

/-- Characters that do not stand for themselves outside classes. -/
def isMeta (c : Char) : Bool := "\\.+*?()|[]\x7b\x7d^$".toList.contains c

def readAtom : Text → Option (Atom × Text)
  | [] => none
  | '.' :: t => some (.dot, t)
  | '\\' :: c :: t => if isEscapable c then some (.char c, t) else none
  | c :: t => if isMeta c then none else some (.char c, t)

def readItem : Text → Option (Item × Text)
  | '^' :: t => some (.start, t)
  | '$' :: t => some (.stop, t)
  | t =>
    (readAtom t).map fun
      | (a, '*' :: rest) => (.many a, rest)
      | (a, rest) => (.one a, rest)

theorem length_readAtom {t r : Text} {a : Atom} (h : readAtom t = some (a, r)) :
    r.length < t.length := by
  unfold readAtom at h
  split at h
  · cases h
  · cases h
    exact Nat.lt_succ_self _
  · split at h
    · cases h
      exact Nat.lt_succ_of_lt (Nat.lt_succ_self _)
    · cases h
  · split at h
    · cases h
    · cases h
      exact Nat.lt_succ_self _

theorem length_readItem {t r : Text} {i : Item} (h : readItem t = some (i, r)) :
    r.length < t.length := by
  unfold readItem at h
  split at h
  · cases h
    exact Nat.lt_succ_self _
  · cases h
    exact Nat.lt_succ_self _
  · obtain ⟨⟨a, rest⟩, hread, heq⟩ := Option.map_eq_some_iff.1 h
    have hlt := length_readAtom hread
    split at heq
    · rename_i hstar
      cases hstar
      cases heq
      exact Nat.lt_of_succ_lt hlt
    · rename_i hone
      cases hone
      cases heq
      exact hlt

theorem readAtom_plain {c : Char} (h : isMeta c = false) (t : Text) :
    readAtom (c :: t) = some (.char c, t) := by
  unfold readAtom
  split
  · rename_i hnil
    cases hnil
  · rename_i hdot
    cases hdot
    cases h
  · rename_i hescape
    cases hescape
    cases h
  · rename_i hplain
    cases hplain
    rw [h]
    rfl

theorem readAtom_escape {c : Char} (h : isEscapable c = true) (t : Text) :
    readAtom ('\\' :: c :: t) = some (.char c, t) := by
  rw [readAtom, if_pos h]

theorem readItem_one {t rest : Text} {a : Atom} (h : readAtom t = some (a, rest))
    (hrest : rest.head? ≠ some '*') : readItem t = some (.one a, rest) := by
  unfold readItem
  split
  · cases h
  · cases h
  · rw [h, Option.map_some]
    split
    · rename_i hstar
      cases hstar
      exact absurd rfl hrest
    · rename_i hone
      cases hone
      rfl

/-- The items of a regex, none if it is more than a row of them. -/
def readItems (t : Text) : Option (List Item) :=
  if t = [] then some []
  else
    match _h : readItem t with
    | none => none
    | some (i, rest) => (readItems rest).map (i :: ·)
termination_by t.length
decreasing_by exact length_readItem _h

theorem readItems_nil : readItems [] = some [] := by rw [readItems, if_pos rfl]

theorem readItems_of_readItem {t rest : Text} {i : Item} (h : readItem t = some (i, rest)) :
    readItems t = (readItems rest).map (i :: ·) := by
  have hne : t ≠ [] := by
    rintro rfl
    cases h
  rw [readItems, if_neg hne]
  split
  · rename_i hnone
    cases h.symm.trans hnone
  · rename_i hsome
    cases h.symm.trans hsome
    rfl

end Regex

namespace Document

/-- The pattern matches the text, its wildcards taking the given characters only: `%` any number of
them, `_` one. -/
inductive Likes (wild : Char → Prop) : Text → Text → Prop
  | nil : Likes wild [] []
  | many {u p t : Text} : (∀ c ∈ u, wild c) → Likes wild p t → Likes wild ('%' :: p) (u ++ t)
  | one {c : Char} {p t : Text} : wild c → Likes wild p t → Likes wild ('_' :: p) (c :: t)
  | char {c : Char} {p t : Text} :
    c ≠ '%' → c ≠ '_' → Likes wild p t → Likes wild (c :: p) (c :: t)

namespace Likes

variable {wild wild' : Char → Prop} {p t : Text}

theorem nil_iff : Likes wild [] t ↔ t = [] := by
  constructor
  · intro h
    cases h
    rfl
  · rintro rfl
    exact .nil

theorem many_iff :
    Likes wild ('%' :: p) t ↔ ∃ u rest, t = u ++ rest ∧ (∀ c ∈ u, wild c) ∧ Likes wild p rest := by
  constructor
  · intro h
    cases h with
    | many hu hp => exact ⟨_, _, rfl, hu, hp⟩
    | char hmany => exact absurd rfl hmany
  · rintro ⟨u, rest, rfl, hu, hp⟩
    exact .many hu hp

theorem one_iff :
    Likes wild ('_' :: p) t ↔ ∃ c rest, t = c :: rest ∧ wild c ∧ Likes wild p rest := by
  constructor
  · intro h
    cases h with
    | one hc hp => exact ⟨_, _, rfl, hc, hp⟩
    | char _ hone => exact absurd rfl hone
  · rintro ⟨c, rest, rfl, hc, hp⟩
    exact .one hc hp

theorem char_iff {c : Char} (hmany : c ≠ '%') (hone : c ≠ '_') :
    Likes wild (c :: p) t ↔ ∃ rest, t = c :: rest ∧ Likes wild p rest := by
  constructor
  · intro h
    cases h with
    | many => exact absurd rfl hmany
    | one => exact absurd rfl hone
    | char _ _ hp => exact ⟨_, rfl, hp⟩
  · rintro ⟨rest, rfl, hp⟩
    exact .char hmany hone hp

/-- Only what wildcards take of the text at hand matters. -/
theorem mono (h : Likes wild p t) (hwild : ∀ c ∈ t, wild c → wild' c) : Likes wild' p t := by
  induction h with
  | nil => exact .nil
  | many hu _ ih =>
    exact .many (fun c hc => hwild c (List.mem_append_left _ hc) (hu c hc))
      (ih fun c hc => hwild c (List.mem_append_right _ hc))
  | one hc _ ih =>
    exact .one (hwild _ List.mem_cons_self hc) (ih fun c hc => hwild c (List.mem_cons_of_mem _ hc))
  | char hmany hone _ ih =>
    exact .char hmany hone (ih fun c hc => hwild c (List.mem_cons_of_mem _ hc))

theorem plain_iff (hmany : '%' ∉ p) (hone : '_' ∉ p) : Likes wild p t ↔ t = p := by
  induction p generalizing t with
  | nil => exact nil_iff
  | cons c p ih =>
    obtain ⟨hc, hp⟩ := not_or.1 (mt List.mem_cons.2 hmany)
    obtain ⟨hc', hp'⟩ := not_or.1 (mt List.mem_cons.2 hone)
    rw [char_iff (Ne.symm hc) (Ne.symm hc')]
    simp only [ih hp hp', exists_eq_right]

/-- What wildcards do not take comes from the pattern. -/
theorem count_eq {d : Char} (hd : ¬wild d) (hmany : d ≠ '%') (hone : d ≠ '_')
    (h : Likes wild p t) : t.count d = p.count d := by
  induction h with
  | nil => rfl
  | @many u p t hu _ ih =>
    have hnone : u.count d = 0 := List.count_eq_zero.2 fun hmem => hd (hu d hmem)
    rw [List.count_append, hnone, Nat.zero_add, ih, List.count_cons_of_ne hmany.symm]
  | @one c p t hc _ ih =>
    have hne : c ≠ d := by
      rintro rfl
      exact hd hc
    rw [List.count_cons_of_ne hne, ih, List.count_cons_of_ne hone.symm]
  | char _ _ _ ih => rw [List.count_cons, List.count_cons, ih]

end Likes

def instanceWith (d : Char) (p : Text) : Text := p.map fun c => if c = '%' ∨ c = '_' then d else c

theorem likes_instanceWith {wild : Char → Prop} {d : Char} (hd : wild d) (p : Text) :
    Likes wild p (instanceWith d p) := by
  induction p with
  | nil => exact .nil
  | cons c p ih =>
    rw [instanceWith, List.map_cons]
    by_cases hmany : c = '%'
    · subst hmany
      exact .many (u := [d]) (by simpa using hd) ih
    · by_cases hone : c = '_'
      · subst hone
        exact .one hd ih
      · rw [if_neg (not_or.2 ⟨hmany, hone⟩)]
        exact .char hmany hone ih

theorem count_instanceWith {d : Char} (hmany : d ≠ '%') (hone : d ≠ '_') (p : Text) :
    (instanceWith d p).count d = p.count d + p.countP fun c => c = '%' ∨ c = '_' := by
  induction p with
  | nil => rfl
  | cons c p ih =>
    rw [instanceWith] at ih ⊢
    rw [List.map_cons, List.count_cons, ih, List.count_cons, List.countP_cons]
    by_cases hwild : c = '%' ∨ c = '_'
    · have hne : c ≠ d := by
        rintro rfl
        exact hwild.elim hmany hone
      simp [hwild, hne, Nat.add_assoc]
    · simp [hwild, Nat.add_right_comm]

theorem isEscapable_of_isSpecial {c : Char} (h : isSpecial c = true) :
    Regex.isEscapable c = true := by
  have hall : "\\.+*?()|[]\x7b\x7d^$#&-~".toList.all Regex.isEscapable = true := by decide
  exact List.all_eq_true.1 hall c (List.contains_iff_mem.1 h)

theorem isSpecial_of_isMeta {c : Char} (h : Regex.isMeta c = true) : isSpecial c = true := by
  have hall : "\\.+*?()|[]\x7b\x7d^$".toList.all isSpecial = true := by decide
  exact List.all_eq_true.1 hall c (List.contains_iff_mem.1 h)

def wildcardItem (c : Char) : Regex.Item :=
  if c = '%' then .many .dot else if c = '_' then .one .dot else .one (.char c)

theorem readItem_wildcardPiece (c : Char) {t : Text} (ht : t.head? ≠ some '*') :
    Regex.readItem (wildcardPiece c ++ t) = some (wildcardItem c, t) := by
  unfold wildcardPiece wildcardItem
  split
  · rfl
  · split
    · exact Regex.readItem_one rfl ht
    · split
      · rename_i hspecial
        exact Regex.readItem_one (Regex.readAtom_escape (isEscapable_of_isSpecial hspecial) t) ht
      · rename_i hspecial
        have hplain : Regex.isMeta c = false :=
          Bool.eq_false_iff.2 fun hmeta => hspecial (isSpecial_of_isMeta hmeta)
        exact Regex.readItem_one (Regex.readAtom_plain hplain t) ht

/-- No piece starts with a star, so none repeats the one in front of it. -/
theorem head?_wildcardPieces (p : Text) :
    (p.flatMap wildcardPiece ++ ['$']).head? ≠ some '*' := by
  cases p with
  | nil => decide
  | cons c p =>
    rw [List.flatMap_cons, List.append_assoc, wildcardPiece]
    split
    · simp
    · split
      · simp
      · split
        · simp
        · rename_i hspecial
          have hne : c ≠ '*' := by
            rintro rfl
            exact hspecial (by decide)
          simpa using hne

theorem readItems_wildcardRegex (p : Text) :
    Regex.readItems (wildcardRegex p) = some (.start :: (p.map wildcardItem ++ [.stop])) := by
  have hpieces : Regex.readItems (p.flatMap wildcardPiece ++ ['$']) =
      some (p.map wildcardItem ++ [.stop]) := by
    induction p with
    | nil =>
      rw [List.flatMap_nil, List.nil_append, Regex.readItems_of_readItem (i := .stop) rfl,
        Regex.readItems_nil]
      rfl
    | cons c p ih =>
      have hread := readItem_wildcardPiece c (head?_wildcardPieces p)
      rw [List.flatMap_cons, List.append_assoc, Regex.readItems_of_readItem hread, ih]
      rfl
  rw [wildcardRegex, List.cons_append, Regex.readItems_of_readItem (i := .start) rfl, hpieces]
  rfl

/-- Behind any text the items of a pattern take what the pattern matches up to the end. -/
theorem matches_wildcardItems (p before t : Text) :
    Regex.Matches (p.map wildcardItem ++ [.stop]) before t ↔ Likes (· ≠ '\n') p t := by
  induction p generalizing before t with
  | nil => rw [Likes.nil_iff, List.map_nil, List.nil_append, Regex.Matches, Regex.Matches, and_true]
  | cons c p ih =>
    rw [List.map_cons, List.cons_append, wildcardItem]
    split
    · rename_i hmany
      rw [hmany, Likes.many_iff]
      simp only [Regex.Matches, Regex.Atom.Takes, ih]
    · rename_i hmany
      split
      · rename_i hone
        rw [hone, Likes.one_iff]
        simp only [Regex.Matches, Regex.Atom.Takes, ih]
      · rename_i hone
        rw [Likes.char_iff hmany hone]
        simp only [Regex.Matches, Regex.Atom.Takes, ih]
        constructor
        · rintro ⟨_, rest, rfl, rfl, hp⟩
          exact ⟨rest, rfl, hp⟩
        · rintro ⟨rest, rfl, hp⟩
          exact ⟨c, rest, rfl, rfl, hp⟩

theorem finds_wildcardItems (p t : Text) :
    Regex.Finds (.start :: (p.map wildcardItem ++ [.stop])) t ↔ Likes (· ≠ '\n') p t := by
  constructor
  · rintro ⟨_, rest, rfl, rfl, hrest⟩
    exact (matches_wildcardItems p [] rest).1 hrest
  · intro h
    exact ⟨[], t, rfl, rfl, (matches_wildcardItems p [] t).2 h⟩

/-- Wildcards that take no line feed match fewer texts, if there are any in the pattern. -/
theorem likes_iff_of_no_wildcard {p : Text} :
    (∀ t, Likes (· ≠ '\n') p t ↔ Likes (fun _ => True) p t) ↔ '%' ∉ p ∧ '_' ∉ p := by
  constructor
  · intro h
    -- In an instance with line feeds for the wildcards there are more of them than in the pattern.
    have hinstance := (h _).2 (likes_instanceWith (d := '\n') trivial p)
    have hcount := Likes.count_eq (not_not_intro rfl) (by decide) (by decide) hinstance
    rw [count_instanceWith (by decide) (by decide)] at hcount
    have hnone : ∀ c ∈ p, ¬(c = '%' ∨ c = '_') := by
      simpa using List.countP_eq_zero.1 (Nat.left_eq_add.1 hcount.symm)
    exact ⟨fun hmem => hnone _ hmem (.inl rfl), fun hmem => hnone _ hmem (.inr rfl)⟩
  · rintro ⟨hmany, hone⟩ t
    rw [Likes.plain_iff hmany hone, Likes.plain_iff hmany hone]

/-- The regex of a pattern can be read, and it finds the texts that the pattern matches with
wildcards that take no line feed. These are the texts that the pattern matches, as far as they have
no line feed; and they are all of them exactly if the pattern has no wildcards. -/
theorem finds_wildcardRegex (p : Text) :
    ∃ is, Regex.readItems (wildcardRegex p) = some is ∧
      (∀ t, Regex.Finds is t ↔ Likes (· ≠ '\n') p t) ∧
      (∀ t, '\n' ∉ t → (Regex.Finds is t ↔ Likes (fun _ => True) p t)) ∧
      ((∀ t, Regex.Finds is t ↔ Likes (fun _ => True) p t) ↔ '%' ∉ p ∧ '_' ∉ p) := by
  refine ⟨_, readItems_wildcardRegex p, finds_wildcardItems p, fun t ht => ?_, ?_⟩
  · rw [finds_wildcardItems]
    exact ⟨fun h => h.mono fun _ _ _ => trivial,
      fun h => h.mono fun c hc _ hfeed => ht (hfeed ▸ hc)⟩
  · simp only [finds_wildcardItems]
    exact likes_iff_of_no_wildcard

/-- The regex of a pattern for every text finds a letter but no line feed. -/
theorem finds_wildcardRegex_line_feed :
    '\n' ∉ ['a'] ∧ ∃ is, Regex.readItems (wildcardRegex ['%']) = some is ∧
      Regex.Finds is ['a'] ∧ ¬Regex.Finds is ['\n'] ∧ Likes (fun _ => True) ['%'] ['\n'] := by
  have hnone : '\n' ∉ ['a'] := by decide
  obtain ⟨is, hread, hfinds, hplain, -⟩ := finds_wildcardRegex ['%']
  have hall (t : Text) : Likes (fun _ => True) ['%'] t := by
    have hmany : Likes (fun _ => True) ['%'] (t ++ []) := .many (fun _ _ => trivial) .nil
    rwa [List.append_nil] at hmany
  refine ⟨hnone, is, hread, (hplain _ hnone).2 (hall _), ?_, hall _⟩
  rw [hfinds]
  intro hlikes
  have hcount := Likes.count_eq (not_not_intro rfl) (by decide) (by decide) hlikes
  exact absurd hcount (by decide)

end Document

end FilterQuery
