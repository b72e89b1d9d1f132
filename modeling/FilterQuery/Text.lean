set_option autoImplicit false

/-!
Text as a list of characters: white space, trimming, splitting, ASCII case, offsets in UTF-8
bytes, and decimal numerals. Filter text, names and rendered queries are all of this type.
-/

namespace FilterQuery

/-- Text is the list of its characters. -/
abbrev Text := List Char

namespace Text

theorem isPrefixOf?_cons (c d : Char) (mark t : Text) :
    (c :: mark).isPrefixOf? (d :: t) = if c == d then mark.isPrefixOf? t else none := rfl

theorem isPrefixOf?_of_ne {c d : Char} (h : c ≠ d) (mark t : Text) :
    (c :: mark).isPrefixOf? (d :: t) = none := by
  rw [isPrefixOf?_cons, if_neg (by simpa using h)]

/-- A text starts with a mark when it is the mark and what is left behind it. -/
theorem append_of_isPrefixOf? {mark t body : Text} (h : mark.isPrefixOf? t = some body) :
    mark ++ body = t := by
  induction mark generalizing t with
  | nil => exact (Option.some.inj h).symm
  | cons c mark ih =>
    cases t with
    | nil => cases h
    | cons d t =>
      rw [isPrefixOf?_cons] at h
      split at h
      · rename_i hc
        rw [List.cons_append, ih h, eq_of_beq hc]
      · cases h

theorem isPrefixOf?_append (mark t : Text) : mark.isPrefixOf? (mark ++ t) = some t := by
  induction mark with
  | nil => rfl
  | cons c mark ih => rw [List.cons_append, isPrefixOf?_cons, if_pos (beq_self_eq_true c), ih]

theorem isPrefixOf?_eq_none_iff {mark t : Text} : mark.isPrefixOf? t = none ↔ ¬mark <+: t := by
  constructor
  · rintro h ⟨u, rfl⟩
    rw [isPrefixOf?_append] at h
    cases h
  · intro h
    cases hb : mark.isPrefixOf? t with
    | none => rfl
    | some body => exact absurd ⟨body, append_of_isPrefixOf? hb⟩ h

/-- White space that separates tokens: space, tab, line feed, form feed and carriage return. -/
def isGap (c : Char) : Bool :=
  c = ' ' || c = '\t' || c = '\n' || c = '\x0c' || c = '\r'

/-- The White_Space property: 25 characters. -/
def isBlank (c : Char) : Bool :=
  let n := c.toNat
  (9 ≤ n && n ≤ 13) || n = 0x20 || n = 0x85 || n = 0xA0 || n = 0x1680 ||
    (0x2000 ≤ n && n ≤ 0x200A) || n = 0x2028 || n = 0x2029 || n = 0x202F || n = 0x205F ||
    n = 0x3000

theorem isBlank_of_isGap (c : Char) (h : isGap c = true) : isBlank c = true := by
  simp [isGap] at h
  rcases h with (((h | h) | h) | h) | h <;> subst h <;> decide

def trimStart (t : Text) : Text := t.dropWhile isBlank

def trimEnd (t : Text) : Text := (t.reverse.dropWhile isBlank).reverse

def trim (t : Text) : Text := trimEnd (trimStart t)

def byteLength (t : Text) : Nat := t.foldr (fun c n => c.utf8Size + n) 0

@[simp] theorem byteLength_nil : byteLength [] = 0 := rfl

@[simp] theorem byteLength_cons (c : Char) (t : Text) :
    byteLength (c :: t) = c.utf8Size + byteLength t := rfl

@[simp] theorem byteLength_append (t u : Text) :
    byteLength (t ++ u) = byteLength t + byteLength u := by
  induction t with
  | nil => simp
  | cons c t ih =>
    rw [List.cons_append, byteLength_cons, byteLength_cons, ih]
    omega

def join (separator : Text) (pieces : List Text) : Text := List.intercalate separator pieces

@[simp] theorem join_nil (separator : Text) : join separator [] = [] := rfl

@[simp] theorem join_singleton (separator t : Text) : join separator [t] = t :=
  List.intercalate_singleton

@[simp] theorem join_cons_cons (separator t u : Text) (ts : List Text) :
    join separator (t :: u :: ts) = t ++ (separator ++ join separator (u :: ts)) := by
  rw [join, List.intercalate_cons_cons, List.append_assoc, join]

@[simp] theorem join_splitOn (c : Char) (t : Text) : join [c] (t.splitOn c) = t :=
  List.intercalate_splitOn c

def words (separates : Char → Bool) : Text → List Text
  | [] => []
  | c :: t =>
    if separates c then words separates t
    else
      match t with
      | [] => [[c]]
      | d :: _ =>
        if separates d then [c] :: words separates t
        else (words separates t).modifyHead (c :: ·)

def isUpperLetter (c : Char) : Bool := 'A' ≤ c && c ≤ 'Z'

def isLowerLetter (c : Char) : Bool := 'a' ≤ c && c ≤ 'z'

def isLetter (c : Char) : Bool := isUpperLetter c || isLowerLetter c

def isDigit (c : Char) : Bool := '0' ≤ c && c ≤ '9'

def isLetterOrDigit (c : Char) : Bool := isLetter c || isDigit c

def lowerLetter (c : Char) : Char :=
  if isUpperLetter c then Char.ofNat (c.toNat + 32) else c

def upperLetter (c : Char) : Char :=
  if isLowerLetter c then Char.ofNat (c.toNat - 32) else c

def lower (t : Text) : Text := t.map lowerLetter

def upper (t : Text) : Text := t.map upperLetter

def sameLetters (t u : Text) : Bool := lower t == lower u

def replace (c : Char) (by_ : Text) (t : Text) : Text :=
  t.flatMap fun d => if d = c then by_ else [d]

def ofNat (n : Nat) : Text := Nat.toDigits 10 n

def ofInt : Int → Text
  | .ofNat n => ofNat n
  | .negSucc n => '-' :: ofNat (n + 1)

def toNat? (t : Text) : Option Nat :=
  if t ≠ [] ∧ t.all isDigit then some (Nat.ofDigitChars 10 t 0) else none

def toInt? : Text → Option Int
  | '+' :: t => (toNat? t).map Int.ofNat
  | '-' :: t => (toNat? t).map fun n => -Int.ofNat n
  | t => (toNat? t).map Int.ofNat

/-- A numeral of at least `width` digits, zeros in front. -/
def padded (width n : Nat) : Text :=
  let digits := ofNat n
  List.replicate (width - digits.length) '0' ++ digits

def hexValue? (c : Char) : Option Nat :=
  if isDigit c then some (c.toNat - 48)
  else if 'a' ≤ c && c ≤ 'f' then some (c.toNat - 87)
  else if 'A' ≤ c && c ≤ 'F' then some (c.toNat - 55)
  else none

def ofHex? (t : Text) : Option Nat :=
  t.foldl (fun n c => n.bind fun n => (hexValue? c).map (n * 16 + ·)) (some 0)

def char? (n : Nat) : Option Char :=
  if n < 0xD800 || (0xDFFF < n && n < 0x110000) then some (Char.ofNat n) else none

end Text

end FilterQuery
