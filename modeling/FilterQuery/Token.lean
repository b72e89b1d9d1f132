import FilterQuery.Text.Quoted
set_option autoImplicit false

/-!
Tokens of filter text. White space ends a token and each parenthesis is a token of its own, both
only outside double-quoted literals. `Lexeme.next?` cuts the first token off a text;
`Token.scan` lists all of them with their byte offsets.
-/

namespace FilterQuery

def isParenthesis (c : Char) : Bool := c = '(' || c = ')'

structure Token where
  text : Text
  start : Nat
  deriving DecidableEq, Repr

def Token.stop (t : Token) : Nat := t.start + t.text.byteLength

/-- The first token of a text, the white space before it and what follows it. -/
structure Lexeme where
  gap : Text
  text : Text
  rest : Text
  deriving DecidableEq, Repr

namespace Lexeme

def ends (q : QuoteState) (c : Char) : Bool :=
  q == .outside && (Text.isGap c || isParenthesis c)

def spanWord : QuoteState → Text → Text × Text
  | _, [] => ([], [])
  | q, c :: t =>
    if ends q c then ([], c :: t)
    else
      let (word, rest) := spanWord (q.next c) t
      (c :: word, rest)

/-- Cuts a text that starts with no white space behind its first token. -/
def spanToken : Text → Text × Text
  | [] => ([], [])
  | c :: t => if isParenthesis c then ([c], t) else spanWord .outside (c :: t)

def next? (t : Text) : Option Lexeme :=
  let gap := t.takeWhile Text.isGap
  let start := t.dropWhile Text.isGap
  if start = [] then none
  else
    let (text, rest) := spanToken start
    some ⟨gap, text, rest⟩

theorem spanWord_append (q : QuoteState) (t : Text) :
    (spanWord q t).1 ++ (spanWord q t).2 = t := by
  fun_induction spanWord q t <;> simp_all

theorem spanToken_append (t : Text) : (spanToken t).1 ++ (spanToken t).2 = t := by
  cases t with
  | nil => rfl
  | cons c t =>
    by_cases h : isParenthesis c = true
    · simp [spanToken, h]
    · simp [spanToken, h, spanWord_append]

/-- The first token starts at the first character that is no white space. -/
theorem eq_of_next? {t : Text} {l : Lexeme} (h : next? t = some l) :
    t.dropWhile Text.isGap ≠ [] ∧ l = ⟨t.takeWhile Text.isGap,
      (spanToken (t.dropWhile Text.isGap)).1, (spanToken (t.dropWhile Text.isGap)).2⟩ := by
  simp only [next?] at h
  split at h
  · cases h
  · rename_i hne
    cases h
    exact ⟨hne, rfl⟩

theorem append_of_next? {t : Text} {l : Lexeme} (h : next? t = some l) :
    l.gap ++ l.text ++ l.rest = t := by
  obtain ⟨-, rfl⟩ := eq_of_next? h
  simp [spanToken_append, List.takeWhile_append_dropWhile]

theorem spanToken_ne_nil {c : Char} {t : Text} (h : Text.isGap c = false) :
    (spanToken (c :: t)).1 ≠ [] := by
  by_cases hp : isParenthesis c = true
  · simp [spanToken, hp]
  · simp [spanToken, spanWord, ends, h, hp]

theorem text_ne_nil {t : Text} {l : Lexeme} (h : next? t = some l) : l.text ≠ [] := by
  obtain ⟨hne, rfl⟩ := eq_of_next? h
  obtain ⟨c, r, hc⟩ := List.exists_cons_of_ne_nil hne
  have : Text.isGap c = false := by
    have := List.head_dropWhile_not Text.isGap hne
    simpa [hc] using this
  simpa [hc] using spanToken_ne_nil this

theorem length_rest_lt {t : Text} {l : Lexeme} (h : next? t = some l) :
    l.rest.length < t.length := by
  have happ := append_of_next? h
  have hne := text_ne_nil h
  have : 0 < l.text.length := List.length_pos_iff.2 hne
  rw [← happ]
  simp only [List.length_append]
  omega

def isGroupOpen (l : Lexeme) : Bool := l.text == ['(']

def isGroupClose (l : Lexeme) : Bool := l.text == [')']

def token (l : Lexeme) (offset : Nat) : Token := ⟨l.text, offset + l.gap.byteLength⟩

end Lexeme

def Token.scanFrom (offset : Nat) (t : Text) : List Token :=
  match h : Lexeme.next? t with
  | none => []
  | some l =>
    have := Lexeme.length_rest_lt h
    l.token offset :: scanFrom (l.token offset).stop l.rest
termination_by t.length

def Token.scan (t : Text) : List Token := Token.scanFrom 0 t

def Token.isGroupOpen (t : Token) : Bool := t.text == ['(']

def Token.isGroupClose (t : Token) : Bool := t.text == [')']

end FilterQuery
