import FilterQuery.Proofs.Bytes
import FilterQuery.Proofs.Validity
set_option autoImplicit false

/-!
Literals as a scan sees them. What is written as a literal, and what is read as one, is a single
span from its first byte to its last: no run of backslashes and no escape makes the scan and the
reader of literals disagree about where it ends.
-/

namespace FilterQuery

open FilterQuery.QuoteState FilterQuery.Text

/-- A text that is one literal for a scan: opened by its first character, closed by its last one,
and at no place between them outside. -/
structure IsSpan (t : Text) : Prop where
  opened : t.head? = some '"'
  inside : ∀ u v, u ++ v = t → u ≠ [] → v ≠ [] → outside.after u ≠ outside
  closed : Closed t

theorem Text.trimEnd_padded {t g : Text} (ht : ∀ c ∈ t.getLast?, isBlank c = false)
    (hg : ∀ c ∈ g, isBlank c = true) : trimEnd (t ++ g) = t := by
  have hstart : trimStart (g.reverse ++ t.reverse) = t.reverse :=
    trimStart_padded (by simpa using hg) (by simpa using ht)
  rw [trimEnd, List.reverse_append, show (g.reverse ++ t.reverse).dropWhile isBlank = t.reverse from
    hstart, List.reverse_reverse]

namespace LiteralBody

theorem after_ne_outside {body : Text} (h : LiteralBody body) :
    ∀ u v, u ++ v = body → inside.after u ≠ outside := by
  induction h with
  | nil =>
    intro u v happ
    rw [(List.append_eq_nil_iff.1 happ).1]
    decide
  | @plain c t hquote hslash _ ih =>
    rintro (_ | ⟨d, u⟩) v happ
    · decide
    · cases happ
      rw [after_cons, next_inside hquote hslash]
      exact ih u v rfl
  | @escape c t _ ih =>
    -- the prefix may end behind the backslash, where the scan waits for the escaped character
    rintro (_ | ⟨d, _ | ⟨e, u⟩⟩) v happ
    · decide
    · cases happ
      decide
    · cases happ
      exact ih u v rfl

theorem isSpan {body : Text} (h : LiteralBody body) : IsSpan ('"' :: (body ++ ['"'])) where
  opened := rfl
  inside u v happ hu hv := by
    obtain rfl | ⟨v, d, rfl⟩ := List.eq_nil_or_concat v
    · exact absurd rfl hv
    · obtain ⟨c, u, rfl⟩ := List.exists_cons_of_ne_nil hu
      rw [List.concat_eq_append, List.cons_append, List.cons.injEq, ← List.append_assoc] at happ
      obtain ⟨rfl, happ⟩ := happ
      exact h.after_ne_outside u v (List.append_inj_left' happ rfl)
  closed := (h.scan_literal [] []).1

theorem append_of_isWide {u t : Text} (hu : ∀ c ∈ u, IsWide c) (ht : LiteralBody t) :
    LiteralBody (u ++ t) := by
  induction u with
  | nil => exact ht
  | cons c u ih =>
    rw [List.forall_mem_cons] at hu
    exact .plain (ne_of_isWide hu.1 (by decide)) (ne_of_isWide hu.1 (by decide)) (ih hu.2)

/-- The bytes of a body are one too: of a character beyond ASCII a backslash takes the first byte,
and the others end nothing. -/
theorem bytes {t : Text} (h : LiteralBody t) : LiteralBody (Text.bytes t) := by
  induction h with
  | nil => exact .nil
  | @plain c t hquote hslash _ ih =>
    rw [bytes_cons]
    by_cases hwide : IsWide c
    · exact append_of_isWide (fun _ hb => isWide_of_mem_bytes hwide hb) ih
    · rw [bytes_of_not_isWide hwide]
      exact .plain hquote hslash ih
  | @escape c t _ ih =>
    rw [bytes_cons, bytes_cons c, bytes_of_not_isWide (by decide : ¬IsWide '\\')]
    by_cases hwide : IsWide c
    · have hbytes : ∀ b ∈ Text.bytes [c], IsWide b := fun _ hb => isWide_of_mem_bytes hwide hb
      obtain ⟨b, bs, heq⟩ := List.exists_cons_of_ne_nil (bytes_ne_nil (List.cons_ne_nil c []))
      rw [heq, List.forall_mem_cons] at hbytes
      rw [heq]
      exact .escape b (append_of_isWide hbytes.2 ih)
    · rw [bytes_of_not_isWide hwide]
      exact .escape c ih

theorem isSpan_bytes {body : Text} (h : LiteralBody body) :
    IsSpan (Text.bytes ('"' :: (body ++ ['"']))) := by
  have hmark : Text.bytes ['"'] = ['"'] := bytes_of_not_isWide (by decide)
  rw [bytes_cons, bytes_append, hmark]
  exact h.bytes.isSpan

end LiteralBody

namespace Token

theorem scanFrom_of_next? {t : Text} {l : Lexeme} (h : Lexeme.next? t = some l) (offset : Nat) :
    scanFrom offset t = l.token offset :: scanFrom (l.token offset).stop l.rest := by
  rw [scanFrom]
  split
  · rename_i hnone
    rw [h] at hnone
    cases hnone
  · rename_i k hk
    rw [h] at hk
    cases hk
    rfl

theorem scanFrom_of_next?_eq_none {t : Text} (h : Lexeme.next? t = none) (offset : Nat) :
    scanFrom offset t = [] := by
  rw [scanFrom]
  split
  · rfl
  · rename_i l hl
    rw [h] at hl
    cases hl

end Token

namespace Quoted

theorem literalBody_flatMap (t : Text) : LiteralBody (t.flatMap writeChar) := by
  induction t with
  | nil => exact .nil
  | cons c t ih =>
    rw [List.flatMap_cons, writeChar]
    split_ifs with hescaped
    · exact .escape c ih
    · exact .escape 'n' ih
    · exact .escape 'r' ih
    · exact .escape 't' ih
    · rw [not_or] at hescaped
      exact .plain hescaped.1 hescaped.2 ih

theorem plain_of_hexValue? {c : Char} {n : Nat} (h : hexValue? c = some n) :
    c ≠ '"' ∧ c ≠ '\\' := by
  constructor
  all_goals
    rintro rfl
    cases h

/-- The digits of an escaped number neither end a literal nor escape anything. -/
theorem plain_of_unicode? {a b c d e : Char} (h : unicode? a b c d = some e) :
    ∀ x ∈ [a, b, c, d], x ≠ '"' ∧ x ≠ '\\' := by
  obtain ⟨n, hn, -⟩ := Option.bind_eq_some_iff.1 h
  simp only [ofHex?, List.foldl_cons, List.foldl_nil, Option.bind_eq_some_iff,
    Option.map_eq_some_iff] at hn
  obtain ⟨_, ⟨_, ⟨_, ⟨_, -, _, ha, -⟩, _, hb, -⟩, _, hc, -⟩, _, hd, -⟩ := hn
  simp only [List.forall_mem_cons, List.not_mem_nil, false_implies, implies_true, and_true]
  exact ⟨plain_of_hexValue? ha, plain_of_hexValue? hb, plain_of_hexValue? hc, plain_of_hexValue? hd⟩

theorem exists_body_of_readBody {t content rest : Text} (h : readBody t = some (content, rest)) :
    ∃ body, LiteralBody body ∧ t = body ++ '"' :: rest := by
  fun_induction readBody t generalizing content with
  | case1 => cases h
  | case2 t =>
    cases h
    exact ⟨[], .nil, rfl⟩
  | case3 a b c d t e he ih =>
    obtain ⟨⟨s, r⟩, hread, heq⟩ := Option.map_eq_some_iff.1 h
    cases heq
    obtain ⟨body, hbody, rfl⟩ := ih hread
    have hplain := plain_of_unicode? he
    simp only [List.forall_mem_cons] at hplain
    obtain ⟨ha, hb, hc, hd, -⟩ := hplain
    exact ⟨'\\' :: 'u' :: a :: b :: c :: d :: body, .escape 'u' (.plain ha.1 ha.2 (.plain hb.1 hb.2
      (.plain hc.1 hc.2 (.plain hd.1 hd.2 hbody)))), rfl⟩
  | case4 => cases h
  | case5 e t _ c hc ih =>
    obtain ⟨⟨s, r⟩, hread, heq⟩ := Option.map_eq_some_iff.1 h
    cases heq
    obtain ⟨body, hbody, rfl⟩ := ih hread
    exact ⟨'\\' :: e :: body, .escape e hbody, rfl⟩
  | case6 => cases h
  | case7 => cases h
  | case8 c t hquote _ _ hslash ih =>
    obtain ⟨⟨s, r⟩, hread, heq⟩ := Option.map_eq_some_iff.1 h
    cases heq
    obtain ⟨body, hbody, rfl⟩ := ih hread
    exact ⟨c :: body, .plain hquote hslash hbody, rfl⟩

theorem exists_body_of_read {t content : Text} (h : read t = some content) :
    ∃ body, LiteralBody body ∧ trim t = '"' :: (body ++ ['"']) := by
  rw [read] at h
  split at h
  · rename_i s rest hfront
    split at h
    · rename_i hblank
      cases h
      unfold readFront at hfront
      split at hfront
      · rename_i u hstart
        obtain ⟨body, hbody, rfl⟩ := exists_body_of_readBody hfront
        refine ⟨body, hbody, ?_⟩
        have hmark : isBlank '"' = false := by decide
        have hend : trimEnd ('"' :: (body ++ ['"']) ++ rest) = '"' :: (body ++ ['"']) :=
          trimEnd_padded (by simp [List.getLast?_cons, hmark]) (List.all_eq_true.1 hblank)
        rw [trim, hstart, ← hend]
        simp
      · cases hfront
    · cases h
  · cases h

theorem scan_write (s : Text) : Token.scan (write s) = [⟨write s, 0⟩] := by
  have hne : write s ≠ [] := List.cons_ne_nil _ _
  have hnext := Lexeme.next?_word hne (clear_write _ s) (closed_write s) Lexeme.atBreak_nil
  rw [List.append_nil] at hnext
  rw [Token.scan, Token.scanFrom_of_next? hnext, Token.scanFrom_of_next?_eq_none rfl]
  rfl

/-- A written literal is one token in which nothing is structural, and it is read as what it was
written for. Whatever is read as a literal is a single span without the white space around it. -/
theorem write_survives (s : Text) :
    Token.scan (write s) = [⟨write s, 0⟩] ∧
      (∀ m ∈ outside.marks (write s).bytes, m.2 = false) ∧
      read (write s) = some s ∧
      ∀ w content, read w = some content → IsSpan (trim w).bytes := by
  refine ⟨scan_write s, fun m hm => ?_, read_write s, fun w content h => ?_⟩
  · obtain ⟨n, hn, -, hmark⟩ := exists_mark_of_byte hm
    rw [hmark]
    simpa using clear_write (fun _ => true) s n hn
  · obtain ⟨body, hbody, htrim⟩ := exists_body_of_read h
    rw [htrim]
    exact hbody.isSpan_bytes

theorem write_survives_escapes :
    read " \"\\\\\\\"é\\u0041]\" ".toList = some "\\\"éA]".toList ∧
      IsSpan (bytes (trim " \"\\\\\\\"é\\u0041]\" ".toList)) := by
  have hread : read " \"\\\\\\\"é\\u0041]\" ".toList = some "\\\"éA]".toList := by decide
  exact ⟨hread, (write_survives []).2.2.2 _ _ hread⟩

end Quoted

end FilterQuery
