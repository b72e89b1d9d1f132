import FilterQuery.Condition
import Mathlib.Data.List.Find
import FilterQuery.Proofs.Literal
set_option autoImplicit false

/-!
The text of a test is an operator and an operand. The operator is the one a reader finds there, and
the operand gives the test back.
-/

namespace FilterQuery

namespace Test

def operator : Test → Operator
  | .compare c _ => .compare c
  | .pattern k _ => .pattern k
  | .member n _ => .member n
  | .between .. => .between
  | .null n => .null n

def operand : Test → Text
  | .compare _ v => v.write
  | .pattern _ p => Quoted.write p
  | .member _ vs => (Value.list vs).write
  | .between low high => low.write ++ rangeMark ++ high.write
  | .null _ => []

def Writable [Regex.Engine] : Test → Prop
  | .compare _ v => v.Writable
  | .pattern .regex p => Regex.Engine.accepts p = true
  | .pattern _ _ => True
  | .member _ vs => ∀ v ∈ vs, v.Writable
  | .between low high => low.Writable ∧ high.Writable
  | .null _ => True

instance [Regex.Engine] : (t : Test) → Decidable t.Writable
  | .compare _ v => inferInstanceAs (Decidable v.Writable)
  | .pattern .regex p => inferInstanceAs (Decidable (Regex.Engine.accepts p = true))
  | .pattern .like _ => isTrue trivial
  | .pattern .ilike _ => isTrue trivial
  | .member _ vs => inferInstanceAs (Decidable (∀ v ∈ vs, v.Writable))
  | .between low high => inferInstanceAs (Decidable (low.Writable ∧ high.Writable))
  | .null _ => isTrue trivial

theorem write_eq (t : Test) : t.write = t.operator.symbol ++ t.operand := by
  cases t with
  | compare c v => rfl
  | pattern k p => rfl
  | member n vs => rfl
  | between low high =>
    simp only [write, operator, operand, Operator.symbol, List.append_assoc]
  | null n => simp [write, operator, operand, Operator.symbol]

theorem symbol_ne_nil (o : Operator) : o.symbol ≠ [] := by
  cases o with
  | compare c => cases c <;> decide
  | pattern k => cases k <;> decide
  | notLike => decide
  | notRegex => decide
  | member n => cases n <;> decide
  | between => decide
  | null n => cases n <;> decide

end Test

namespace Value

theorem exists_literals {vs : List Value} (h : ∀ v ∈ vs, v.Writable) :
    ∃ ls : List Literal, (∀ l ∈ ls, l.IsWritten) ∧ ls.map Literal.write = vs.map write ∧
      ls.map Literal.value = vs := by
  induction vs with
  | nil => exact ⟨[], by simp⟩
  | cons v vs ih =>
    rw [List.forall_mem_cons] at h
    obtain ⟨l, hl, hwrite, hvalue⟩ := Literal.exists_of_writable h.1
    obtain ⟨ls, hls, hwrites, hvalues⟩ := ih h.2
    refine ⟨l :: ls, List.forall_mem_cons.2 ⟨hl, hls⟩, ?_, ?_⟩
    · rw [List.map_cons, List.map_cons, hwrite, hwrites]
    · rw [List.map_cons, hvalue, hvalues]

theorem write_list (vs : List Value) :
    (list vs).write = '[' :: Text.join [','] (vs.map write) ++ [']'] := by
  rw [write, writeEach_eq_map]

/-- The first character of a written scalar extends no operator, but for the name `null`. -/
theorem write_head {v : Value} (h : v.Writable) (hnull : v ≠ .null) :
    ∃ c t, v.write = c :: t ∧ c ∉ ['=', '~', '^', 'i', 'n', 'b'] := by
  have hnumber : ∀ c, Text.isDigit c = true ∨ c = '-' → c ∉ ['=', '~', '^', 'i', 'n', 'b'] := by
    rintro c (hc | rfl)
    · simp only [List.mem_cons, List.not_mem_nil, or_false]
      rintro (rfl | rfl | rfl | rfl | rfl | rfl)
      all_goals exact absurd hc (by decide)
    · decide
  cases v with
  | int n =>
    obtain ⟨c, t, hcons⟩ := List.exists_cons_of_ne_nil (Text.ofInt_ne_nil n.toInt)
    exact ⟨c, t, by rw [write, hcons],
      hnumber c (Text.mem_ofInt (n := n.toInt) (by rw [hcons]; simp))⟩
  | float x =>
    obtain ⟨c, t, hcons, hc⟩ := Binary64.write_eq_cons (x := x) h
    exact ⟨c, t, by rw [write, hcons], hnumber c hc⟩
  | bool b =>
    cases b
    · exact ⟨'f', "alse".toList, by rw [write]; rfl, by decide⟩
    · exact ⟨'t', "rue".toList, by rw [write]; rfl, by decide⟩
  | text t => exact ⟨'"', _, by rw [write]; rfl, by decide⟩
  | time t => exact ⟨'"', _, by rw [write]; rfl, by decide⟩
  | null => exact absurd rfl hnull
  | list vs => cases h

end Value

namespace Literal

theorem set?_write {vs : List Value} (h : ∀ v ∈ vs, v.Writable) :
    set? (Value.list vs).write = some vs := by
  obtain ⟨ls, hls, hwrite, hvalue⟩ := Value.exists_literals h
  have hlist := readList_join hls
  have hstrip : stripGroup (Value.list vs).write = (Value.list vs).write := by
    have htrim : Text.trim (Value.list vs).write = (Value.list vs).write := by
      rw [Value.write_list]
      refine Text.Trimmed.trim_eq ⟨?_, ?_⟩
      · simp [show Text.isBlank '[' = false by decide]
      · simp [List.getLast?_cons, show Text.isBlank ']' = false by decide]
    rw [stripGroup, htrim, Value.write_list]
    rfl
  rw [set?, hstrip]
  rw [Value.write_list, ← hwrite] at *
  simp only [List.cons_append] at hlist ⊢
  rw [hlist, Option.map_some, hvalue]

theorem range?_write {low high : Value} (hlow : low.Writable) (hhigh : high.Writable) :
    range? (low.write ++ rangeMark ++ high.write) = some (low, high) := by
  obtain ⟨k, hk, hkwrite, rfl⟩ := exists_of_writable hlow
  obtain ⟨l, hl, hlwrite, rfl⟩ := exists_of_writable hhigh
  rw [← hkwrite, ← hlwrite]
  obtain ⟨c, u, hhead, hc⟩ := Literal.write_head hk
  obtain ⟨v, d, hlast, hd⟩ := Literal.write_last hl
  have hparen : c ≠ '(' := by
    rcases hc with rfl | hc
    · decide
    · exact Text.ne_of_isPlain hc (by decide)
  have htrim : Text.trim (k.write ++ rangeMark ++ l.write) = k.write ++ rangeMark ++ l.write := by
    refine Text.Trimmed.trim_eq ⟨?_, ?_⟩
    · simpa [hhead] using isBlank_of_edge hc
    · simpa [hlast] using isBlank_of_edge hd
  have hstrip : stripGroup (k.write ++ rangeMark ++ l.write) = k.write ++ rangeMark ++ l.write := by
    rw [stripGroup, htrim, hhead]
    simp [hparen]
  rw [range?, hstrip, findUnquoted_rangeMark hk]
  simp [scalar?, read_write hk, read_write hl]

end Literal

namespace Operator

theorem mem_table (o : Operator) : o ∈ table := by
  cases o with
  | compare c => cases c <;> decide
  | pattern k => cases k <;> decide
  | member n => cases n <;> decide
  | null n => cases n <;> decide
  | _ => decide

theorem append_of_leading? {t : Text} {o : Operator} (h : leading? t = some o) :
    o.symbol ++ t.drop o.symbol.length = t := by
  have hstarts : o.symbol.isPrefixOf t = true := by simpa using List.find?_some h
  obtain ⟨u, rfl⟩ := List.isPrefixOf_iff_prefix.1 hstarts
  rw [List.drop_left]

theorem append_of_findFrom {q : QuoteState} {t before behind : Text} {o : Operator}
    (h : findFrom q t = some (before, o, behind)) : before ++ o.symbol ++ behind = t := by
  induction t generalizing q before with
  | nil => cases h
  | cons c t ih =>
    rw [findFrom] at h
    split at h
    · rename_i o' hlead
      cases h
      split at hlead
      · exact append_of_leading? hlead
      · cases hlead
    · obtain ⟨⟨b, o', a⟩, hfind, heq⟩ := Option.map_eq_some_iff.1 h
      cases heq
      rw [List.cons_append, List.cons_append, ih hfind]

theorem isPrefixOf_append_cons {s u : Text} {d : Char} (h : (u ++ [d]).isPrefixOf s = false)
    (t : Text) : s.isPrefixOf (u ++ d :: t) = s.isPrefixOf u := by
  induction u generalizing s with
  | nil =>
    cases s with
    | nil => rfl
    | cons c s =>
      have hne : d ≠ c := by simpa [List.isPrefixOf] using h
      simp [List.isPrefixOf, hne.symm]
  | cons e u ih =>
    cases s with
    | nil => rfl
    | cons c s =>
      by_cases he : e = c
      · subst he
        have hs : (u ++ [d]).isPrefixOf s = false := by simpa [List.isPrefixOf] using h
        simp [List.isPrefixOf, ih hs]
      · have hc : (c == e) = false := by simpa using Ne.symm he
        simp [List.isPrefixOf, hc]

/-- A comparison is not read as a longer symbol when the character behind it continues none. -/
theorem leading?_compare (c : Comparison) {d : Char} (h : d ∉ ['=', '~', '^', 'i', 'n', 'b'])
    (t : Text) : leading? (c.symbol ++ d :: t) = some (.compare c) := by
  have hnext : table.all (fun o => o.symbol.all fun e => !(c.symbol ++ [e]).isPrefixOf o.symbol ||
      ['=', '~', '^', 'i', 'n', 'b'].contains e) = true := by
    cases c <;> decide
  have hsame : leading? (c.symbol ++ d :: t) = leading? c.symbol := by
    refine List.find?_congr fun o ho => isPrefixOf_append_cons ?_ t
    by_contra hd
    rw [Bool.not_eq_false] at hd
    have hmem : d ∈ o.symbol := (List.isPrefixOf_iff_prefix.1 hd).subset (by simp)
    have hd' := List.all_eq_true.1 (List.all_eq_true.1 hnext o ho) d hmem
    rw [hd, Bool.not_true, Bool.false_or, List.contains_iff_mem] at hd'
    exact h hd'
  rw [hsame]
  cases c <;> rfl

theorem leading?_write [Regex.Engine] {t : Test} (h : t.Writable) :
    leading? t.write = some t.operator := by
  cases t with
  | compare c v =>
    by_cases hnull : v = .null
    · subst hnull
      simp only [Test.write, Value.write]
      cases c <;> decide
    · obtain ⟨d, u, hcons, hd⟩ := Value.write_head h hnull
      rw [Test.write, hcons]
      exact leading?_compare c hd u
  | pattern k p => cases k <;> rfl
  | member n vs => cases n <;> rfl
  | between low high => rfl
  | null n => cases n <;> rfl

end Operator

namespace Condition

theorem build_operand [Regex.Engine] {t : Test} (h : t.Writable) (f : Text) :
    build t.operator f t.operand = some (.leaf f t) := by
  cases t with
  | compare c v =>
    obtain ⟨l, hl, hwrite, hvalue⟩ := Literal.exists_of_writable (v := v) h
    have hread := Literal.read_write hl
    rw [hwrite] at hread
    simp [build, Test.operator, Test.operand, Literal.scalar?, hread, hvalue]
  | pattern k p =>
    have hread : Literal.pattern? (Quoted.write p) = some p := by
      have := Literal.read_write (l := .quoted p) trivial
      rw [Literal.write] at this
      simp [Literal.pattern?, this, Literal.content]
    cases k with
    | regex =>
      have haccepts : Regex.Engine.accepts p = true := h
      simp [build, Test.operator, Test.operand, regex?, hread, haccepts]
    | like => simp [build, Test.operator, Test.operand, hread]
    | ilike => simp [build, Test.operator, Test.operand, hread]
  | member n vs => simp [build, Test.operator, Test.operand, Literal.set?_write h]
  | between low high =>
    rw [Test.operator, Test.operand, build, Literal.range?_write h.1 h.2]
    rfl
  | null n => rfl

end Condition

end FilterQuery
