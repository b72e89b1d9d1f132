import FilterQuery.Time.Reader
import FilterQuery.Proofs.Number.Numeral
import FilterQuery.Proofs.Time.Calendar
set_option autoImplicit false

/-!
Instants read back. The RFC 3339 text of an instant in the years 0 to 9999 gives every field of
it, and the fields give the instant; whatever is read is an instant of the clock.
-/

namespace FilterQuery

namespace Timestamp

/-- Less than two seconds of nanoseconds, one second or more only at the end of a minute. -/
def OnClock (t : Timestamp) : Prop :=
  t.nanos < 2000000000 ∧ (1000000000 ≤ t.nanos → t.seconds % 60 = 59)

def InYears (t : Timestamp) : Prop := 0 ≤ t.date.year ∧ t.date.year ≤ 9999

instance (t : Timestamp) : Decidable t.OnClock := by unfold OnClock; infer_instance

instance (t : Timestamp) : Decidable t.InYears := by unfold InYears; infer_instance

def fields (t : Timestamp) : CivilFields :=
  ⟨t.date.year, t.date.month, t.date.day, t.hour, t.minute, t.second, t.nanos % 1000000000⟩

end Timestamp

namespace TimeReader

theorem digits_padded {width n : Nat} (hw : 0 < width) (h : n < 10 ^ width) (t : Text) :
    digits width width (Text.padded width n ++ t) = some (n, t) := by
  have hlen := Text.length_padded hw h
  have htake : (Text.padded width n ++ t).take width = Text.padded width n := by
    exact List.take_left' hlen
  have hrun : (Text.padded width n).takeWhile Text.isDigit = Text.padded width n := by
    have happ : (Text.padded width n ++ []).takeWhile Text.isDigit = _ :=
      List.takeWhile_append_of_pos fun c hc => Text.isDigit_of_mem_padded hc
    simpa using happ
  have hne : Text.padded width n ≠ [] := by
    rw [← List.length_pos_iff, hlen]
    exact hw
  simp only [digits, htake, hrun, hlen, Nat.le_refl, hne, ne_eq, not_false_eq_true, and_self,
    if_true, Text.ofDigitChars_padded, List.drop_left' hlen]

theorem fraction_padded {width n : Nat} (hw : 0 < width) (hw9 : width ≤ 9) (h : n < 10 ^ width)
    {c : Char} (hc : Text.isDigit c = false) (t : Text) :
    fraction ('.' :: Text.padded width n ++ c :: t) = some (n * 10 ^ (9 - width), c :: t) := by
  have hlen := Text.length_padded hw h
  have hrun : (Text.padded width n ++ c :: t).takeWhile Text.isDigit = Text.padded width n := by
    rw [List.takeWhile_append_of_pos (fun d hd => Text.isDigit_of_mem_padded hd)]
    simp [hc]
  have hne : Text.padded width n ≠ [] := by
    rw [← List.length_pos_iff, hlen]
    exact hw
  have hnine : (Text.padded width n).take 9 = Text.padded width n :=
    List.take_of_length_le (by omega)
  simp only [List.cons_append, fraction, hrun, hne, if_false, hnine, Text.ofDigitChars_padded,
    hlen, List.drop_left' hlen]
  rfl

theorem fraction_writeFraction (i : Timestamp) (t : Text) :
    fraction (i.writeFraction ++ 'Z' :: t) = some (i.nanos % 1000000000, 'Z' :: t) := by
  have hlt : i.nanos % 1000000000 < 1000000000 := Nat.mod_lt _ (by decide)
  simp only [Timestamp.writeFraction]
  generalize i.nanos % 1000000000 = n at hlt ⊢
  split
  · subst n
    rfl
  · split
    · rw [fraction_padded (by decide) (by decide) (by omega) (by decide)]
      exact congrArg (fun k => some (k, 'Z' :: t)) (by omega)
    · split
      · rw [fraction_padded (by decide) (by decide) (by omega) (by decide)]
        exact congrArg (fun k => some (k, 'Z' :: t)) (by omega)
      · rw [fraction_padded (by decide) (by decide) (by omega) (by decide)]
        simp

theorem fraction_lt {t rest : Text} {n : Nat} (h : fraction t = some (n, rest)) :
    n < 1000000000 := by
  unfold fraction at h
  split at h
  · rename_i u
    simp only at h
    split at h
    · cases h
    · cases h
      have hlen : ((u.takeWhile Text.isDigit).take 9).length ≤ 9 := List.length_take_le ..
      have hdigits : ∀ c ∈ (u.takeWhile Text.isDigit).take 9, Text.isDigit c = true :=
        fun c hc => List.all_eq_true.1 List.all_takeWhile c (List.mem_of_mem_take hc)
      have hlt := Text.ofDigitChars_lt hdigits 0
      generalize (u.takeWhile Text.isDigit).take 9 = nine at hlen hlt
      rw [Nat.zero_add, Nat.mul_one] at hlt
      calc Nat.ofDigitChars 10 nine 0 * Nat.pow 10 (9 - nine.length)
          < 10 ^ nine.length * 10 ^ (9 - nine.length) :=
            Nat.mul_lt_mul_of_pos_right hlt (Nat.pow_pos (by decide))
        _ = 1000000000 := by rw [← Nat.pow_add, Nat.add_sub_cancel' hlen]
  · cases h
    decide

theorem offset_mod {separator : Text → Option Text} {t rest : Text} {n : Int}
    (h : offset separator t = some (n, rest)) : n % 60 = 0 := by
  unfold offset at h
  split at h
  · cases h
  · split at h
    · cases h
      rfl
    · split at h
      · simp only [Option.bind_eq_bind, Option.bind_eq_some_iff] at h
        obtain ⟨⟨hours, t⟩, -, u, -, ⟨minutes, v⟩, -, h⟩ := h
        simp only at h
        split at h
        · cases h
          split <;> omega
        · cases h
      · cases h

theorem rfc3339_bounds {t rest : Text} {f : CivilFields} {shift : Int}
    (h : rfc3339 t = some (f, shift, rest)) : f.nanos < 1000000000 ∧ shift % 60 = 0 := by
  unfold rfc3339 at h
  -- year, month and day
  obtain ⟨_, -, h⟩ := Option.bind_eq_some_iff.1 h
  obtain ⟨_, -, h⟩ := Option.bind_eq_some_iff.1 h
  obtain ⟨_, -, h⟩ := Option.bind_eq_some_iff.1 h
  obtain ⟨_, -, h⟩ := Option.bind_eq_some_iff.1 h
  obtain ⟨_, -, h⟩ := Option.bind_eq_some_iff.1 h
  simp only at h
  split at h
  · split at h
    · -- the time of day behind its separator
      obtain ⟨_, -, h⟩ := Option.bind_eq_some_iff.1 h
      obtain ⟨_, -, h⟩ := Option.bind_eq_some_iff.1 h
      obtain ⟨_, -, h⟩ := Option.bind_eq_some_iff.1 h
      obtain ⟨_, -, h⟩ := Option.bind_eq_some_iff.1 h
      obtain ⟨_, -, h⟩ := Option.bind_eq_some_iff.1 h
      obtain ⟨_, -, h⟩ := Option.bind_eq_some_iff.1 h
      obtain ⟨⟨nanos, _⟩, hnanos, h⟩ := Option.bind_eq_some_iff.1 h
      obtain ⟨⟨shift, _⟩, hshift, h⟩ := Option.bind_eq_some_iff.1 h
      cases h
      exact ⟨fraction_lt hnanos, offset_mod hshift⟩
    · cases h
  · cases h

/-- What a reader leaves of a text is an end of it, and a digit comes last if that is nothing. -/
def Consumes (t rest : Text) : Prop :=
  rest <:+ t ∧ (rest = [] → ∃ c ∈ t.getLast?, Text.isDigit c = true)

theorem Consumes.behind {t u rest : Text} (hu : u <:+ t) (h : Consumes u rest) :
    Consumes t rest := by
  obtain ⟨hsuffix, hdigit⟩ := h
  refine ⟨hsuffix.trans hu, fun hnil => ?_⟩
  obtain ⟨c, hc, hd⟩ := hdigit hnil
  obtain ⟨v, rfl⟩ := hu
  exact ⟨c, by rw [List.getLast?_append]; exact Option.or_eq_some_iff.2 (.inl hc), hd⟩

theorem consumes_digits {least most n : Nat} {t rest : Text}
    (h : digits least most t = some (n, rest)) : Consumes t rest := by
  simp only [digits] at h
  split at h
  · rename_i hrun
    cases h
    refine ⟨List.drop_suffix .., fun hnil => ?_⟩
    have hprefix : (t.take most).takeWhile Text.isDigit <+: t :=
      (List.takeWhile_prefix _).trans (List.take_prefix ..)
    have hwhole : (t.take most).takeWhile Text.isDigit = t :=
      hprefix.eq_of_length (Nat.le_antisymm hprefix.length_le (List.drop_eq_nil_iff.1 hnil))
    have hall : ((t.take most).takeWhile Text.isDigit).all Text.isDigit = true := List.all_takeWhile
    obtain ⟨-, hne⟩ := hrun
    rw [hwhole] at hall hne
    exact ⟨t.getLast hne, List.getLast?_eq_some_getLast hne,
      List.all_eq_true.1 hall _ (List.getLast_mem hne)⟩
  · cases h

theorem suffix_char {c : Char} {t rest : Text} (h : char c t = some rest) : rest <:+ t := by
  cases t with
  | nil => cases h
  | cons d t =>
    rw [char] at h
    split at h
    · cases h
      exact List.suffix_cons d _
    · cases h

theorem consumes_field {t rest : Text} {n : Nat} (h : field t = some (n, rest)) :
    Consumes t rest :=
  (consumes_digits h).behind (List.dropWhile_suffix Text.isBlank)

theorem suffix_year {t rest : Text} {y : Int} (h : year t = some (y, rest)) : rest <:+ t := by
  have hstart : Text.trimStart t <:+ t := List.dropWhile_suffix Text.isBlank
  unfold year at h
  split at h
  all_goals
    obtain ⟨⟨n, u⟩, hdigits, heq⟩ := Option.map_eq_some_iff.1 h
    cases heq
    have hrest := (consumes_digits hdigits).1
  · rename_i heq
    exact (hrest.trans (List.suffix_cons ..)).trans (heq ▸ hstart)
  · rename_i heq
    exact (hrest.trans (List.suffix_cons ..)).trans (heq ▸ hstart)
  · exact hrest.trans hstart

theorem consumes_date {separator : Char} {t rest : Text} {f : CivilFields}
    (h : date separator id t = some (f, rest)) : Consumes t rest := by
  obtain ⟨⟨y, u⟩, hyear, h⟩ := Option.bind_eq_some_iff.1 h
  obtain ⟨v, hfirst, h⟩ := Option.bind_eq_some_iff.1 h
  obtain ⟨⟨month, w⟩, hmonth, h⟩ := Option.bind_eq_some_iff.1 h
  obtain ⟨x, hsecond, h⟩ := Option.bind_eq_some_iff.1 h
  obtain ⟨⟨day, z⟩, hday, h⟩ := Option.bind_eq_some_iff.1 h
  cases h
  have hmonths : v <:+ t := (suffix_char hfirst).trans (suffix_year hyear)
  have hdays : x <:+ t := ((suffix_char hsecond).trans (consumes_field hmonth).1).trans hmonths
  exact (consumes_field hday).behind hdays

theorem consumes_time {seconds : Bool} {t rest : Text} {f g : CivilFields}
    (h : time seconds id f t = some (g, rest)) : Consumes t rest := by
  obtain ⟨⟨hour, u⟩, hhour, h⟩ := Option.bind_eq_some_iff.1 h
  obtain ⟨v, hfirst, h⟩ := Option.bind_eq_some_iff.1 h
  obtain ⟨⟨minute, w⟩, hminute, h⟩ := Option.bind_eq_some_iff.1 h
  have hminutes : v <:+ t := (suffix_char hfirst).trans (consumes_field hhour).1
  simp only at h
  split at h
  · obtain ⟨x, hsecond, h⟩ := Option.bind_eq_some_iff.1 h
    obtain ⟨⟨second, z⟩, hseconds, h⟩ := Option.bind_eq_some_iff.1 h
    cases h
    have hseconds' : x <:+ t :=
      ((suffix_char hsecond).trans (consumes_field hminute).1).trans hminutes
    exact (consumes_field hseconds).behind hseconds'
  · cases h
    exact (consumes_field hminute).behind hminutes

/-- A form that gives no offset ends in a digit. -/
theorem digit_of_whole {r : Option (CivilFields × Text)} {t : Text} {i : Timestamp}
    (hr : ∀ f rest, r = some (f, rest) → Consumes t rest) (h : whole r = some i) :
    ∃ c ∈ t.getLast?, Text.isDigit c = true := by
  unfold whole at h
  split at h
  · rename_i f
    exact (hr f [] rfl).2 rfl
  · cases h

end TimeReader

namespace Timestamp

theorem time_bounds (t : Timestamp) : t.hour ≤ 23 ∧ t.minute ≤ 59 := by
  simp only [hour, minute, secondOfDay]
  omega

theorem second_le {t : Timestamp} (h : t.OnClock) : t.second ≤ 60 := by
  obtain ⟨hn, hleap⟩ := h
  simp only [second, secondOfDay]
  omega

def behindYear (t : Timestamp) : Text :=
  '-' :: Text.padded 2 t.date.month ++ '-' :: Text.padded 2 t.date.day ++ 'T' :: t.writeTime ++ ['Z']

theorem write_eq (t : Timestamp) : t.write = writeYear t.date.year ++ t.behindYear := by
  simp [write, writeWith, writeDate, behindYear]

theorem rfc3339_behindYear {t : Timestamp} (hc : t.OnClock) {y : Nat} (hy : y < 10000) :
    TimeReader.rfc3339 (Text.padded 4 y ++ t.behindYear) =
      some ({ t.fields with year := y }, 0, []) := by
  obtain ⟨hmonth, hday⟩ := Date.month_ofDays (t.seconds / 86400)
  obtain ⟨hhour, hminute⟩ := t.time_bounds
  have hsecond := second_le hc
  rw [behindYear, writeTime]
  simp only [List.append_assoc, List.cons_append, TimeReader.rfc3339]
  rw [TimeReader.digits_padded (by decide) (by omega)]
  simp only [Option.bind_eq_bind, Option.bind_some, TimeReader.char, if_true]
  rw [TimeReader.digits_padded (by decide) (by simp only [date]; omega)]
  simp only [Option.bind_some, if_true]
  rw [TimeReader.digits_padded (by decide) (by simp only [date]; omega)]
  simp only [Option.bind_some, if_true, true_or]
  rw [TimeReader.digits_padded (by decide) (by omega)]
  simp only [Option.bind_some, if_true]
  rw [TimeReader.digits_padded (by decide) (by omega)]
  simp only [Option.bind_some, if_true]
  rw [TimeReader.digits_padded (by decide) (by omega)]
  simp only [Option.bind_some]
  rw [TimeReader.fraction_writeFraction]
  simp [TimeReader.offset, fields]

theorem rfc3339_write {t : Timestamp} (hy : t.InYears) (hc : t.OnClock) :
    TimeReader.rfc3339 t.write = some (t.fields, 0, []) := by
  have hyear : (t.date.year.toNat : Int) = t.date.year := Int.toNat_of_nonneg hy.1
  have hlt : t.date.year.toNat < 10000 := by
    have := hy.2
    omega
  have hwrite : writeYear t.date.year = Text.padded 4 t.date.year.toNat := if_pos hy
  rw [write_eq, hwrite, rfc3339_behindYear hc hlt, hyear, fields]

theorem ofCivil_fields {t : Timestamp} (hc : t.OnClock) :
    ofCivil t.date t.hour t.minute t.second (t.nanos % 1000000000) = t := by
  obtain ⟨hn, hleap⟩ := hc
  obtain ⟨s, n⟩ := t
  have hsecond : second ⟨s, n⟩ = (s % 86400).toNat % 60 + n / 1000000000 := rfl
  have hhour : hour ⟨s, n⟩ = (s % 86400).toNat / 3600 := rfl
  have hminute : minute ⟨s, n⟩ = (s % 86400).toNat / 60 % 60 := rfl
  have hdays : (date ⟨s, n⟩).toDays = s / 86400 := Date.toDays_ofDays _
  simp only at hn hleap
  by_cases hl : 1000000000 ≤ n
  · have h60 : second ⟨s, n⟩ = 60 := by omega
    simp only [ofCivil, if_pos h60, hdays, hhour, hminute, Timestamp.mk.injEq]
    omega
  · have h60 : ¬second ⟨s, n⟩ = 60 := by omega
    simp only [ofCivil, if_neg h60, hdays, hhour, hminute, Timestamp.mk.injEq]
    omega

theorem instant?_fields {t : Timestamp} (hy : t.InYears) (hc : t.OnClock) :
    t.fields.instant? 0 = some t := by
  obtain ⟨hy0, hy9⟩ := hy
  obtain ⟨hhour, hminute⟩ := t.time_bounds
  have hrange : Date.yearInRange t.date.year = true := by
    simp only [Date.yearInRange, Bool.and_eq_true, decide_eq_true_eq]
    omega
  have hvalid : t.date.isValid = true := Date.isValid_ofDays hrange
  have hcivil : ofCivil ⟨t.fields.year, t.fields.month, t.fields.day⟩ t.fields.hour t.fields.minute
      t.fields.second t.fields.nanos = t := ofCivil_fields hc
  have hfields : (⟨t.fields.year, t.fields.month, t.fields.day⟩ : Date).isValid = true ∧
      t.fields.hour ≤ 23 ∧ t.fields.minute ≤ 59 ∧ t.fields.second ≤ 60 ∧
        (-86400 : Int) < 0 ∧ (0 : Int) < 86400 :=
    ⟨hvalid, hhour, hminute, second_le hc, by decide, by decide⟩
  simp only [CivilFields.instant?, if_pos hfields, hcivil, Int.sub_zero, if_pos hrange]

theorem onClock_of_instant? {f : CivilFields} {shift : Int} {i : Timestamp}
    (hn : f.nanos < 1000000000) (hs : shift % 60 = 0) (h : f.instant? shift = some i) :
    i.OnClock := by
  simp only [CivilFields.instant?] at h
  split at h
  · rename_i hfields
    obtain ⟨-, -, -, hsecond, -⟩ := hfields
    split at h
    · cases h
      unfold OnClock ofCivil
      by_cases hleap : f.second = 60
      · simp only [if_pos hleap]
        omega
      · simp only [if_neg hleap]
        omega
    · cases h
  · cases h

theorem nanos_of_date {c : Char} {skip : Text → Text} {t rest : Text} {f : CivilFields}
    (h : TimeReader.date c skip t = some (f, rest)) : f.nanos = 0 := by
  simp only [TimeReader.date, Option.bind_eq_bind, Option.bind_eq_some_iff] at h
  obtain ⟨_, -, _, -, _, -, _, -, _, -, h⟩ := h
  cases h
  rfl

theorem nanos_of_time {seconds : Bool} {skip : Text → Text} {t rest : Text} {f g : CivilFields}
    (h : TimeReader.time seconds skip f t = some (g, rest)) : g.nanos = f.nanos := by
  simp only [TimeReader.time, Option.bind_eq_bind, Option.bind_eq_some_iff] at h
  obtain ⟨_, -, _, -, _, -, h⟩ := h
  split at h
  · simp only [Option.bind_eq_some_iff] at h
    obtain ⟨_, -, _, -, h⟩ := h
    cases h
    rfl
  · cases h
    rfl

theorem onClock_of_whole {r : Option (CivilFields × Text)} {i : Timestamp}
    (hr : ∀ f rest, r = some (f, rest) → f.nanos = 0) (h : TimeReader.whole r = some i) :
    i.OnClock := by
  unfold TimeReader.whole at h
  split at h
  · rename_i f
    exact onClock_of_instant? (by rw [hr f [] rfl]; decide) rfl h
  · cases h

theorem onClock_of_read {t : Text} {i : Timestamp} (h : read t = some i) : i.OnClock := by
  have hdate : ∀ c, TimeReader.dateOnly c t = some i → i.OnClock := fun c =>
    onClock_of_whole fun f rest hf => nanos_of_date hf
  have hspaced : ∀ seconds, TimeReader.spaced seconds t = some i → i.OnClock := by
    refine fun seconds => onClock_of_whole fun f rest hf => ?_
    simp only [Option.bind_eq_bind, Option.bind_eq_some_iff] at hf
    obtain ⟨⟨g, u⟩, hg, hf⟩ := hf
    rw [nanos_of_time hf, nanos_of_date hg]
  simp only [read, Option.or_eq_some_iff] at h
  rcases h with h | ⟨-, h | ⟨-, h | ⟨-, h | ⟨-, h | ⟨-, h⟩⟩⟩⟩⟩
  · unfold readStrict at h
    split at h
    · rename_i f shift hread
      obtain ⟨hnanos, hshift⟩ := TimeReader.rfc3339_bounds hread
      split at h
      · exact onClock_of_instant? hnanos hshift h
      · cases h
    · cases h
  · exact hspaced true h
  · refine onClock_of_whole (fun f rest hf => ?_) h
    simp only [Option.bind_eq_bind, Option.bind_eq_some_iff] at hf
    obtain ⟨⟨g, u⟩, hg, v, -, hf⟩ := hf
    rw [nanos_of_time hf, nanos_of_date hg]
  · exact hspaced false h
  · exact hdate '-' h
  · exact hdate '/' h

theorem read_write {t : Timestamp} (hy : t.InYears) (hc : t.OnClock) : read t.write = some t := by
  have hstrict : readStrict t.write = some t := by
    simp [readStrict, rfc3339_write hy hc, instant?_fields hy hc]
  simp [read, hstrict]

theorem read_of_last {t : Text} (h : ∀ c ∈ t.getLast?, Text.isDigit c = false) :
    read t = readStrict t := by
  have hnone : ∀ r : Option Timestamp,
      (∀ i, r = some i → ∃ c ∈ t.getLast?, Text.isDigit c = true) → r = none := by
    intro r hr
    cases r with
    | none => rfl
    | some i =>
      obtain ⟨c, hc, hd⟩ := hr i rfl
      rw [h c hc] at hd
      cases hd
  have hspaced : ∀ seconds, TimeReader.spaced seconds t = none := by
    refine fun seconds => hnone _ fun i => TimeReader.digit_of_whole fun f rest hf => ?_
    obtain ⟨⟨g, u⟩, hdate, hf⟩ := Option.bind_eq_some_iff.1 hf
    have hstart : Text.trimStart u <:+ u := List.dropWhile_suffix Text.isBlank
    exact (TimeReader.consumes_time hf).behind (hstart.trans (TimeReader.consumes_date hdate).1)
  have hjoined : TimeReader.joined t = none := by
    refine hnone _ fun i => TimeReader.digit_of_whole fun f rest hf => ?_
    obtain ⟨⟨g, u⟩, hdate, hf⟩ := Option.bind_eq_some_iff.1 hf
    obtain ⟨v, hmark, hf⟩ := Option.bind_eq_some_iff.1 hf
    have hbehind : v <:+ t := (TimeReader.suffix_char hmark).trans (TimeReader.consumes_date hdate).1
    exact (TimeReader.consumes_time hf).behind hbehind
  have hdate : ∀ c, TimeReader.dateOnly c t = none := fun c =>
    hnone _ fun i => TimeReader.digit_of_whole fun f rest => TimeReader.consumes_date
  simp [read, hspaced, hjoined, hdate]

theorem read_write_of_not_inYears {t : Timestamp} (h : ¬t.InYears) : read t.write = none := by
  have hlast : t.write.getLast? = some 'Z' := List.getLast?_concat
  rw [read_of_last (by rw [hlast]; simpa using show Text.isDigit 'Z' = false by decide)]
  have hyear : TimeReader.digits 4 4 t.write = none := by
    have hsigned : ¬(0 ≤ t.date.year ∧ t.date.year ≤ 9999) := h
    rw [write, writeWith, writeDate, writeYear, if_neg hsigned]
    split <;> rfl
  rw [readStrict, TimeReader.rfc3339, hyear]
  rfl

theorem eq_of_behindYear {t u : Timestamp} (ht : t.OnClock) (hu : u.OnClock)
    (hyear : t.date.year = u.date.year) (h : t.behindYear = u.behindYear) : t = u := by
  -- Any four digits in front of it make it a text whose fields are read.
  have hread := (rfc3339_behindYear ht (y := 0) (by decide)).symm.trans
    (h ▸ rfc3339_behindYear hu (y := 0) (by decide))
  simp only [fields, Option.some.injEq, Prod.mk.injEq, CivilFields.mk.injEq] at hread
  obtain ⟨⟨-, hmonth, hday, hhour, hminute, hsecond, hnanos⟩, -⟩ := hread
  have hdate : t.date = u.date := by
    cases ht : t.date
    cases hu : u.date
    simp_all
  rw [← ofCivil_fields ht, ← ofCivil_fields hu, hdate, hhour, hminute, hsecond, hnanos]

theorem write_injective {t u : Timestamp} (ht : t.OnClock) (hu : u.OnClock)
    (h : t.write = u.write) : t = u := by
  have hread : read t.write = read u.write := congrArg read h
  by_cases hty : t.InYears <;> by_cases huy : u.InYears
  · rw [read_write hty ht, read_write huy hu] at hread
    exact Option.some.inj hread
  · rw [read_write hty ht, read_write_of_not_inYears huy] at hread
    cases hread
  · rw [read_write_of_not_inYears hty, read_write huy hu] at hread
    cases hread
  · have hrun (n : Nat) (rest : Text) :
        (Text.padded 4 n ++ '-' :: rest).takeWhile Text.isDigit = Text.padded 4 n := by
      rw [List.takeWhile_append_of_pos fun c hc => Text.isDigit_of_mem_padded hc]
      exact List.append_nil _
    have hwrite {i : Timestamp} (hi : ¬i.InYears) :
        writeYear i.date.year =
          (if i.date.year < 0 then '-' else '+') :: Text.padded 4 i.date.year.natAbs := if_neg hi
    rw [write_eq, write_eq, hwrite hty, hwrite huy, List.cons_append, List.cons_append,
      List.cons.injEq] at h
    obtain ⟨hsign, h⟩ := h
    have hdigits : Text.padded 4 t.date.year.natAbs = Text.padded 4 u.date.year.natAbs :=
      (hrun ..).symm.trans ((congrArg (List.takeWhile Text.isDigit) h).trans (hrun ..))
    have habs := congrArg (Nat.ofDigitChars 10 · 0) hdigits
    simp only [Text.ofDigitChars_padded] at habs
    refine eq_of_behindYear ht hu ?_ (List.append_cancel_left (hdigits ▸ h))
    split at hsign <;> split at hsign
    · omega
    · cases hsign
    · cases hsign
    · omega

end Timestamp

end FilterQuery
