import FilterQuery.Cache
import Mathlib.Data.List.Induction
import Mathlib.Data.List.Nodup
set_option autoImplicit false

/-!
A cache after any operations at times that do not go back. Its entries stand in the order of their
times, so the expired ones are at the front, where a purge looks for them, and the first entry is
the oldest. Each entry is the last one that was put in under its key.
-/

namespace FilterQuery.Cache

variable {α : Type}

inductive Operation (α : Type) where
  | insert (key : Text) (value : α)
  | get (key : Text)
  | remove (key : Text)
  | clear
  | purge

/-- Whether an operation ends what was put in under a key before: it puts in anew, removes or
clears. -/
def Operation.displaces (key : Text) : Operation α → Prop
  | insert k _ => k = key
  | get _ => False
  | remove k => k = key
  | clear => True
  | purge => False

def perform (now : Nat) (c : Cache α) : Operation α → Cache α
  | .insert k v => c.insert now k v
  | .get k => (c.get now k).2
  | .remove k => (c.remove k).2
  | .clear => c.clear
  | .purge => c.purge now

abbrev History (α : Type) := List (Nat × Operation α)

def after (c : Cache α) (h : History α) : Cache α := h.foldl (fun c x => c.perform x.1 x.2) c

theorem after_concat (c : Cache α) (h : History α) (x : Nat × Operation α) :
    c.after (h ++ [x]) = (c.after h).perform x.1 x.2 := by
  rw [after, List.foldl_append]
  rfl

/-! What an operation does to the entries. -/

theorem isExpired_eq_false_iff (c : Cache α) (now : Nat) (e : CacheEntry α) :
    c.isExpired now e = false ↔ now - e.inserted < c.ttl := by
  simp [isExpired]

theorem mem_of_find? {c : Cache α} {key : Text} {e : CacheEntry α} (h : c.find? key = some e) :
    e ∈ c.entries ∧ e.key = key := by
  rw [find?] at h
  exact ⟨List.mem_of_find?_eq_some h, by simpa using List.find?_some h⟩

theorem isSome_find?_iff (c : Cache α) (key : Text) :
    (c.find? key).isSome ↔ key ∈ c.entries.map CacheEntry.key := by
  simp [find?]

/-- The key is found unexpired, or it is not found, or what is found has expired and goes. -/
theorem get_cases (now : Nat) (key : Text) (c : Cache α) :
    (∃ e, c.find? key = some e ∧ now - e.inserted < c.ttl ∧ c.get now key = (some e.value, c)) ∨
      (c.find? key = none ∧ c.get now key = (none, c)) ∨
      ∃ e, c.find? key = some e ∧ ¬ now - e.inserted < c.ttl ∧
        c.get now key = (none, c.without key) := by
  rw [get]
  cases hfind : c.find? key with
  | none => exact .inr (.inl ⟨rfl, rfl⟩)
  | some e =>
    cases hexp : c.isExpired now e with
    | false => exact .inl ⟨e, rfl, (c.isExpired_eq_false_iff now e).1 hexp, by simp [hexp]⟩
    | true =>
      refine .inr (.inr ⟨e, rfl, fun h => ?_, by simp [hexp]⟩)
      rw [(c.isExpired_eq_false_iff now e).2 h] at hexp
      cases hexp

theorem mem_of_get {now : Nat} {key : Text} {value : α} {c : Cache α}
    (h : (c.get now key).1 = some value) :
    ∃ t, ⟨key, value, t⟩ ∈ c.entries ∧ now - t < c.ttl := by
  rcases get_cases now key c with ⟨e, hfind, hlive, heq⟩ | ⟨-, heq⟩ | ⟨e, -, -, heq⟩ <;>
    rw [heq] at h
  case inl =>
    obtain ⟨hmem, rfl⟩ := mem_of_find? hfind
    cases h
    exact ⟨e.inserted, hmem, hlive⟩
  all_goals cases h

theorem purge_sublist (now : Nat) (c : Cache α) : (c.purge now).entries.Sublist c.entries :=
  (List.dropWhile_suffix _).sublist

theorem advance_sublist (before now : Nat) (c : Cache α) :
    (c.advance before now).entries.Sublist c.entries := by
  rw [advance]
  split
  · exact .refl _
  · split
    · exact purge_sublist now c
    · split
      · exact purge_sublist _ c
      · exact .refl _

theorem without_sublist (key : Text) (c : Cache α) : (c.without key).entries.Sublist c.entries :=
  List.filter_sublist

theorem mem_without_iff {key : Text} {c : Cache α} {e : CacheEntry α} :
    e ∈ (c.without key).entries ↔ e ∈ c.entries ∧ e.key ≠ key := by
  simp [without]

theorem get_sublist (now : Nat) (key : Text) (c : Cache α) :
    (c.get now key).2.entries.Sublist c.entries := by
  rcases get_cases now key c with ⟨e, -, -, h⟩ | ⟨-, h⟩ | ⟨e, -, -, h⟩ <;> rw [h]
  case inr.inr => exact without_sublist key c

theorem roomy_sublist (now : Nat) (c : Cache α) : (c.roomy now).Sublist c.entries := by
  rw [roomy]
  split
  · exact .refl _
  · dsimp only
    split
    · exact purge_sublist now c
    · exact (List.drop_sublist 1 _).trans (purge_sublist now c)

def kept (now : Nat) (key : Text) (c : Cache α) : List (CacheEntry α) :=
  if (c.find? key).isSome then (c.without key).entries else c.roomy now

theorem entries_insert {c : Cache α} (hpos : 0 < c.capacity) (now : Nat) (key : Text) (value : α) :
    (c.insert now key value).entries = c.kept now key ++ [⟨key, value, now⟩] := by
  rw [insert, if_neg (by omega)]
  rfl

theorem insert_of_capacity_zero {c : Cache α} (h : c.capacity = 0) (now : Nat) (key : Text)
    (value : α) : c.insert now key value = c :=
  if_pos h

theorem kept_sublist (now : Nat) (key : Text) (c : Cache α) :
    (c.kept now key).Sublist c.entries := by
  rw [kept]
  split
  · exact without_sublist key c
  · exact roomy_sublist now c

theorem key_ne_of_mem_kept {now : Nat} {key : Text} {c : Cache α} {e : CacheEntry α}
    (h : e ∈ c.kept now key) : e.key ≠ key := by
  rw [kept] at h
  split at h
  · exact (mem_without_iff.1 h).2
  · rename_i hnew
    rintro rfl
    exact hnew ((isSome_find?_iff c e.key).2
      (List.mem_map_of_mem ((roomy_sublist now c).subset h)))

theorem length_without_lt {key : Text} {c : Cache α} (h : (c.find? key).isSome) :
    (c.without key).entries.length < c.entries.length := by
  obtain ⟨e, he, rfl⟩ := List.mem_map.1 ((isSome_find?_iff c key).1 h)
  exact List.length_filter_lt_length_iff_exists.2 ⟨e, he, by simp⟩

theorem length_roomy_lt {now : Nat} {c : Cache α} (hpos : 0 < c.capacity)
    (hle : c.entries.length ≤ c.capacity) : (c.roomy now).length < c.capacity := by
  have hpurge := (purge_sublist now c).length_le
  rw [roomy]
  split
  · assumption
  · dsimp only
    split
    · assumption
    · rw [List.length_drop]
      omega

theorem length_kept_lt {now : Nat} {key : Text} {c : Cache α} (hpos : 0 < c.capacity)
    (hle : c.entries.length ≤ c.capacity) : (c.kept now key).length < c.capacity := by
  rw [kept]
  split
  · rename_i h
    exact Nat.lt_of_lt_of_le (length_without_lt h) hle
  · exact length_roomy_lt hpos hle

theorem mem_insert {now : Nat} {key : Text} {value : α} {c : Cache α} {e : CacheEntry α}
    (h : e ∈ (c.insert now key value).entries) : e ∈ c.entries ∨ e = ⟨key, value, now⟩ := by
  rcases Nat.eq_zero_or_pos c.capacity with hzero | hpos
  · rw [insert_of_capacity_zero hzero] at h
    exact .inl h
  · rw [entries_insert hpos, List.mem_append, List.mem_singleton] at h
    exact h.imp_left ((kept_sublist now key c).subset ·)

/-- What an operation leaves: some of the entries in their order, none of which it displaces, and
behind them the entry that it puts in, if it is an insertion. There is room for all. -/
structure Leaves (now : Nat) (c : Cache α) (op : Operation α)
    (stay new : List (CacheEntry α)) : Prop where
  entries : (c.perform now op).entries = stay ++ new
  sublist : stay.Sublist c.entries
  undisplaced : ∀ e ∈ stay, ¬ op.displaces e.key
  bounded : (stay ++ new).length ≤ c.capacity
  fresh : new = [] ∨ ∃ k v, op = .insert k v ∧ new = [⟨k, v, now⟩]

theorem Leaves.of_sublist {now : Nat} {c : Cache α} {op : Operation α} {stay : List (CacheEntry α)}
    (hle : c.entries.length ≤ c.capacity) (hsub : stay.Sublist c.entries)
    (hdisp : ∀ e ∈ stay, ¬ op.displaces e.key) (heq : (c.perform now op).entries = stay) :
    Leaves now c op stay [] where
  entries := by rw [heq, List.append_nil]
  sublist := hsub
  undisplaced := hdisp
  bounded := by
    rw [List.append_nil]
    exact Nat.le_trans hsub.length_le hle
  fresh := .inl rfl

theorem exists_leaves (now : Nat) {c : Cache α} (hle : c.entries.length ≤ c.capacity)
    (op : Operation α) : ∃ stay new, Leaves now c op stay new := by
  cases op with
  | insert k v =>
    rcases Nat.eq_zero_or_pos c.capacity with hzero | hpos
    · have hnil : c.entries = [] := List.length_eq_zero_iff.1 (by omega)
      refine ⟨[], [], .of_sublist hle (List.nil_sublist _) (by simp) ?_⟩
      rw [perform, insert_of_capacity_zero hzero, hnil]
    · refine ⟨c.kept now k, [⟨k, v, now⟩], entries_insert hpos now k v, kept_sublist now k c,
        fun e he hkey => key_ne_of_mem_kept he hkey.symm, ?_, .inr ⟨k, v, rfl, rfl⟩⟩
      rw [List.length_append]
      exact length_kept_lt hpos hle
  | get k => exact ⟨_, [], .of_sublist hle (get_sublist now k c) (fun _ _ => id) rfl⟩
  | remove k =>
    exact ⟨_, [], .of_sublist hle (without_sublist k c)
      (fun e he hkey => (mem_without_iff.1 he).2 hkey.symm) rfl⟩
  | clear => exact ⟨[], [], .of_sublist hle (List.nil_sublist _) (by simp) rfl⟩
  | purge => exact ⟨_, [], .of_sublist hle (purge_sublist now c) (fun _ _ => id) rfl⟩

theorem perform_eq (now : Nat) (c : Cache α) (op : Operation α) :
    c.perform now op = { c with entries := (c.perform now op).entries } := by
  cases op with
  | insert k v =>
    rw [perform, insert]
    split <;> rfl
  | get k =>
    rcases get_cases now k c with ⟨e, -, -, h⟩ | ⟨-, h⟩ | ⟨e, -, -, h⟩ <;> rw [perform, h]
    rfl
  | remove k => rfl
  | clear => rfl
  | purge => rfl

/-! What a history leaves. -/

/-- An entry is the last that a history puts in under its key, and the key has been neither
removed nor cleared since. -/
def Stands (h : History α) (e : CacheEntry α) : Prop :=
  ∃ past since, h = past ++ (e.inserted, .insert e.key e.value) :: since ∧
    ∀ x ∈ since, ¬ x.2.displaces e.key

theorem Stands.concat {h : History α} {e : CacheEntry α} (hs : Stands h e) {x : Nat × Operation α}
    (hx : ¬ x.2.displaces e.key) : Stands (h ++ [x]) e := by
  obtain ⟨past, since, rfl, hsince⟩ := hs
  refine ⟨past, since ++ [x], by simp, ?_⟩
  exact List.forall_mem_append.2 ⟨hsince, by simpa using hx⟩

theorem Stands.of_insert (h : History α) (now : Nat) (key : Text) (value : α) :
    Stands (h ++ [(now, .insert key value)]) ⟨key, value, now⟩ :=
  ⟨h, [], rfl, by simp⟩

/-- What every history leaves of a cache at the time of its last operation. -/
structure Consistent (h : History α) (now : Nat) (c : Cache α) : Prop where
  bounded : c.entries.length ≤ c.capacity
  distinct : (c.entries.map CacheEntry.key).Nodup
  ordered : c.entries.Pairwise fun a b => a.inserted ≤ b.inserted
  past : ∀ e ∈ c.entries, e.inserted ≤ now
  stands : ∀ e ∈ c.entries, Stands h e

theorem consistent_empty (capacity ttl reapInterval : Nat) :
    Consistent [] 0 (empty capacity ttl reapInterval : Cache α) where
  bounded := Nat.zero_le _
  distinct := List.nodup_nil
  ordered := .nil
  past := by simp [empty]
  stands := by simp [empty]

theorem Consistent.step {h : History α} {before now : Nat} {c : Cache α}
    (hc : Consistent h before c) (htime : before ≤ now) (op : Operation α) :
    Consistent (h ++ [(now, op)]) now (c.perform now op) := by
  obtain ⟨stay, new, hleaves⟩ := exists_leaves now hc.bounded op
  have hpast : ∀ e ∈ stay, e.inserted ≤ now :=
    fun e he => Nat.le_trans (hc.past e (hleaves.sublist.subset he)) htime
  have hstands : ∀ e ∈ stay, Stands (h ++ [(now, op)]) e := fun e he =>
    (hc.stands e (hleaves.sublist.subset he)).concat (hleaves.undisplaced e he)
  have hdistinct : (stay.map CacheEntry.key).Nodup :=
    hc.distinct.sublist (hleaves.sublist.map _)
  have hordered := hc.ordered.sublist hleaves.sublist
  have hcapacity : (c.perform now op).capacity = c.capacity := by rw [perform_eq]
  constructor
  case bounded =>
    rw [hleaves.entries, hcapacity]
    exact hleaves.bounded
  -- What has been put in, if anything, is behind all that stays.
  all_goals
    rw [hleaves.entries]
    rcases hleaves.fresh with rfl | ⟨k, v, rfl, rfl⟩
  case distinct.inl => simpa using hdistinct
  case distinct.inr =>
    rw [List.map_append, List.nodup_append]
    refine ⟨hdistinct, by simp, ?_⟩
    rintro key hkey _ hk rfl
    obtain ⟨e, he, rfl⟩ := List.mem_map.1 hkey
    have hsame : e.key = k := by simpa using hk
    exact hleaves.undisplaced e he hsame.symm
  case ordered.inl => simpa using hordered
  case ordered.inr =>
    exact List.pairwise_append.2 ⟨hordered, by simp, by simpa using hpast⟩
  case past.inl => simpa using hpast
  case past.inr => simpa [or_imp, forall_and] using hpast
  case stands.inl => simpa using hstands
  case stands.inr =>
    exact List.forall_mem_append.2 ⟨hstands, by simpa using Stands.of_insert h now k v⟩

/-- The times of a history do not go back, and none is later than `now`. -/
def UpTo (h : History α) (now : Nat) : Prop :=
  (h.map Prod.fst).Pairwise (· ≤ ·) ∧ ∀ x ∈ h, x.1 ≤ now

theorem after_eq (c : Cache α) (h : History α) :
    c.after h = { c with entries := (c.after h).entries } := by
  induction h using List.reverseRecOn with
  | nil => rfl
  | append_singleton h x ih =>
    rw [after_concat, perform_eq]
    generalize ((c.after h).perform x.1 x.2).entries = entries
    rw [ih]

theorem Consistent.later {h : History α} {before now : Nat} {c : Cache α}
    (hc : Consistent h before c) (htime : before ≤ now) : Consistent h now c :=
  { hc with past := fun e he => Nat.le_trans (hc.past e he) htime }

theorem consistent_after (capacity ttl reapInterval : Nat) {h : History α} {now : Nat}
    (htime : UpTo h now) :
    Consistent h now ((empty capacity ttl reapInterval : Cache α).after h) := by
  induction h using List.reverseRecOn generalizing now with
  | nil => exact (consistent_empty capacity ttl reapInterval).later (Nat.zero_le now)
  | append_singleton h x ih =>
    obtain ⟨hordered, hnow⟩ := htime
    rw [List.map_append, List.pairwise_append] at hordered
    obtain ⟨hinit, -, hlast⟩ := hordered
    have hbefore : UpTo h x.1 := by
      refine ⟨hinit, fun y hy => hlast _ (List.mem_map_of_mem hy) _ (by simp)⟩
    rw [after_concat]
    exact ((ih hbefore).step (Nat.le_refl _) x.2).later (hnow x (by simp))

/-! Expiry. -/

theorem dropWhile_isExpired (c : Cache α) (now : Nat) {es : List (CacheEntry α)}
    (hes : es.Pairwise fun a b => a.inserted ≤ b.inserted) :
    es.dropWhile (c.isExpired now) = es.filter fun e => now - e.inserted < c.ttl := by
  induction hes with
  | nil => rfl
  | @cons e es hfirst _ ih =>
    by_cases hlive : now - e.inserted < c.ttl
    · have hrest : ∀ a ∈ es, now - a.inserted < c.ttl := fun a ha => by
        have := hfirst a ha
        omega
      rw [List.dropWhile_cons_of_neg (by simpa [isExpired] using hlive),
        List.filter_cons_of_pos (by simpa using hlive), List.filter_eq_self.2 (by simpa using hrest)]
    · rw [List.dropWhile_cons_of_pos (by simpa [isExpired] using hlive),
        List.filter_cons_of_neg (by simpa using hlive), ih]

theorem purge_eq_filter {c : Cache α} (h : c.entries.Pairwise fun a b => a.inserted ≤ b.inserted)
    (now : Nat) :
    (c.purge now).entries = c.entries.filter fun e => now - e.inserted < c.ttl :=
  c.dropWhile_isExpired now h

theorem mem_purge_iff {c : Cache α} (h : c.entries.Pairwise fun a b => a.inserted ≤ b.inserted)
    {now : Nat} {e : CacheEntry α} :
    e ∈ (c.purge now).entries ↔ e ∈ c.entries ∧ now - e.inserted < c.ttl := by
  rw [purge_eq_filter h, List.mem_filter, decide_eq_true_eq]

theorem purgeCount_eq_countP {c : Cache α}
    (h : c.entries.Pairwise fun a b => a.inserted ≤ b.inserted) (now : Nat) :
    c.purgeCount now = c.entries.countP fun e => c.ttl ≤ now - e.inserted := by
  have hsplit := List.length_eq_countP_add_countP (fun e : CacheEntry α => now - e.inserted < c.ttl)
    (l := c.entries)
  rw [purgeCount, purge_eq_filter h, ← List.countP_eq_length_filter]
  simp only [Nat.not_lt, decide_eq_true_eq] at hsplit
  omega

theorem Consistent.eq_of_key_eq {h : History α} {now : Nat} {c : Cache α}
    (hc : Consistent h now c) {a b : CacheEntry α} (ha : a ∈ c.entries) (hb : b ∈ c.entries)
    (hkey : a.key = b.key) : a = b :=
  List.inj_on_of_nodup_map hc.distinct ha hb hkey

theorem Consistent.get_of_mem {h : History α} {before now : Nat} {c : Cache α}
    (hc : Consistent h before c) {e : CacheEntry α} (he : e ∈ c.entries)
    (hlive : now - e.inserted < c.ttl) : (c.get now e.key).1 = some e.value := by
  have hsame : ∀ a, c.find? e.key = some a → a = e := fun a hfind =>
    hc.eq_of_key_eq (mem_of_find? hfind).1 he (mem_of_find? hfind).2
  rcases get_cases now e.key c with ⟨a, hfind, -, heq⟩ | ⟨hfind, -⟩ | ⟨a, hfind, hdead, -⟩
  · rw [heq, hsame a hfind]
  · have hsome := (isSome_find?_iff c e.key).2 (List.mem_map_of_mem he)
    rw [hfind] at hsome
    cases hsome
  · rw [hsame a hfind] at hdead
    exact absurd hlive hdead

/-- An insertion under a new key into a cache that a purge leaves full puts the new entry in the
place of one that is older than all that stay, and no other goes. -/
def Evicts (now : Nat) (c : Cache α) (op : Operation α) (e : CacheEntry α) : Prop :=
  ∃ k v rest, op = .insert k v ∧ k ∉ c.entries.map CacheEntry.key ∧
    (c.purge now).entries.length = c.capacity ∧ (c.purge now).entries = e :: rest ∧
    (c.perform now op).entries = rest ++ [⟨k, v, now⟩]

/-- An entry that a purge leaves gives way only if it is then the first of a full cache. -/
theorem roomy_of_not_mem {now : Nat} {c : Cache α} {e : CacheEntry α}
    (hle : c.entries.length ≤ c.capacity) (he : e ∈ (c.purge now).entries)
    (hlost : e ∉ c.roomy now) :
    (c.purge now).entries.length = c.capacity ∧ (c.purge now).entries = e :: c.roomy now := by
  have hpurge := purge_sublist now c
  rw [roomy] at hlost ⊢
  split at hlost
  · exact absurd (hpurge.subset he) hlost
  dsimp only at hlost ⊢
  split at hlost
  · exact absurd he hlost
  rename_i hfull hstill
  rw [if_neg hfull, if_neg hstill]
  have hlength := hpurge.length_le
  refine ⟨by omega, ?_⟩
  cases hentries : (c.purge now).entries with
  | nil => rw [hentries] at he; cases he
  | cons a rest =>
    rw [hentries] at he hlost
    rw [List.drop_one, List.tail_cons] at hlost ⊢
    rw [(List.mem_cons.1 he).resolve_right hlost]

/-- An unexpired entry goes only if it is displaced or evicted. -/
theorem Consistent.displaces_or_evicts {h : History α} {before now : Nat} {c : Cache α}
    (hc : Consistent h before c) {op : Operation α} {e : CacheEntry α} (he : e ∈ c.entries)
    (hlive : now - e.inserted < c.ttl) (hlost : e ∉ (c.perform now op).entries) :
    op.displaces e.key ∨ Evicts now c op e := by
  have hpurged : e ∈ (c.purge now).entries := (mem_purge_iff hc.ordered).2 ⟨he, hlive⟩
  cases op with
  | insert k v =>
    have hpos : 0 < c.capacity := Nat.lt_of_lt_of_le (List.length_pos_of_mem he) hc.bounded
    have hkept : e ∉ c.kept now k := fun hmem => hlost <| by
      rw [perform, entries_insert hpos]
      exact List.mem_append_left _ hmem
    by_cases hkey : e.key = k
    · exact .inl hkey.symm
    by_cases hnew : (c.find? k).isSome
    · rw [kept, if_pos hnew] at hkept
      exact absurd (mem_without_iff.2 ⟨he, hkey⟩) hkept
    · have hroomy : c.kept now k = c.roomy now := if_neg hnew
      rw [hroomy] at hkept
      obtain ⟨hfull, hentries⟩ := roomy_of_not_mem hc.bounded hpurged hkept
      refine .inr ⟨k, v, c.roomy now, rfl, fun hmem => hnew ((isSome_find?_iff c k).2 hmem), hfull,
        hentries, ?_⟩
      rw [perform, entries_insert hpos, hroomy]
  | get k =>
    rcases get_cases now k c with ⟨a, -, -, heq⟩ | ⟨-, heq⟩ | ⟨a, hfind, hdead, heq⟩ <;>
      rw [perform, heq] at hlost
    case inr.inr =>
      -- Only an expired entry goes, and it is the only one with its key.
      obtain ⟨ha, rfl⟩ := mem_of_find? hfind
      have hkey : e.key = a.key := by_contra fun hne => hlost (mem_without_iff.2 ⟨he, hne⟩)
      rw [hc.eq_of_key_eq he ha hkey] at hlive
      exact absurd hlive hdead
    all_goals exact absurd he hlost
  | remove k =>
    have hkey : e.key = k := by_contra fun hne => hlost (mem_without_iff.2 ⟨he, hne⟩)
    exact .inl hkey.symm
  | clear => exact .inl trivial
  | purge => exact absurd hpurged hlost

/-- After every history there are no more entries than there is room, each with a key of its own,
in the order of their times, so that a purge drops the expired entries and counts them. What is
found under a key is what was last put in there and stands unexpired; what has just been put in and
what has not expired is found. An unexpired entry goes only if it is replaced, removed or cleared,
or else evicted. -/
theorem invariants_after (capacity ttl reapInterval : Nat) {h : History α} {now : Nat}
    (htime : UpTo h now) :
    let c := (empty capacity ttl reapInterval : Cache α).after h
    (c.entries.length ≤ capacity ∧ (c.entries.map CacheEntry.key).Nodup) ∧
      ((c.entries.map CacheEntry.inserted).Pairwise (· ≤ ·) ∧
        (c.purge now).entries = c.entries.filter (fun e => now - e.inserted < ttl) ∧
        c.purgeCount now = c.entries.countP fun e => ttl ≤ now - e.inserted) ∧
      (∀ k v, (c.get now k).1 = some v → ∃ t, Stands h ⟨k, v, t⟩ ∧ now - t < ttl) ∧
      (∀ e ∈ c.entries, now - e.inserted < ttl → (c.get now e.key).1 = some e.value) ∧
      (∀ k v, 0 < capacity → ⟨k, v, now⟩ ∈ (c.insert now k v).entries) ∧
      ∀ op, ∀ e ∈ c.entries, now - e.inserted < ttl → e ∉ (c.perform now op).entries →
        op.displaces e.key ∨ Evicts now c op e := by
  intro c
  have hc : Consistent h now c := consistent_after capacity ttl reapInterval htime
  have hcapacity : c.capacity = capacity := congrArg Cache.capacity (after_eq _ h)
  have httl : c.ttl = ttl := congrArg Cache.ttl (after_eq _ h)
  rw [← hcapacity, ← httl]
  refine ⟨⟨hc.bounded, hc.distinct⟩, ⟨List.pairwise_map.2 hc.ordered,
    purge_eq_filter hc.ordered now, purgeCount_eq_countP hc.ordered now⟩, fun k v hget => ?_,
    fun e he hlive => hc.get_of_mem he hlive, fun k v hpos => ?_,
    fun op e he hlive hlost => hc.displaces_or_evicts he hlive hlost⟩
  · obtain ⟨t, hmem, hlive⟩ := mem_of_get hget
    exact ⟨t, hc.stands _ hmem, hlive⟩
  · rw [entries_insert hpos]
    exact List.mem_append_right _ (List.mem_singleton_self _)

/-- A key that is put in again stands with its new time, and then the other one is the oldest. -/
theorem invariants_after_again :
    let h : History Nat :=
      [(0, .insert ['a'] 1), (3, .insert ['b'] 2), (4, .get ['a']), (5, .insert ['a'] 3)]
    let c := (empty 2 10 60 : Cache Nat).after h
    UpTo h 12 ∧ (∃ t, Stands h ⟨['a'], 3, t⟩ ∧ 12 - t < 10) ∧
      Evicts 12 c (.insert ['c'] 4) ⟨['b'], 2, 3⟩ := by
  intro h c
  have htime : UpTo h 12 := ⟨by decide, by simp [h]⟩
  obtain ⟨-, -, hget, -, -, hlost⟩ := invariants_after 2 10 60 htime
  refine ⟨htime, hget ['a'] 3 rfl, ?_⟩
  have hmem : ⟨['b'], 2, 3⟩ ∈ c.entries := List.mem_cons_self
  have hnot : ⟨['b'], 2, 3⟩ ∉ (c.perform 12 (.insert ['c'] 4)).entries := by
    rw [show (c.perform 12 (.insert ['c'] 4)).entries = [⟨['a'], 3, 5⟩, ⟨['c'], 4, 12⟩] from rfl]
    simp
  exact (hlost _ _ hmem (by decide) hnot).resolve_left (by simp [Operation.displaces])

end FilterQuery.Cache
