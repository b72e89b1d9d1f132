import Mathlib.Data.List.Induction
import Mathlib.Data.List.Nodup
set_option autoImplicit false

/-!
Lists with each entry once: an entry stays where it first stands.
-/

namespace List

variable {α : Type} [BEq α] [LawfulBEq α]

theorem eraseDups_concat_of_mem {l : List α} {a : α} (h : a ∈ l) :
    (l ++ [a]).eraseDups = l.eraseDups := by
  rw [eraseDups_append]
  simp [removeAll, h]

theorem eraseDups_concat_of_not_mem {l : List α} {a : α} (h : a ∉ l) :
    (l ++ [a]).eraseDups = l.eraseDups ++ [a] := by
  rw [eraseDups_append]
  simp [removeAll, h, eraseDups_cons]

theorem nodup_eraseDups (l : List α) : l.eraseDups.Nodup := by
  induction l using List.reverseRecOn with
  | nil => exact nodup_nil
  | append_singleton l a ih =>
    by_cases h : a ∈ l
    · rwa [eraseDups_concat_of_mem h]
    · rw [eraseDups_concat_of_not_mem h, ← concat_eq_append]
      exact ih.concat (by rwa [mem_eraseDups])

theorem eraseDups_sublist (l : List α) : l.eraseDups.Sublist l := by
  induction l using List.reverseRecOn with
  | nil => exact Sublist.slnil
  | append_singleton l a ih =>
    by_cases h : a ∈ l
    · rw [eraseDups_concat_of_mem h]
      exact ih.trans (sublist_append_left l [a])
    · rw [eraseDups_concat_of_not_mem h]
      exact ih.append_right [a]

theorem eraseDups_of_nodup {l : List α} (h : l.Nodup) : l.eraseDups = l := by
  induction l using List.reverseRecOn with
  | nil => rfl
  | append_singleton l a ih =>
    rw [← concat_eq_append, nodup_concat] at h
    rw [eraseDups_concat_of_not_mem h.1, ih h.2]

theorem filterMap_eq_self_iff {α : Type} {f : α → Option α} {l : List α} :
    l.filterMap f = l ↔ ∀ a ∈ l, f a = some a := by
  have hiff := filterMap_eq_map_iff_forall_eq_some (f := f) (g := id) (l := l)
  rwa [map_id] at hiff

/-- Entries that are there once are what is found of them, each once, exactly if each of them is
found to be itself. -/
theorem eraseDups_filterMap_eq_self_iff {f : α → Option α} {l : List α} (h : l.Nodup) :
    (l.filterMap f).eraseDups = l ↔ ∀ a ∈ l, f a = some a := by
  rw [← filterMap_eq_self_iff]
  constructor
  · intro heq
    have hsublist := eraseDups_sublist (l.filterMap f)
    have hlength := length_filterMap_le f l
    rw [heq] at hsublist
    exact (hsublist.eq_of_length_le hlength).symm
  · intro heq
    rw [heq, eraseDups_of_nodup h]

end List
