import FilterQuery.Sql.Fragment
set_option autoImplicit false

/-!
Pieces of SQL one behind the other. Every way to put pieces together appends them and fixed texts;
empty pieces do not count.
-/

namespace FilterQuery.Sql

attribute [ext] Fragment

namespace Fragment

instance : Append Fragment := ⟨fun f g => ⟨f.content ++ g.content, f.args ++ g.args⟩⟩

@[simp] theorem content_append (f g : Fragment) : (f ++ g).content = f.content ++ g.content := rfl

@[simp] theorem args_append (f g : Fragment) : (f ++ g).args = f.args ++ g.args := rfl

@[simp] theorem content_atom (t : Text) : (atom t).content = t := rfl

@[simp] theorem args_atom (t : Text) : (atom t).args = [] := rfl

@[simp] theorem content_empty : empty.content = [] := rfl

@[simp] theorem args_empty : empty.args = [] := rfl

@[simp] theorem content_placeholder (v : Value) : (placeholder v).content = ['?'] := rfl

@[simp] theorem args_placeholder (v : Value) : (placeholder v).args = [v] := rfl

theorem append_assoc (f g h : Fragment) : f ++ g ++ h = f ++ (g ++ h) := by ext1 <;> simp

theorem isEmpty_append (f g : Fragment) : (f ++ g).isEmpty = (f.isEmpty && g.isEmpty) := by
  cases h : f.content <;> simp [isEmpty, h]

theorem parenthesize_eq (f : Fragment) : f.parenthesize = atom ['('] ++ f ++ atom [')'] := by
  ext1 <;> simp [parenthesize]

theorem join_nil (separator : Text) : join separator [] = empty := rfl

/-- A joined piece goes if it is empty, and has a separator behind it if anything follows. -/
theorem join_cons (separator : Text) (f : Fragment) (fs : List Fragment) :
    join separator (f :: fs) =
      if f.isEmpty then join separator fs
      else if fs.all isEmpty then f ++ join separator fs
      else f ++ (atom separator ++ join separator fs) := by
  by_cases hf : f.isEmpty = true
  · simp [join, hf]
  · have hnone : fs.all isEmpty = true ↔ fs.filter (fun f => !f.isEmpty) = [] := by simp
    simp only [join, List.filter_cons, hf, Bool.not_false, if_true, Bool.false_eq_true, if_false]
    split
    · rename_i h
      rw [hnone.1 h]
      ext1 <;> simp
    · rename_i h
      obtain ⟨g, gs, heq⟩ := List.exists_cons_of_ne_nil (mt hnone.2 h)
      rw [heq]
      ext1 <;> simp

theorem exists_join_cons (separator : Text) (fs : List Fragment) :
    ∃ g, ∀ f : Fragment, f.isEmpty = false → join separator (f :: fs) = f ++ g := by
  by_cases hfs : fs.all isEmpty = true
  · refine ⟨join separator fs, fun f hf => ?_⟩
    rw [join_cons, hf, if_neg Bool.false_ne_true, if_pos hfs]
  · refine ⟨atom separator ++ join separator fs, fun f hf => ?_⟩
    rw [join_cons, hf, if_neg Bool.false_ne_true, if_neg hfs]

theorem isEmpty_append_left {f : Fragment} (h : f.isEmpty = false) (g : Fragment) :
    (f ++ g).isEmpty = false := by rw [isEmpty_append, h, Bool.false_and]

theorem isEmpty_join_cons {f : Fragment} (h : f.isEmpty = false) (separator : Text)
    (fs : List Fragment) : (join separator (f :: fs)).isEmpty = false := by
  rw [join_cons, h, if_neg Bool.false_ne_true]
  split <;> exact isEmpty_append_left h _

theorem isEmpty_parenthesize (f : Fragment) : f.parenthesize.isEmpty = false := rfl

theorem join_pair (separator : Text) {f g : Fragment} (hf : f.isEmpty = false)
    (hg : g.isEmpty = false) (fs : List Fragment) :
    join separator (f :: g :: fs) = f ++ (atom separator ++ join separator (g :: fs)) := by
  rw [join_cons, hf, if_neg Bool.false_ne_true, List.all_cons, hg, Bool.false_and,
    if_neg Bool.false_ne_true]

theorem join_single (separator : Text) {f : Fragment} (hf : f.isEmpty = false) :
    join separator [f] = f := by
  rw [join_cons, hf]
  ext1 <;> simp [join_nil]

theorem conditions_eq (word : Text) (fs : List Fragment) :
    conditions word fs =
      if 2 ≤ (fs.filter fun f => !f.isEmpty).length then
        (join (' ' :: word ++ [' ']) fs).parenthesize
      else join (' ' :: word ++ [' ']) fs := by
  have hjoin : join (' ' :: word ++ [' ']) (fs.filter fun f => !f.isEmpty) =
      join (' ' :: word ++ [' ']) fs := by
    simp only [join, List.filter_filter, Bool.and_self]
  rw [conditions, ← hjoin]
  have hkept : ∀ f ∈ fs.filter fun f => !f.isEmpty, f.isEmpty = false := by simp
  generalize (fs.filter fun f => !f.isEmpty) = kept at hkept ⊢
  match kept, hkept with
  | [], _ => rfl
  | [f], hkept =>
    rw [join_single _ (hkept f List.mem_cons_self)]
    rfl
  | f :: g :: gs, _ => rfl

theorem conditions_filter (word : Text) (fs : List Fragment) :
    conditions word (fs.filter fun f => !f.isEmpty) = conditions word fs := by
  simp only [conditions, List.filter_filter, Bool.and_self]

theorem conditions_pair (word : Text) {f g : Fragment} {fs : List Fragment}
    (h : ∀ x ∈ f :: g :: fs, x.isEmpty = false) :
    conditions word (f :: g :: fs) = (join (' ' :: word ++ [' ']) (f :: g :: fs)).parenthesize := by
  have hfilter : (f :: g :: fs).filter (fun x => !x.isEmpty) = f :: g :: fs := by
    rw [List.filter_eq_self]
    intro x hx
    rw [h x hx, Bool.not_false]
  rw [conditions, hfilter]

theorem conditions_single (word : Text) {f : Fragment} (hf : f.isEmpty = false) :
    conditions word [f] = f := by simp [conditions, hf]

end Fragment

end FilterQuery.Sql
