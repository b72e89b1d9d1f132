import FilterQuery.Text
set_option autoImplicit false

/-!
Places in a text. A byte offset is taken back to the boundary of a character, and the place is
given by line and column too, both counted from one, with the text around it.
-/

namespace FilterQuery

/-- Cuts a text at the last character boundary that is not past a byte offset. -/
def Text.cutAt : Nat → Text → Text × Text
  | _, [] => ([], [])
  | n, c :: t =>
    if c.utf8Size ≤ n then
      let (before, after) := cutAt (n - c.utf8Size) t
      (c :: before, after)
    else ([], c :: t)

theorem Text.cutAt_append (n : Nat) (t : Text) : (cutAt n t).1 ++ (cutAt n t).2 = t := by
  fun_induction cutAt n t <;> simp_all

structure Location where
  position : Nat
  line : Nat
  column : Nat
  context : Text
  deriving DecidableEq, Repr

namespace Location

def radius : Nat := 20

def lineAfter (before : Text) : Nat := before.count '\n' + 1

def columnAfter (before : Text) : Nat := (before.reverse.takeWhile (· ≠ '\n')).length + 1

def between (before after : Text) : Location :=
  ⟨before.byteLength, lineAfter before, columnAfter before,
    before.drop (before.length - radius) ++ after.take radius⟩

def ofOffset (t : Text) (offset : Nat) : Location :=
  let (before, after) := Text.cutAt offset t
  between before after

end Location

end FilterQuery
