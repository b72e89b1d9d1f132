import FilterQuery.Condition
import FilterQuery.Section
set_option autoImplicit false

/-!
Reading filter text. One pass over the tokens gives an outline: the nodes of the filter, the
entries of the sections, and the load sections with filter texts that are read in turn. Nothing is
an error; what cannot be understood is left out. `Request.read` is the request of a text.
-/

namespace FilterQuery

/-- A place where the structure of a text had to be guessed. -/
inductive Lapse where
  | strayClose
  | openGroup
  | openBlock
  deriving DecidableEq, Repr

/-- What has been read so far: the nodes of the innermost open group and of the groups around it,
the sections, and the lapses. -/
structure Outline where
  nodes : List Node
  outer : List (List Node)
  sort : List SortKey
  page : Page
  loads : List LoadSection
  lapses : List Lapse

def sortMark : Text := "sort=".toList

def pageMark : Text := "page=".toList

def loadMark : Text := "load=[".toList

namespace Outline

def empty : Outline := ⟨[], [], [], Page.none, [], []⟩

def add (o : Outline) (n : Node) : Outline := { o with nodes := o.nodes ++ [n] }

def openGroup (o : Outline) : Outline := { o with nodes := [], outer := o.nodes :: o.outer }

/-- Closes the innermost group; a parenthesis that closes none is a lapse. -/
def closeGroup (o : Outline) : Outline :=
  match o.outer with
  | [] => { o with lapses := o.lapses ++ [.strayClose] }
  | ns :: outer => { o with nodes := ns ++ [.group o.nodes], outer := outer }

/-- Reads a load block, whose text starts behind the opening bracket, and gives the rest. -/
def load (o : Outline) (t : Text) : Outline × Text :=
  match LoadSection.cut t with
  | some (body, rest) => ({ o with loads := o.loads ++ LoadSection.readAll body }, rest)
  | none =>
    ({ o with loads := o.loads ++ LoadSection.readAll t, lapses := o.lapses ++ [.openBlock] }, [])

def step [Regex.Engine] (o : Outline) (l : Lexeme) : Outline × Text :=
  if l.isGroupOpen then (o.openGroup, l.rest)
  else if l.isGroupClose then (o.closeGroup, l.rest)
  else
    match Keyword.ofText? l.text with
    | some k => (o.add (.word k), l.rest)
    | none =>
      match loadMark.isPrefixOf? l.text with
      | some body => o.load (body ++ l.rest)
      | none =>
        match sortMark.isPrefixOf? l.text with
        | some body => ({ o with sort := o.sort ++ readSort body }, l.rest)
        | none =>
          match pageMark.isPrefixOf? l.text with
          | some body => ({ o with page := applyPage o.page body }, l.rest)
          | none =>
            match Condition.read l.text l.rest with
            | (some e, rest) => (o.add (.leaf e), rest)
            | (none, rest) => (o, rest)

theorem length_load_lt (o : Outline) (t : Text) : (o.load t).2.length ≤ t.length := by
  unfold load
  split
  · rename_i h
    exact Nat.le_of_lt (LoadSection.length_cutBlock_le h)
  · simp

section

variable [Regex.Engine]

theorem length_step_lt (o : Outline) {t : Text} {l : Lexeme} (h : Lexeme.next? t = some l) :
    (o.step l).2.length < t.length := by
  have hlt := Lexeme.length_rest_lt h
  unfold step
  split
  · exact hlt
  · split
    · exact hlt
    · split
      · exact hlt
      · split
        · rename_i body hb
          have hlen := congrArg List.length (Text.append_of_isPrefixOf? hb)
          have hload := length_load_lt o (body ++ l.rest)
          have happ := congrArg List.length (Lexeme.append_of_next? h)
          have hmark : loadMark.length = 6 := by decide
          simp only [List.length_append] at happ hload hlen
          omega
        · split
          · exact hlt
          · split
            · exact hlt
            · have := Condition.length_read_le l.text l.rest
              split <;> rename_i hr <;> rw [hr] at this <;> exact Nat.lt_of_le_of_lt this hlt

def readFrom (o : Outline) (t : Text) : Outline :=
  match h : Lexeme.next? t with
  | none => o
  | some l =>
    have := length_step_lt o h
    readFrom (o.step l).1 (o.step l).2
termination_by t.length

def read (t : Text) : Outline := readFrom empty t

end

def closeAll (nodes : List Node) : List (List Node) → List Node
  | [] => nodes
  | ns :: outer => closeAll (ns ++ [.group nodes]) outer

def root (o : Outline) : List Node := closeAll o.nodes o.outer

end Outline

variable [Regex.Engine]

def Expr.read (t : Text) : Option Expr := Node.assemble (Outline.read t).root

/-- The preloads that load sections ask for. Only the filter of a section's text counts. -/
def Preloads.ofSections (sections : List LoadSection) : Preloads :=
  sections.foldl
    (fun ps s => ps.add s.relation (s.filter.bind Expr.read).toList) []

def Request.read (t : Text) : Request :=
  let o := Outline.read t
  ⟨Node.assemble o.root, o.sort, o.page, Preloads.ofSections o.loads⟩

end FilterQuery
