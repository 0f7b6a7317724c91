import Offside.Text

/-!
This module contains the physical lines of a source. Each line ends just after a line feed, the last
one may end with the source instead. Apart from the line feed, one carriage return at the end of a
line is not part of the line's text.
-/

namespace Offside

structure Line where
  text : List Char
  /-- What ends the line: at most one carriage return, then at most one line feed. -/
  ending : List Char
deriving DecidableEq, Repr

namespace Line

def chars (line : Line) : List Char :=
  line.text ++ line.ending

def isBlank (line : Line) : Bool :=
  line.text.all Text.isIndent

/--
The line whose characters are `body`, which has no line feed, and `feed`. A carriage return at the
end of `body` belongs to the ending.
-/
def ofBody (body feed : List Char) : Line :=
  if body.getLast? = some '\r' then
    ⟨body.dropLast, '\r' :: feed⟩
  else
    ⟨body, feed⟩

def ofChars (raw : List Char) : Line :=
  if raw.getLast? = some '\n' then
    ofBody raw.dropLast ['\n']
  else
    ofBody raw []

@[simp]
theorem chars_ofBody (body feed : List Char) : (ofBody body feed).chars = body ++ feed := by
  unfold ofBody chars
  split
  next h =>
    obtain ⟨front, rfl⟩ := List.getLast?_eq_some_iff.1 h
    simp
  next => rfl

@[simp]
theorem chars_ofChars (raw : List Char) : (ofChars raw).chars = raw := by
  unfold ofChars
  split
  next h =>
    obtain ⟨front, rfl⟩ := List.getLast?_eq_some_iff.1 h
    simp
  next => simp

def extend (c : Char) (pieces : List (List Char)) : List (List Char) :=
  if c = '\n' then
    [c] :: pieces
  else
    match pieces with
    | [] => [[c]]
    | piece :: pieces => (c :: piece) :: pieces

def cut (text : List Char) : List (List Char) :=
  text.foldr extend []

theorem flatten_extend (c : Char) (pieces : List (List Char)) :
    (extend c pieces).flatten = c :: pieces.flatten := by
  unfold extend
  split
  . rfl
  . cases pieces <;> rfl

@[simp]
theorem flatten_cut (text : List Char) : (cut text).flatten = text := by
  induction text with
  | nil => rfl
  | cons c text ih => rw [cut, List.foldr_cons, flatten_extend, ← cut, ih]

def ofText (text : List Char) : List Line :=
  (cut text).map ofChars

end Line

end Offside
