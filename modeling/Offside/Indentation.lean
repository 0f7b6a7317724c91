import Offside.LexicalError

/-!
This module contains the indentation of lines. A line is indented by whole units, each unit is a tab
or a pair of spaces, and all units of a line are of one kind. The number of units is the level of
the line.
-/

namespace Offside

inductive IndentUnit where
  | tab
  | spacePair
deriving DecidableEq, Repr

inductive IndentFault where
  | unpairedSpace
  | mixedUnits
deriving DecidableEq, Repr

def IndentFault.message : IndentFault → String
  | .unpairedSpace => "single leading space is not a valid indentation unit"
  | .mixedUnits => "cannot mix tabs and spaces in indentation"

structure Indentation where
  level : UInt32
  /-- The number of characters, each of which is one byte long. -/
  width : Nat
  remainder : List Char
deriving DecidableEq, Repr

namespace Indentation

/--
The indentation of a line that begins at `start`. The first character that breaks the rules is at
fault.
-/
def ofText (start : Position) (text : List Char) : Except Abort Indentation :=
  go none 0 0 text
where
  /--
  `seen` is the kind of the `level` units before, which are `width` characters long.
  -/
  go (seen : Option IndentUnit) (level : UInt32) (width : Nat) :
      List Char → Except Abort Indentation
    | '\t' :: rest =>
      if seen = some .spacePair then
        .error (fault .mixedUnits width)
      else
        match Word.add32 level 1 with
        | .error cause => .error (.overflow cause)
        | .ok level => go (some .tab) level (width + 1) rest
    | ' ' :: ' ' :: rest =>
      if seen = some .tab then
        .error (fault .mixedUnits width)
      else
        match Word.add32 level 1 with
        | .error cause => .error (.overflow cause)
        | .ok level => go (some .spacePair) level (width + 2) rest
    | ' ' :: '\t' :: _ => .error (fault .mixedUnits width)
    | ' ' :: _ => .error (fault .unpairedSpace width)
    | rest => .ok ⟨level, width, rest⟩
  fault (cause : IndentFault) (width : Nat) : Abort :=
    .reject .invalidIndentation start width width cause.message

end Indentation

end Offside
