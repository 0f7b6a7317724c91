import Offside.LexicalError

/-!
This module contains the levels of the blocks that are open at a line. A source is a block at level
0 and each block is at a larger level than the block around it. The level of the next line decides
which blocks it closes or whether it opens one.
-/

namespace Offside

structure Levels where
  /-- The levels above 0, innermost first. -/
  above : List UInt32
  /-- Blocks are at larger levels than the blocks around them. -/
  nested : (above ++ [0]).Pairwise (· > ·)
deriving DecidableEq, Repr

inductive Move where
  | stay
  | indent
  | dedent (closed : Nat)
deriving DecidableEq, Repr

inductive LevelFault where
  | stepTooLarge (top level : UInt32)
  | notOpen (level : UInt32) (levels : List UInt32)
deriving DecidableEq, Repr

namespace LevelFault

def kind : LevelFault → LexicalErrorKind
  | .stepTooLarge _ _ => .invalidIndentation
  | .notOpen _ _ => .inconsistentDedent

def message : LevelFault → String
  | .stepTooLarge top level =>
    "indentation may only increase by one level at a time (from " ++ top.toNat.repr ++ " to " ++
      level.toNat.repr ++ ")"
  | .notOpen level levels =>
    "dedent to level " ++ level.toNat.repr ++
      " does not match any enclosing block (open levels: [" ++
      String.intercalate ", " (levels.map (·.toNat.repr)) ++ "])"

end LevelFault

namespace Levels

def base : Levels := ⟨[], by simp⟩

def top (levels : Levels) : UInt32 :=
  levels.above.headD 0

def depth (levels : Levels) : Nat :=
  levels.above.length + 1

def toList (levels : Levels) : List UInt32 :=
  0 :: levels.above.reverse

theorem le_top_of_mem {levels : Levels} {level : UInt32} (h : level ∈ levels.above ++ [0]) :
    level ≤ levels.top := by
  rcases levels with ⟨above, nested⟩
  cases above with
  | nil =>
    simp only [List.nil_append, List.mem_singleton] at h
    simp [top, h]
  | cons first above =>
    rw [List.cons_append, List.pairwise_cons] at nested
    rw [List.cons_append, List.mem_cons] at h
    cases h with
    | inl h => simp [top, h]
    | inr h => exact UInt32.le_of_lt (nested.1 level h)

def push (levels : Levels) (level : UInt32) (h : levels.top < level) : Levels where
  above := level :: levels.above
  nested := by
    rw [List.cons_append, List.pairwise_cons]
    exact ⟨fun _ hmem => UInt32.lt_of_le_of_lt (le_top_of_mem hmem) h, levels.nested⟩

def closeAbove (levels : Levels) (level : UInt32) : Levels where
  above := levels.above.dropWhile (level < ·)
  nested := levels.nested.sublist (List.Sublist.append_right (List.dropWhile_sublist _) _)

/--
What a line at `level` does to the open blocks, and the blocks that are open from then on.
-/
def enter (levels : Levels) (strict : Bool) (level : UInt32) : Except LevelFault (Move × Levels) :=
  if level = levels.top then
    .ok (.stay, levels)
  else if h : levels.top < level then
    if strict ∧ 1 < level - levels.top then
      .error (.stepTooLarge levels.top level)
    else
      .ok (.indent, levels.push level h)
  else
    let remaining := levels.closeAbove level
    if remaining.top = level then
      .ok (.dedent (levels.depth - remaining.depth), remaining)
    else
      .error (.notOpen level levels.toList)

end Levels

end Offside
