import Offside.Word

/-!
This module contains positions and spans. A position is a place between two characters of a source,
a span is the region between two positions of one file.
-/

namespace Offside

structure Position where
  line : UInt32
  column : UInt32
  offset : UInt64
deriving DecidableEq, Repr, Inhabited

namespace Position

def start : Position := ⟨1, 1, 0⟩

/--
The place that lies `chars` characters and `bytes` bytes after `pos` on the same line. Both counts
are taken modulo the width of their word, the additions are checked.
-/
def advance (pos : Position) (chars bytes : Nat) : Except Overflow Position := do
  let column ← Word.add32 pos.column chars.toUInt32
  let offset ← Word.add64 pos.offset bytes.toUInt64
  return ⟨pos.line, column, offset⟩

end Position

structure Span where
  start : Position
  /-- The end of the region, which is not part of it. -/
  stop : Position
  fileId : UInt32
deriving DecidableEq, Repr, Inhabited

namespace Span

def point (pos : Position) (fileId : UInt32) : Span := ⟨pos, pos, fileId⟩

/--
The length of a span in bytes; a span that ends before it starts has length 0.
-/
def length (span : Span) : Nat :=
  span.stop.offset.toNat - span.start.offset.toNat

def isEmpty (span : Span) : Bool :=
  span.length == 0

@[simp]
theorem length_point (pos : Position) (fileId : UInt32) : (point pos fileId).length = 0 := by
  simp [length, point]

end Span

end Offside
