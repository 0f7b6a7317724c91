import Offside.Indentation
import Offside.Levels
import Offside.Line
import Offside.Options
import Offside.Scan

/-!
This module contains the reading of one physical line. Blank lines change nothing. Any other line
takes part in the layout by its level, also if it holds a comment only, and is a statement if it
holds a token.
-/

namespace Offside

structure LayoutLine where
  origin : Position
  /-- The end of the line's text. -/
  stop : Position
  move : Move
  levels : Levels
  content : List Token
deriving DecidableEq, Repr

namespace LayoutLine

/--
Read a line that begins at `start`, ends at `stop` and follows a line at which `levels` are open.
The indentation is measured first, then the level is compared with the open ones, the content comes
last.
-/
def read (options : Options) (levels : Levels) (start stop : Position) (text : List Char) :
    Except Abort LayoutLine := do
  let indentation ← Indentation.ofText start text
  let origin ← (start.advance indentation.width indentation.width).mapError .overflow
  let (move, levels) ← (levels.enter options.singleStep indentation.level).mapError fun fault =>
    .rejected (.ofPosition fault.kind origin fault.message)
  let content ← (Scan.ofText indentation.remainder).tokens origin options.fileId
  return { origin, stop, move, levels, content }

def opening (line : LayoutLine) (fileId : UInt32) : List Token :=
  let point := Span.point line.origin fileId
  match line.move with
  | .stay => []
  | .indent => [⟨.indent, point⟩]
  | .dedent closed => List.replicate closed ⟨.dedent, point⟩

/--
The tokens that a line adds to those of the lines before it. A line without content ends no
statement.
-/
def tokens (line : LayoutLine) (fileId : UInt32) : List Token :=
  if line.content.isEmpty then
    line.opening fileId
  else
    line.opening fileId ++ line.content ++ [⟨.newline, Span.point line.stop fileId⟩]

end LayoutLine

/--
A place between two physical lines.
-/
structure Cursor where
  lines : Nat
  offset : UInt64
  /-- The end of the text of the last line before this place. -/
  stop : Position
  levels : Levels
deriving DecidableEq, Repr

namespace Cursor

def start : Cursor := ⟨0, 0, .start, .base⟩

def pass (cursor : Cursor) (line : Line) : Except Overflow Cursor := do
  let number ← Word.add32 cursor.lines.toUInt32 1
  let offset ← Word.add64 cursor.offset (Text.byteSize line.chars).toUInt64
  let start : Position := ⟨number, 1, cursor.offset⟩
  let stop ← start.advance line.text.length (Text.byteSize line.text)
  return ⟨cursor.lines + 1, offset, stop, cursor.levels⟩

def step (options : Options) (cursor : Cursor) (line : Line) :
    Except Abort (Option LayoutLine × Cursor) := do
  let next ← (cursor.pass line).mapError .overflow
  if line.isBlank then
    return (none, next)
  else
    let start : Position := ⟨next.stop.line, 1, cursor.offset⟩
    let layoutLine ← LayoutLine.read options cursor.levels start next.stop line.text
    return (some layoutLine, { next with levels := layoutLine.levels })

/--
The tokens that follow the last line: every open block is closed, then the source ends.
-/
def closing (cursor : Cursor) (options : Options) : List Token :=
  let point := Span.point cursor.stop options.fileId
  let closed := List.replicate cursor.levels.above.length ⟨.dedent, point⟩
  if options.markEnd then
    closed ++ [⟨.eof, point⟩]
  else
    closed

end Cursor

end Offside
