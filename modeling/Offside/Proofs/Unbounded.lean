import Mathlib.Algebra.Group.Int.Defs
import Mathlib.Algebra.Group.Nat.Defs
import Offside.Run

/-!
This module contains the reading of sources over unbounded numbers. It takes the same steps as the
reading over words, and it tells every number that it comes to together with the width of the word
in which the number is to be kept.
-/

namespace Offside

/--
A number that is to be kept in a word of the given width.
-/
structure Quantity where
  width : Nat
  value : Int
deriving DecidableEq, Repr

def Quantity.Fits (quantity : Quantity) : Prop :=
  0 ≤ quantity.value ∧ quantity.value < 2 ^ quantity.width

theorem Quantity.fits_of_lt {width value : Nat} (h : value < 2 ^ width) :
    Quantity.Fits ⟨width, value⟩ := by
  constructor
  . apply Int.natCast_nonneg
  . show (value : Int) < 2 ^ width
    exact_mod_cast h

namespace Unbounded

structure Place where
  line : Nat
  column : Nat
  offset : Nat
deriving DecidableEq, Repr

structure Error where
  kind : LexicalErrorKind
  line : Nat
  column : Nat
  message : String
deriving DecidableEq, Repr

/--
What a computation comes to, and the numbers on its way there.
-/
structure Account (α : Type) where
  quantities : List Quantity
  outcome : Except Error α

namespace Account

instance : Monad Account where
  pure a := ⟨[], .ok a⟩
  bind account next :=
    match account.outcome with
    | .error error => ⟨account.quantities, .error error⟩
    | .ok a => ⟨account.quantities ++ (next a).quantities, (next a).outcome⟩

def keepInt (width : Nat) (value : Int) : Account Unit :=
  ⟨[⟨width, value⟩], .ok ()⟩

def keep (width value : Nat) : Account Unit :=
  keepInt width value

def fail {α : Type} (error : Error) : Account α :=
  ⟨[], .error error⟩

end Account

open Account

def Place.advance (place : Place) (chars bytes : Nat) : Account Place := do
  keep 32 chars
  keep 32 (place.column + chars)
  keep 64 bytes
  keep 64 (place.offset + bytes)
  return ⟨place.line, place.column + chars, place.offset + bytes⟩

def reject {α : Type} (kind : LexicalErrorKind) (start : Place) (chars bytes : Nat)
    (message : String) : Account α := do
  let place ← start.advance chars bytes
  fail ⟨kind, place.line, place.column, message⟩

structure Indentation where
  level : Nat
  width : Nat
  remainder : List Char
deriving DecidableEq, Repr

def Indentation.ofText (start : Place) (text : List Char) : Account Indentation :=
  go none 0 0 text
where
  go (seen : Option IndentUnit) (level width : Nat) : List Char → Account Indentation
    | '\t' :: rest =>
      if seen = some .spacePair then
        fault .mixedUnits width
      else do
        keep 32 (level + 1)
        go (some .tab) (level + 1) (width + 1) rest
    | ' ' :: ' ' :: rest =>
      if seen = some .tab then
        fault .mixedUnits width
      else do
        keep 32 (level + 1)
        go (some .spacePair) (level + 1) (width + 2) rest
    | ' ' :: '\t' :: _ => fault .mixedUnits width
    | ' ' :: _ => fault .unpairedSpace width
    | rest => return ⟨level, width, rest⟩
  fault (cause : IndentFault) (width : Nat) : Account Indentation :=
    reject .invalidIndentation start width width cause.message

def stepMessage (top level : Nat) : String :=
  "indentation may only increase by one level at a time (from " ++ top.repr ++ " to " ++
    level.repr ++ ")"

def dedentMessage (level : Nat) (levels : List Nat) : String :=
  "dedent to level " ++ level.repr ++ " does not match any enclosing block (open levels: [" ++
    String.intercalate ", " (levels.map (·.repr)) ++ "])"

def enter (above : List Nat) (strict : Bool) (level : Nat) (origin : Place) :
    Account (Move × List Nat) :=
  let top := above.headD 0
  if level = top then
    return (.stay, above)
  else if top < level then do
    keepInt 32 (level - top)
    if strict ∧ 1 < (level - top : Int) then
      fail ⟨.invalidIndentation, origin.line, origin.column, stepMessage top level⟩
    else
      return (.indent, level :: above)
  else
    let remaining := above.dropWhile (level < ·)
    if remaining.headD 0 = level then do
      keepInt 64 (above.length - remaining.length)
      return (.dedent (above.length - remaining.length), remaining)
    else
      fail ⟨.inconsistentDedent, origin.line, origin.column,
        dedentMessage level (0 :: above.reverse)⟩

structure Token where
  kind : TokenKind
  start : Place
  stop : Place
  fileId : UInt32
deriving DecidableEq, Repr

def tokens (scan : Scan) (origin : Place) (fileId : UInt32) : Account (List Token) :=
  go 0 0 scan.lexemes
where
  go (chars bytes : Nat) : List Lexeme → Account (List Token)
    | [] =>
      match scan.fault with
      | none => return []
      | some fault => reject .invalidToken origin chars bytes fault.message
    | ⟨none, text⟩ :: lexemes => go (chars + text.length) (bytes + Text.byteSize text) lexemes
    | ⟨some kind, text⟩ :: lexemes => do
      let start ← origin.advance chars bytes
      let chars := chars + text.length
      let bytes := bytes + Text.byteSize text
      let stop ← origin.advance chars bytes
      let tokens ← go chars bytes lexemes
      return ⟨kind, start, stop, fileId⟩ :: tokens

structure LayoutLine where
  origin : Place
  stop : Place
  move : Move
  above : List Nat
  content : List Token
deriving DecidableEq, Repr

namespace LayoutLine

def read (options : Options) (above : List Nat) (start stop : Place) (text : List Char) :
    Account LayoutLine := do
  let indentation ← Indentation.ofText start text
  let origin ← start.advance indentation.width indentation.width
  let (move, above) ← enter above options.singleStep indentation.level origin
  let content ← tokens (Scan.ofText indentation.remainder) origin options.fileId
  return { origin, stop, move, above, content }

def opening (line : LayoutLine) (fileId : UInt32) : List Token :=
  match line.move with
  | .stay => []
  | .indent => [⟨.indent, line.origin, line.origin, fileId⟩]
  | .dedent closed => List.replicate closed ⟨.dedent, line.origin, line.origin, fileId⟩

def tokens (line : LayoutLine) (fileId : UInt32) : List Token :=
  if line.content.isEmpty then
    line.opening fileId
  else
    line.opening fileId ++ line.content ++ [⟨.newline, line.stop, line.stop, fileId⟩]

end LayoutLine

structure Cursor where
  lines : Nat
  offset : Nat
  stop : Place
  above : List Nat
deriving DecidableEq, Repr

namespace Cursor

def start : Cursor := ⟨0, 0, ⟨1, 1, 0⟩, []⟩

def pass (cursor : Cursor) (line : Line) : Account Cursor := do
  keep 32 cursor.lines
  keep 32 (cursor.lines + 1)
  keep 64 (Text.byteSize line.chars)
  keep 64 (cursor.offset + Text.byteSize line.chars)
  let start : Place := ⟨cursor.lines + 1, 1, cursor.offset⟩
  let stop ← start.advance line.text.length (Text.byteSize line.text)
  return ⟨cursor.lines + 1, cursor.offset + Text.byteSize line.chars, stop, cursor.above⟩

def step (options : Options) (cursor : Cursor) (line : Line) :
    Account (Option LayoutLine × Cursor) := do
  let next ← cursor.pass line
  if line.isBlank then
    return (none, next)
  else
    let start : Place := ⟨next.stop.line, 1, cursor.offset⟩
    let layoutLine ← LayoutLine.read options cursor.above start next.stop line.text
    return (some layoutLine, { next with above := layoutLine.above })

def closing (cursor : Cursor) (options : Options) : List Token :=
  let closed := List.replicate cursor.above.length
    ⟨.dedent, cursor.stop, cursor.stop, options.fileId⟩
  if options.markEnd then
    closed ++ [⟨.eof, cursor.stop, cursor.stop, options.fileId⟩]
  else
    closed

end Cursor

structure Run where
  quantities : List Quantity
  lines : List LayoutLine
  cursor : Cursor
  failure : Option Error
deriving DecidableEq, Repr

namespace Run

def ofLines (options : Options) (cursor : Cursor) : List Line → Run
  | [] => ⟨[], [], cursor, none⟩
  | line :: lines =>
    let account := cursor.step options line
    match account.outcome with
    | .error error => ⟨account.quantities, [], cursor, some error⟩
    | .ok (layoutLine, next) =>
      let run := ofLines options next lines
      { run with
        quantities := account.quantities ++ run.quantities
        lines := layoutLine.toList ++ run.lines }

def ofSource (source : String) (options : Options) : Run :=
  ofLines options .start (Line.ofText source.toList)

def tokens (run : Run) (options : Options) : List Token :=
  let tokens := run.lines.flatMap (·.tokens options.fileId)
  match run.failure with
  | none => tokens ++ run.cursor.closing options
  | some _ => tokens

end Run

def Error.places (error : Error) : Account (List (Place × Place)) := do
  keep 32 (error.column + 1)
  return [(⟨error.line, error.column, 0⟩, ⟨error.line, error.column + 1, 0⟩)]

end Unbounded

end Offside
