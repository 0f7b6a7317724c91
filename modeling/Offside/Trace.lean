import Offside.Run

/-!
This module contains the events that tell what the tokenizer does: one event for each line that
opens or closes blocks, then one for the end of the run.
-/

namespace Offside

inductive Event where
  /-- A line opens a block at a level; so many blocks are open then. -/
  | indent (line level : UInt32) (depth : Nat)
  | dedent (line level : UInt32) (closed : Nat)
  | finished (tokens : Nat) (lines : UInt32)
  | aborted (line column : UInt32) (kind : LexicalErrorKind)
deriving DecidableEq, Repr

inductive Verbosity where
  | debug
  | trace
deriving DecidableEq, Repr

def Verbosity.text : Verbosity → String
  | .debug => "DEBUG"
  | .trace => "TRACE"

inductive FieldValue where
  | number (value : Nat)
  | text (value : String)
deriving DecidableEq, Repr

namespace Event

def verbosity : Event → Verbosity
  | .indent _ _ _ | .dedent _ _ _ => .trace
  | .finished _ _ | .aborted _ _ _ => .debug

def message : Event → String
  | .indent _ _ _ => "indent"
  | .dedent _ _ _ => "dedent"
  | .finished _ _ => "tokenized source unit"
  | .aborted _ _ _ => "tokenization aborted"

def fields : Event → List (String × FieldValue)
  | .indent line level depth =>
    [("line", .number line.toNat), ("level", .number level.toNat), ("depth", .number depth)]
  | .dedent line level closed =>
    [("line", .number line.toNat), ("level", .number level.toNat), ("closed", .number closed)]
  | .finished tokens lines => [("tokens", .number tokens), ("lines", .number lines.toNat)]
  | .aborted line column kind =>
    [("line", .number line.toNat), ("column", .number column.toNat), ("kind", .text kind.text)]

end Event

def LayoutLine.event? (line : LayoutLine) : Option Event :=
  match line.move with
  | .stay => none
  | .indent => some (.indent line.origin.line line.levels.top line.levels.depth)
  | .dedent closed => some (.dedent line.origin.line line.levels.top closed)

/--
The event that ends a run. Closing the last blocks is no event of its own.
-/
def Run.ending (run : Run) (options : Options) : Except Overflow Event :=
  match run.abort with
  | none => .ok (.finished (run.tokens options).length run.cursor.stop.line)
  | some (.rejected error) => .ok (.aborted error.line error.column error.kind)
  | some (.overflow cause) => .error cause

def trace (source : String) (options : Options) : Except Overflow (List Event) :=
  let run := Run.ofSource source options
  (run.ending options).map fun ending => run.lines.filterMap (·.event?) ++ [ending]

end Offside
