import Offside.Layout

/-!
This module contains the tokenizer that reads a source as a whole. It reads line after line up to
the end of the source or to the first line that is not well formed.
-/

namespace Offside

structure Run where
  /-- The lines that take part in the layout, up to the line that is not well formed. -/
  lines : List LayoutLine
  cursor : Cursor
  abort : Option Abort
deriving DecidableEq, Repr

/--
The tokens before the first error of a source, and this error. A source with an error is no program,
its tokens are of use for diagnostics only.
-/
structure TokenStream where
  tokens : List Token
  failure : Option LexicalError
deriving DecidableEq, Repr

namespace Run

def ofLines (options : Options) (cursor : Cursor) : List Line → Run
  | [] => ⟨[], cursor, none⟩
  | line :: lines =>
    match cursor.step options line with
    | .error abort => ⟨[], cursor, some abort⟩
    | .ok (layoutLine, next) =>
      let run := ofLines options next lines
      { run with lines := layoutLine.toList ++ run.lines }

def ofSource (source : String) (options : Options) : Run :=
  ofLines options .start (Line.ofText source.toList)

/--
All tokens of a run. The blocks that are open at an error stay open.
-/
def tokens (run : Run) (options : Options) : List Token :=
  let tokens := run.lines.flatMap (·.tokens options.fileId)
  match run.abort with
  | none => tokens ++ run.cursor.closing options
  | some _ => tokens

end Run

def TokenStream.ofSource (source : String) (options : Options) : Except Overflow TokenStream :=
  let run := Run.ofSource source options
  match run.abort with
  | none => .ok ⟨run.tokens options, none⟩
  | some (.rejected error) => .ok ⟨run.tokens options, some error⟩
  | some (.overflow cause) => .error cause

def tokenize (source : String) (options : Options) : Except Abort (List Token) :=
  let run := Run.ofSource source options
  match run.abort with
  | none => .ok (run.tokens options)
  | some abort => .error abort

end Offside
