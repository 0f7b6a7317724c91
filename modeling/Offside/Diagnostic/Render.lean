import Offside.Diagnostic.Basic
import Offside.SourceFile

/-!
This module contains the printed form of diagnostics. A diagnostic is laid out in rows of styled
text first, which are then printed with or without the codes that change a terminal's style.
-/

namespace Offside

inductive Style where
  | alert
  | strong
  | gutter
  | help
  | reset
deriving DecidableEq, Repr

def Style.code : Style → String
  | .alert => "\x1b[1;31m"
  | .strong => "\x1b[1m"
  | .gutter => "\x1b[1;34m"
  | .help => "\x1b[1;32m"
  | .reset => "\x1b[0m"

inductive Chunk where
  | text (content : String)
  | style (mode : Style)
deriving DecidableEq, Repr

def Chunk.print (colors : Bool) : Chunk → List Char
  | .text content => content.toList
  | .style mode => if colors then mode.code.toList else []

abbrev Row := List Chunk

def Row.print (colors : Bool) (row : Row) : List Char :=
  row.flatMap (Chunk.print colors) ++ ['\n']

namespace Label

def locationRow (label : Label) (file : SourceFile) : Row :=
  let start := label.span.start
  [.text " ", .style .gutter, .text "-->", .style .reset,
    .text (" " ++ file.name ++ ":" ++ start.line.toNat.repr ++ ":" ++ start.column.toNat.repr)]

def padding (label : Label) : String :=
  String.ofList (List.replicate label.span.start.line.toNat.repr.length ' ')

def gutterRow (label : Label) : Row :=
  [.text (" " ++ label.padding ++ " "), .style .gutter, .text "|", .style .reset]

def sourceRow (label : Label) (line : List Char) : Row :=
  [.text " ", .style .gutter, .text label.span.start.line.toNat.repr, .style .reset, .text " |",
    .style .reset, .text (" " ++ String.ofList line)]

def skipped (label : Label) : Nat :=
  label.span.start.column.toNat - 1

/--
What stands under the part of a line before the labelled region: the line's tabs, and blanks under
all other characters, so that both parts are equally wide.
-/
def indent (label : Label) (line : List Char) : List Char :=
  (line.take label.skipped).map fun c => if c = '\t' then '\t' else ' '

/--
The number of carets under a line, at least one. A region that ends on another line is underlined up
to the end of the line.
-/
def caretCount (label : Label) (line : List Char) : Nat :=
  let start := label.span.start
  let stop := label.span.stop
  if start.line = stop.line then
    max (stop.column.toNat - start.column.toNat) 1
  else
    max (line.length - label.skipped) 1

def caretRow (label : Label) (style : Style) (line : List Char) : Row :=
  label.gutterRow ++
    [.text (" " ++ String.ofList (label.indent line)), .style style,
      .text (String.ofList (List.replicate (label.caretCount line) '^') ++ " " ++ label.message),
      .style .reset]

/--
The rows of a label. A label in an unknown file has none, a label at a line that its file does not
have is not shown with its line.
-/
def rows (label : Label) (files : FileTable) (style : Style) : List Row :=
  match files.get? label.span.fileId with
  | none => []
  | some file =>
    match file.line? label.span.start.line with
    | none => [label.locationRow file]
    | some line =>
      [label.locationRow file, label.gutterRow, label.sourceRow line, label.caretRow style line]

end Label

def Severity.style : Severity → Style
  | .error => .alert

namespace Diagnostic

def headerRow (diagnostic : Diagnostic) : Row :=
  let code :=
    match diagnostic.code with
    | none => []
    | some code => [.text ("[" ++ code.text ++ "]")]
  [.style diagnostic.severity.style, .text diagnostic.severity.text] ++ code ++
    [.style .reset, .style .strong, .text (": " ++ diagnostic.message), .style .reset]

def helpRow (help : String) : Row :=
  [.text "   = ", .style .help, .text "help", .style .reset, .text (": " ++ help)]

def rows (diagnostic : Diagnostic) (files : FileTable) : List Row :=
  diagnostic.headerRow ::
    (diagnostic.labels.flatMap (·.rows files diagnostic.severity.style) ++
      diagnostic.help.map helpRow)

def render (diagnostic : Diagnostic) (files : FileTable) (colors : Bool) : String :=
  String.ofList ((diagnostic.rows files).flatMap (Row.print colors))

end Diagnostic

end Offside
