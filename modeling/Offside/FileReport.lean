import Offside.Diagnostic.Render
import Offside.Run

/-!
This module contains the reading of source files, with errors in their printed form.
-/

namespace Offside

structure FileReport where
  tokens : List Token
  failure : Option LexicalError
  rendered : Option String
deriving DecidableEq, Repr

namespace FileReport

def success (report : FileReport) : Bool :=
  report.failure.isNone

def kinds (report : FileReport) : List TokenKind :=
  report.tokens.map (·.kind)

end FileReport

/--
Read a source. Its tokens and the label of its error refer to the file that the options name.
-/
def FileReport.ofSource (files : FileTable) (source : String) (options : Options) (colors : Bool) :
    Except Overflow FileReport := do
  let stream ← TokenStream.ofSource source options
  match stream.failure with
  | none => return ⟨stream.tokens, none, none⟩
  | some error =>
    let diagnostic ← error.diagnostic options.fileId
    return ⟨stream.tokens, some error, some (diagnostic.render files colors)⟩

def FileTable.report? (files : FileTable) (fileId : UInt32) (options : Options) (colors : Bool) :
    Option (Except Overflow FileReport) :=
  (files.get? fileId).map fun file =>
    FileReport.ofSource files file.source { options with fileId } colors

def SourceFile.report (file : SourceFile) : Except Overflow FileReport :=
  let (fileId, files) := FileTable.empty.add file
  FileReport.ofSource files file.source { fileId } false

end Offside
