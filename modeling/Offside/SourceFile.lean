import Offside.Text

/-!
This module contains source files and the table that numbers them. A line of a file is found by the
byte offsets at which the lines start.
-/

namespace Offside

structure SourceFile where
  name : String
  source : String
deriving DecidableEq, Repr

namespace SourceFile

def lineOffsets (text : List Char) : List Nat :=
  0 :: go 0 text
where
  go (offset : Nat) : List Char → List Nat
    | [] => []
    | c :: text =>
      let next := offset + c.utf8Size
      if c = '\n' then
        next :: go next text
      else
        go next text

/--
The byte offsets between which a line lies, without its line feed. Lines are counted from 1.
-/
def lineRange? (file : SourceFile) (line : UInt32) : Option (Nat × Nat) :=
  let text := file.source.toList
  let offsets := lineOffsets text
  if line = 0 then
    none
  else
    offsets[line.toNat - 1]?.map fun start =>
      match offsets[line.toNat]? with
      | some next => (start, next - 1)
      | none => (start, Text.byteSize text)

/--
The characters of a line without its line feed and the carriage returns before it.
-/
def line? (file : SourceFile) (line : UInt32) : Option (List Char) :=
  match file.lineRange? line with
  | none => none
  | some (start, stop) => (Text.slice? file.source.toList start stop).map Text.trimReturns

end SourceFile

/--
The files of a program. The number of a file is its place in the order in which files were added.
-/
structure FileTable where
  files : Array SourceFile
deriving DecidableEq, Repr

namespace FileTable

def empty : FileTable := ⟨#[]⟩

def add (table : FileTable) (file : SourceFile) : UInt32 × FileTable :=
  (table.files.size.toUInt32, ⟨table.files.push file⟩)

def get? (table : FileTable) (fileId : UInt32) : Option SourceFile :=
  table.files[fileId.toNat]?

end FileTable

end Offside
