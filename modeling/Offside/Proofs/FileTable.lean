import Offside.Proofs.Noninterference
import Offside.Proofs.Pointer

/-!
This module contains the independence of the files in a table. A file keeps its number whatever is
added later, and what is printed about it depends on no other file.
-/

namespace Offside

namespace FileTable

def addAll (table : FileTable) (files : List SourceFile) : FileTable :=
  files.foldl (fun table file => (table.add file).2) table

variable {table : FileTable} (file : SourceFile)

theorem toList_files_add (table : FileTable) :
    (table.add file).2.files.toList = table.files.toList ++ [file] :=
  Array.toList_push

theorem toList_files_addAll (table : FileTable) (files : List SourceFile) :
    (table.addAll files).files.toList = table.files.toList ++ files := by
  induction files generalizing table with
  | nil => exact (List.append_nil _).symm
  | cons file files ih =>
    rw [addAll, List.foldl_cons, ← addAll, ih, toList_files_add, List.append_assoc,
      List.singleton_append]

theorem size_files_addAll (table : FileTable) (files : List SourceFile) :
    (table.addAll files).files.size = table.files.size + files.length := by
  rw [← Array.length_toList, toList_files_addAll, List.length_append, Array.length_toList]

theorem toNat_add (h : table.files.size < 2 ^ 32) :
    (table.add file).1.toNat = table.files.size :=
  UInt32.toNat_ofNat_of_lt' h

theorem get?_addAll_add (h : table.files.size < 2 ^ 32) (after : List SourceFile) :
    ((table.add file).2.addAll after).get? (table.add file).1 = some file := by
  have hfiles : ((table.add file).2.addAll after).files.toList =
      table.files.toList ++ file :: after := by
    rw [toList_files_addAll, toList_files_add file, List.append_assoc, List.singleton_append]
  unfold get?
  rw [toNat_add file h, ← Array.getElem?_toList, hfiles, ← Array.length_toList,
    List.getElem?_append_right (Nat.le_refl _), Nat.sub_self]
  rfl

end FileTable

namespace LexicalError

variable {files files' : FileTable} {fileId other : UInt32}

theorem diagnostic_eq_map (error : LexicalError) (fileId : UInt32) :
    error.diagnostic fileId =
      (Word.add32 error.column 1).map fun column => error.explanation column fileId := by
  unfold diagnostic
  cases Word.add32 error.column 1 <;> rfl

theorem render_explanation_eq (error : LexicalError) (column : UInt32)
    (h : files.get? fileId = files'.get? other) (colors : Bool) :
    (error.explanation column fileId).render files colors =
      (error.explanation column other).render files' colors := by
  have hrows (style : Style) :
      (error.label column fileId).rows files style =
        (error.label column other).rows files' style := by
    unfold Label.rows label
    dsimp only
    rw [h]
    rfl
  unfold Diagnostic.render Diagnostic.rows explanation
  dsimp only
  rw [List.flatMap_singleton, List.flatMap_singleton, hrows]
  rfl

end LexicalError

theorem TokenStream.ofSource_of_markEnd_eq_false {options : Options}
    (h : options.markEnd = false) (source : String) :
    ofSource source options = (ofSource source options.plain).map fun stream =>
      ⟨stream.tokens.map (Token.inFile options.fileId), stream.failure⟩ := by
  rw [ofSource_inFile, Run.mark_eq_nil (.inl h)]
  simp only [List.append_nil]

namespace FileReport

def inFile (fileId : UInt32) (report : FileReport) : FileReport :=
  { report with tokens := report.tokens.map (Token.inFile fileId) }

@[simp]
theorem kinds_inFile (fileId : UInt32) (report : FileReport) :
    (report.inFile fileId).kinds = report.kinds := by
  unfold kinds inFile
  rw [List.map_map]
  rfl

variable {files files' : FileTable} {options : Options} {fileId other : UInt32}

theorem ofSource_inFile (source : String) (colors : Bool) (hmark : options.markEnd = false)
    (h : files.get? fileId = files'.get? other) :
    ofSource files source { options with fileId } colors =
      (ofSource files' source { options with fileId := other } colors).map (inFile fileId) := by
  -- Either number is only written into the tokens of one and the same run.
  have hstream (number : UInt32) := @TokenStream.ofSource_of_markEnd_eq_false
    { options with fileId := number } hmark source
  unfold ofSource
  rw [hstream fileId, hstream other]
  unfold Options.plain
  cases TokenStream.ofSource source { singleStep := options.singleStep } with
  | error cause => rfl
  | ok stream =>
    rcases stream with ⟨tokens, failure⟩
    have hmap : tokens.map (Token.inFile fileId) =
        (tokens.map (Token.inFile other)).map (Token.inFile fileId) := by
      rw [List.map_map]
      rfl
    dsimp only [Except.map, bind, Except.bind]
    rw [hmap]
    cases failure with
    | none => rfl
    | some error =>
      dsimp only
      rw [error.diagnostic_eq_map fileId, error.diagnostic_eq_map other]
      cases Word.add32 error.column 1 with
      | error cause => rfl
      | ok column =>
        dsimp only [Except.map]
        rw [error.render_explanation_eq column h colors]
        rfl

end FileReport

theorem Line.InRange.length_text_lt {front back : List Line} {line : Line}
    (h : InRange (front ++ line :: back)) : line.text.length + 1 < 2 ^ 32 := by
  have hbytes := h.bytes_le
  have htext := byteSize_text_le line
  have hlength := Text.length_le_byteSize line.text
  rw [bytes_append, bytes_cons] at hbytes
  omega

theorem TokenStream.column_add_one_lt {source : String} {options : Options} {stream : TokenStream}
    {error : LexicalError} (hsize : source.utf8ByteSize ≤ 2 ^ 32 - 2)
    (h : ofSource source options = .ok stream) (hfailure : stream.failure = some error) :
    error.column.toNat + 1 < 2 ^ 32 := by
  rcases blames hsize h hfailure with ⟨front, line, back, hlines, -, before, c, hblames⟩
  have hrange := Line.inRange_ofSource hsize
  rw [hlines] at hrange
  have hlength := hrange.length_text_lt
  have hle := hblames.column_le_length
  omega

theorem SourceFile.exists_report_eq_ok (file : SourceFile)
    (hsize : file.source.utf8ByteSize ≤ 2 ^ 32 - 2) : ∃ report, file.report = .ok report := by
  rcases @Run.exists_ofSource_eq_ok {} file.source hsize with ⟨stream, hstream, -⟩
  cases hfailure : stream.failure with
  | none => exact ⟨_, FileReport.ofSource_of_failure_eq_none hstream hfailure⟩
  | some error =>
    have hcolumn := TokenStream.column_add_one_lt hsize hstream hfailure
    rcases LexicalError.diagnostic_of_lt hcolumn 0 with ⟨column, -, hdiagnostic⟩
    exact ⟨_, FileReport.ofSource_of_failure_eq_some hstream hfailure hdiagnostic⟩

/--
The files of a table do not interfere. They are numbered in the order in which they are added, each
is found by its number from then on, and its report is the one of the file on its own, whatever
files stand before and after it.
-/
theorem FileTable.files_do_not_interfere (before : List SourceFile) (file : SourceFile)
    (hcount : before.length < 2 ^ 32) (hsize : file.source.utf8ByteSize ≤ 2 ^ 32 - 2) :
    ∃ own fileId table, file.report = .ok own ∧
      (empty.addAll before).add file = (fileId, table) ∧
      fileId.toNat = before.length ∧
      ∀ after, (table.addAll after).get? fileId = some file ∧
        ∃ report, (table.addAll after).report? fileId {} false = some (.ok report) ∧
          report.kinds = own.kinds ∧
          report.failure = own.failure ∧
          report.rendered = own.rendered := by
  have hfiles : (empty.addAll before).files.size = before.length := by
    rw [size_files_addAll]
    exact Nat.zero_add _
  have hlt : (empty.addAll before).files.size < 2 ^ 32 := by rwa [hfiles]
  have hnumber := toNat_add file hlt
  have hget := get?_addAll_add file hlt
  rcases hadd : (empty.addAll before).add file with ⟨fileId, table⟩
  rw [hadd] at hnumber hget
  rcases file.exists_report_eq_ok hsize with ⟨own, hown⟩
  refine ⟨own, fileId, table, hown, rfl, hnumber.trans hfiles, ?_⟩
  intro after
  refine ⟨hget after, own.inFile fileId, ?_, FileReport.kinds_inFile fileId own, rfl, rfl⟩
  -- The table of the file on its own has the file at number 0.
  have hfile : (table.addAll after).get? fileId = (empty.add file).2.get? (empty.add file).1 :=
    hget after
  unfold SourceFile.report at hown
  dsimp only at hown
  unfold report?
  rw [hget, Option.map_some, FileReport.ofSource_inFile file.source false rfl hfile, hown]
  rfl

theorem FileTable.files_do_not_interfere_same_name :
    [(⟨"a.wz", "x\n"⟩ : SourceFile)].length < 2 ^ 32 ∧
    "a\n\tb ?\n".utf8ByteSize ≤ 2 ^ 32 - 2 ∧
    ∃ own table report, (⟨"b.wz", "a\n\tb ?\n"⟩ : SourceFile).report = .ok own ∧
      (empty.addAll [⟨"a.wz", "x\n"⟩]).add ⟨"b.wz", "a\n\tb ?\n"⟩ = (1, table) ∧
      (table.addAll [⟨"b.wz", "?"⟩]).report? 1 {} false = some (.ok report) ∧
      report.failure.isSome = true ∧ report.rendered = own.rendered := by
  have hcount : [(⟨"a.wz", "x\n"⟩ : SourceFile)].length < 2 ^ 32 := by decide
  have hsize : "a\n\tb ?\n".utf8ByteSize ≤ 2 ^ 32 - 2 := by decide
  rcases files_do_not_interfere [⟨"a.wz", "x\n"⟩] ⟨"b.wz", "a\n\tb ?\n"⟩ hcount hsize with
    ⟨own, fileId, table, hown, hadd, hnumber, hlater⟩
  have hfails : (⟨"b.wz", "a\n\tb ?\n"⟩ : SourceFile).report.toOption.any
      (·.failure.isSome) = true := by
    decide +kernel
  have hsome : own.failure.isSome = true := by
    rw [hown] at hfails
    exact hfails
  have hone : fileId = 1 := UInt32.toNat_inj.1 hnumber
  rw [hone] at hadd hlater
  rcases (hlater [⟨"b.wz", "?"⟩]).2 with ⟨report, hreport, -, hfailure, hrendered⟩
  rw [← hfailure] at hsome
  exact ⟨hcount, hsize, own, table, report, hown, hadd, hreport, hsome, hrendered⟩

end Offside
