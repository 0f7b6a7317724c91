import Offside.FileReport
import Offside.Proofs.Culprit
import Offside.Proofs.Outlook
import Offside.Proofs.SourceLine
import Offside.Proofs.Tiling

/-!
This module contains the printed form of an error. It is made of six rows, and the caret in one of
them stands under the character that is at fault.
-/

namespace Offside

structure Printout where
  header : List Char
  location : List Char
  gutter : List Char
  source : List Char
  caret : List Char
  help : List Char

namespace Printout

def rows (printout : Printout) : List (List Char) :=
  [printout.header, printout.location, printout.gutter, printout.source, printout.caret,
    printout.help]

def text (printout : Printout) : String :=
  String.ofList (printout.rows.flatMap (· ++ ['\n']))

end Printout

namespace LexicalError

def number (error : LexicalError) : List Char :=
  error.line.toNat.repr.toList

def indent (error : LexicalError) (shown : List Char) : List Char :=
  (shown.take (error.column.toNat - 1)).map fun c => if c = '\t' then '\t' else ' '

def printout (error : LexicalError) (name : String) (shown : List Char) : Printout :=
  let blank := List.replicate (error.number.length + 2) ' '
  { header := "error[".toList ++ error.kind.code.text.toList ++ "]: ".toList ++ error.message.toList
    location := " --> ".toList ++ name.toList ++ ':' :: (error.number ++
      ':' :: error.column.toNat.repr.toList)
    gutter := blank ++ ['|']
    source := ' ' :: (error.number ++ ' ' :: '|' :: ' ' :: shown)
    caret := blank ++ '|' :: ' ' :: (error.indent shown ++ '^' :: ' ' :: error.kind.text.toList)
    help := "   = help: ".toList ++ error.kind.help.toList }

def label (error : LexicalError) (column fileId : UInt32) : Label :=
  ⟨⟨⟨error.line, error.column, 0⟩, ⟨error.line, column, 0⟩, fileId⟩, error.kind.text⟩

def explanation (error : LexicalError) (column fileId : UInt32) : Diagnostic :=
  ⟨.error, some error.kind.code, error.message, [error.label column fileId], [error.kind.help]⟩

theorem diagnostic_of_lt {error : LexicalError} (h : error.column.toNat + 1 < 2 ^ 32)
    (fileId : UInt32) :
    ∃ column : UInt32, column.toNat = error.column.toNat + 1 ∧
      error.diagnostic fileId = .ok (error.explanation column fileId) := by
  rcases Word.add32_toUInt32 h with ⟨column, hadd, hcolumn⟩
  refine ⟨column, hcolumn, ?_⟩
  unfold diagnostic
  rw [show (1 : UInt32) = Nat.toUInt32 1 from rfl, hadd]
  rfl

end LexicalError

def Row.plain (row : Row) : List Char :=
  row.flatMap (Chunk.print false)

namespace Row

@[simp]
theorem plain_nil : plain [] = [] := rfl

@[simp]
theorem plain_text (content : String) (row : Row) :
    plain (.text content :: row) = content.toList ++ plain row :=
  List.flatMap_cons

@[simp]
theorem plain_style (mode : Style) (row : Row) : plain (.style mode :: row) = plain row := by
  unfold plain
  rw [List.flatMap_cons]
  rfl

@[simp]
theorem plain_append (lhs rhs : Row) : plain (lhs ++ rhs) = plain lhs ++ plain rhs :=
  List.flatMap_append

end Row

theorem Diagnostic.render_plain (diagnostic : Diagnostic) (files : FileTable) :
    diagnostic.render files false =
      String.ofList (((diagnostic.rows files).map Row.plain).flatMap (· ++ ['\n'])) := by
  rw [List.flatMap_map]
  rfl

def BarAt (row : List Char) (bar : Nat) : Prop :=
  ∃ front back, row = front ++ '|' :: back ∧ front.length = bar ∧ '|' ∉ front

structure Excerpt where
  location : List Char
  gutter : List Char
  source : List Char
  caret : List Char

def Excerpt.rows (excerpt : Excerpt) : List (List Char) :=
  [excerpt.location, excerpt.gutter, excerpt.source, excerpt.caret]

namespace Label

def number (label : Label) : List Char :=
  label.span.start.line.toNat.repr.toList

def excerpt (label : Label) (name : String) (shown : List Char) : Excerpt :=
  let blank := List.replicate (label.number.length + 2) ' '
  { location := " --> ".toList ++ name.toList ++ ':' :: (label.number ++
      ':' :: label.span.start.column.toNat.repr.toList)
    gutter := blank ++ ['|']
    source := ' ' :: (label.number ++ ' ' :: '|' :: ' ' :: shown)
    caret := blank ++ '|' :: ' ' :: (label.indent shown ++
      (List.replicate (label.caretCount shown) '^' ++ ' ' :: label.message.toList)) }

variable {files : FileTable} {file : SourceFile} {shown : List Char} (label : Label)

theorem plain_locationRow (file : SourceFile) (shown : List Char) :
    Row.plain (label.locationRow file) = (label.excerpt file.name shown).location := by
  unfold locationRow excerpt number
  simp [-Nat.toList_repr]

theorem plain_gutterRow (name : String) (shown : List Char) :
    Row.plain label.gutterRow = (label.excerpt name shown).gutter := by
  unfold gutterRow padding excerpt number
  rw [String.length_toList, List.replicate_succ, List.replicate_succ']
  simp

theorem plain_sourceRow (name : String) (shown : List Char) :
    Row.plain (label.sourceRow shown) = (label.excerpt name shown).source := by
  unfold sourceRow excerpt number
  simp [-Nat.toList_repr]

theorem plain_caretRow (style : Style) (name : String) (shown : List Char) :
    Row.plain (label.caretRow style shown) = (label.excerpt name shown).caret := by
  unfold caretRow
  rw [Row.plain_append, plain_gutterRow label name shown]
  unfold excerpt
  simp

theorem plain_rows (style : Style) (hfile : files.get? label.span.fileId = some file)
    (hshown : file.line? label.span.start.line = some shown) :
    (label.rows files style).map Row.plain = (label.excerpt file.name shown).rows := by
  unfold rows
  rw [hfile]
  dsimp only
  rw [hshown]
  simp only [List.map_cons, List.map_nil, plain_locationRow label file shown,
    plain_gutterRow label file.name shown, plain_sourceRow label file.name shown,
    plain_caretRow label style file.name shown]
  rfl

variable (name : String) (shown : List Char)

theorem source_eq_append : (label.excerpt name shown).source =
    (' ' :: (label.number ++ [' '])) ++ '|' :: ' ' :: shown := by
  unfold excerpt
  simp

theorem bar_source : BarAt (label.excerpt name shown).source (label.number.length + 2) := by
  have hbar : '|' ∉ label.number := not_mem_toList_repr (by decide) _
  exact ⟨_, _, label.source_eq_append name shown, by simp, by simp [hbar]⟩

theorem bar_caret : BarAt (label.excerpt name shown).caret (label.number.length + 2) :=
  ⟨_, _, rfl, List.length_replicate, by simp [List.mem_replicate]⟩

theorem source_getElem? (i : Nat) :
    (label.excerpt name shown).source[label.number.length + 2 + 2 + i]? = shown[i]? := by
  have hsource : (label.excerpt name shown).source =
      (' ' :: (label.number ++ [' ', '|', ' '])) ++ shown := by
    unfold excerpt
    simp
  rw [hsource, List.getElem?_append_right (by simp)]
  congr 1
  simp

variable {shown}

theorem mem_indent {c : Char} (hmem : c ∈ label.indent shown) : c = '\t' ∨ c = ' ' := by
  unfold indent at hmem
  rw [List.mem_map] at hmem
  rcases hmem with ⟨d, -, hd⟩
  split at hd
  . exact .inl hd.symm
  . exact .inr hd.symm

theorem indent_getElem? {i : Nat} (hi : i < (label.indent shown).length) :
    (label.indent shown)[i]? = some (if (label.excerpt name shown).source[
      label.number.length + 2 + 2 + i]? = some '\t' then '\t' else ' ') := by
  unfold indent at hi ⊢
  rw [List.length_map, List.length_take] at hi
  have hshown : i < shown.length := by omega
  rw [source_getElem?, List.getElem?_map, List.getElem?_take_of_lt (by omega),
    List.getElem?_eq_getElem hshown]
  simp

end Label

namespace LexicalError

variable {error : LexicalError} {shown : List Char} {file : SourceFile}

theorem plain_headerRow (name : String) (shown : List Char) {diagnostic : Diagnostic}
    (hcode : diagnostic.code = some error.kind.code)
    (hmessage : diagnostic.message = error.message) :
    Row.plain diagnostic.headerRow = (error.printout name shown).header := by
  unfold Diagnostic.headerRow printout
  cases diagnostic.severity
  simp [hcode, hmessage, Severity.text]

theorem plain_helpRow (name : String) (shown : List Char) :
    Row.plain (Diagnostic.helpRow error.kind.help) = (error.printout name shown).help := by
  unfold Diagnostic.helpRow printout
  simp

theorem render_explanation {column : UInt32} (hcolumn : column.toNat = error.column.toNat + 1)
    (hshown : file.line? error.line = some shown) :
    (error.explanation column 0).render ⟨#[file]⟩ false =
      (error.printout file.name shown).text := by
  -- The label covers one column.
  have hcount : (error.label column 0).caretCount shown = 1 := by
    unfold Label.caretCount label
    dsimp only
    rw [if_pos rfl, hcolumn, Nat.add_sub_cancel_left]
    rfl
  have hlabel := @Label.plain_rows ⟨#[file]⟩ file shown (error.label column 0) .alert rfl hshown
  have hheader := @plain_headerRow error file.name shown (error.explanation column 0) rfl rfl
  unfold Label.excerpt at hlabel
  rw [hcount] at hlabel
  unfold Printout.text Printout.rows
  rw [Diagnostic.render_plain]
  unfold Diagnostic.rows
  rw [List.map_cons, hheader, List.map_append]
  unfold explanation
  dsimp only [Severity.style]
  rw [List.flatMap_singleton, hlabel, List.map_singleton, List.map_singleton,
    plain_helpRow file.name shown]
  rfl

theorem exists_render_eq (hcolumn : error.column.toNat + 1 < 2 ^ 32)
    (hshown : file.line? error.line = some shown) :
    ∃ diagnostic, error.diagnostic 0 = .ok diagnostic ∧
      diagnostic.render ⟨#[file]⟩ false = (error.printout file.name shown).text := by
  rcases diagnostic_of_lt hcolumn 0 with ⟨column, hnext, hdiagnostic⟩
  exact ⟨_, hdiagnostic, render_explanation hnext hshown⟩

end LexicalError

/--
Whether the only caret of a printout is in the given column of the text behind its bar, and under
the character `c` of the shown line or right behind the line. The text before the caret is `indent`.
-/
structure Printout.Points (printout : Printout) (column bar : Nat) (indent : List Char) (c : Char) :
    Prop where
  gutter_bar : BarAt printout.gutter bar
  source_bar : BarAt printout.source bar
  caret_bar : BarAt printout.caret bar
  count_caret : printout.caret.count '^' = 1
  caret_eq : ∃ after, printout.caret.drop bar = '|' :: ' ' :: (indent ++ '^' :: after)
  length_indent : indent.length + 1 = column
  indent_eq : ∀ i < indent.length, indent[i]? =
    some (if printout.source[bar + 2 + i]? = some '\t' then '\t' else ' ')
  under : printout.source[bar + 2 + indent.length]? = some c ∨
    (c = '\r' ∧ printout.source.length = bar + 2 + indent.length)

theorem Text.trimReturns_cases {text before after : List Char} {c : Char}
    (h : text = before ++ c :: after) (hreturn : c = '\r' → '\r' ∉ before) :
    (∃ tail, trimReturns text = before ++ c :: tail) ∨ (c = '\r' ∧ trimReturns text = before) := by
  rcases eq_trimReturns_append text with ⟨count, htext⟩
  rw [h] at htext
  rcases split_cases htext.symm with htail | ⟨init, hinit, hreturns⟩
  . rw [h]
    exact .inl htail
  . -- The character is among those that are cut off.
    have hc : c = '\r' := by
      apply List.eq_of_mem_replicate (n := count)
      rw [hreturns]
      simp
    have hnil : init = [] := by
      rw [List.eq_nil_iff_forall_not_mem]
      intro d hmem
      have hd : d = '\r' := by
        apply List.eq_of_mem_replicate (n := count)
        rw [hreturns]
        simp [hmem]
      apply hreturn hc
      rw [hinit, ← hd]
      exact List.mem_append_right _ hmem
    rw [hnil, List.append_nil] at hinit
    rw [h]
    exact .inr ⟨hc, hinit.symm⟩

theorem LexicalError.Blames.trimReturns_cases {error : LexicalError} {text before : List Char}
    {c : Char} (h : error.Blames text before c) :
    (∃ tail, Text.trimReturns text = before ++ c :: tail) ∨
      (c = '\r' ∧ Text.trimReturns text = before) := by
  rcases h with ⟨after, htext, -, hculprit⟩
  apply Text.trimReturns_cases htext
  rintro rfl
  exact hculprit.no_return_before

namespace LexicalError

variable {error : LexicalError} {shown before : List Char} {c : Char} {name : String}

theorem points_printout
    (h : (∃ tail, shown = before ++ c :: tail) ∨ (c = '\r' ∧ shown = before))
    (hcolumn : error.column.toNat = before.length + 1) :
    (error.printout name shown).Points error.column.toNat (error.number.length + 2)
      (error.indent shown) c := by
  have htake : shown.take before.length = before := by
    rcases h with ⟨tail, rfl⟩ | ⟨-, rfl⟩
    . exact List.take_left
    . exact List.take_length
  have hlength : (error.indent shown).length = before.length := by
    unfold indent
    rw [List.length_map, hcolumn, Nat.add_sub_cancel, htake]
  constructor
  . exact ⟨_, [], rfl, List.length_replicate, by simp [List.mem_replicate]⟩
  . exact (error.label 0 0).bar_source name shown
  . exact ⟨_, _, rfl, List.length_replicate, by simp [List.mem_replicate]⟩
  . have hblank : (error.indent shown).count '^' = 0 := by
      rw [List.count_eq_zero]
      intro hmem
      rcases (error.label 0 0).mem_indent hmem with heq | heq <;> contradiction
    have hkind : error.kind.text.toList.count '^' = 0 := by
      cases error.kind <;> decide +kernel
    unfold printout
    simp [List.count_replicate, hblank, hkind]
  . refine ⟨' ' :: error.kind.text.toList, ?_⟩
    unfold printout
    dsimp only
    rw [List.drop_left' List.length_replicate]
  . rw [hlength, hcolumn]
  . intro i hi
    exact (error.label 0 0).indent_getElem? name hi
  . have hsource := (error.label 0 0).source_getElem? name shown before.length
    rw [hlength]
    rcases h with ⟨tail, rfl⟩ | ⟨hc, rfl⟩
    . left
      apply hsource.trans
      simp
    . refine .inr ⟨hc, ?_⟩
      unfold printout
      simp
      omega

theorem no_feed_printout (hname : '\n' ∉ name.toList) (hmessage : '\n' ∉ error.message.toList)
    (hshown : '\n' ∉ shown) : ∀ row ∈ (error.printout name shown).rows, '\n' ∉ row := by
  have hnumber (n : Nat) : '\n' ∉ n.repr.toList := not_mem_toList_repr (by decide) n
  have hindent : '\n' ∉ error.indent shown := by
    intro hmem
    rcases (error.label 0 0).mem_indent hmem with heq | heq <;> contradiction
  have hcode : '\n' ∉ error.kind.code.text.toList := by
    cases error.kind <;> decide +kernel
  have hkind : '\n' ∉ error.kind.text.toList := by
    cases error.kind <;> decide +kernel
  have hhelp : '\n' ∉ error.kind.help.toList := by
    cases error.kind <;> decide +kernel
  unfold Printout.rows printout number
  simp [hname, hmessage, hshown, hnumber, hindent, hcode, hkind, hhelp, -Nat.toList_repr]

end LexicalError

namespace FileReport

variable {files : FileTable} {source : String} {options : Options} {colors : Bool}
  {stream : TokenStream}

theorem ofSource_of_failure_eq_none (hstream : TokenStream.ofSource source options = .ok stream)
    (hfailure : stream.failure = none) :
    ofSource files source options colors = .ok ⟨stream.tokens, none, none⟩ := by
  unfold ofSource
  rw [hstream]
  dsimp only [bind, Except.bind]
  rw [hfailure]
  rfl

theorem ofSource_of_failure_eq_some {error : LexicalError} {diagnostic : Diagnostic}
    (hstream : TokenStream.ofSource source options = .ok stream)
    (hfailure : stream.failure = some error)
    (hdiagnostic : error.diagnostic options.fileId = .ok diagnostic) :
    ofSource files source options colors =
      .ok ⟨stream.tokens, some error, some (diagnostic.render files colors)⟩ := by
  unfold ofSource
  rw [hstream]
  dsimp only [bind, Except.bind]
  rw [hfailure]
  dsimp only
  rw [hdiagnostic]
  rfl

end FileReport

namespace SourceFile

/--
Whether a text explains an error of a file. It has six rows, which show the line of the error
without the carriage returns at its end, and the only caret stands under the character at fault, or
right behind the shown line if that character is one of the carriage returns.
-/
def Explains (file : SourceFile) (error : LexicalError) (rendered : String) : Prop :=
  ∃ front line back before c shown indent,
    Line.ofText file.source.toList = front ++ line :: back ∧
    error.line.toNat = front.length + 1 ∧
    error.Blames line.text before c ∧
    line.IsShownAs shown ∧
    rendered = (error.printout file.name shown).text ∧
    (∀ row ∈ (error.printout file.name shown).rows, '\n' ∉ row) ∧
    (error.printout file.name shown).Points error.column.toNat (error.number.length + 2) indent c

/--
The printed form of an error that is found in a file explains it.
-/
theorem report_explains (file : SourceFile) (hname : '\n' ∉ file.name.toList)
    (hsize : file.source.utf8ByteSize ≤ 2 ^ 32 - 2) :
    ∃ report, file.report = .ok report ∧ ∀ error, report.failure = some error →
      ∃ rendered, report.rendered = some rendered ∧ file.Explains error rendered := by
  rcases @Run.exists_ofSource_eq_ok {} file.source hsize with ⟨stream, hstream, -⟩
  cases hfailure : stream.failure with
  | none =>
    refine ⟨_, FileReport.ofSource_of_failure_eq_none hstream hfailure, ?_⟩
    intro error herror
    contradiction
  | some error =>
    rcases TokenStream.blames hsize hstream hfailure with
      ⟨front, line, back, hlines, hnumber, before, c, hblames⟩
    have hbetween := Line.between_of_ofText hlines
    have hshown := line?_eq_some hlines hnumber
    have hroom : error.column.toNat + 1 < 2 ^ 32 := by
      have hbytes := (Line.inRange_ofSource hsize).bytes_le
      have htext := Line.byteSize_text_le line
      have hlength := Text.length_le_byteSize line.text
      have hcolumn := hblames.column_le_length
      rw [hlines, Line.bytes_append, Line.bytes_cons] at hbytes
      omega
    rcases LexicalError.exists_render_eq hroom hshown with ⟨diagnostic, hdiagnostic, hrender⟩
    refine ⟨_, FileReport.ofSource_of_failure_eq_some hstream hfailure hdiagnostic, ?_⟩
    intro other hother
    rw [← Option.some.inj hother]
    have hmessage := hblames.no_feed_message hbetween.no_feed
    have htrimmed : '\n' ∉ Text.trimReturns line.text := fun hmem =>
      hbetween.no_feed ((Text.trimReturns_prefix line.text).subset hmem)
    exact ⟨_, rfl, front, line, back, before, c, Text.trimReturns line.text, _, hlines, hnumber,
      hblames, hbetween.isShownAs, hrender,
      LexicalError.no_feed_printout hname hmessage htrimmed,
      LexicalError.points_printout hblames.trimReturns_cases hblames.column_eq⟩

/-- The caret row keeps the tab of the line. -/
example : (⟨"main.wz", "a\n\tb ?\r\n"⟩ : SourceFile).report.toOption.bind (·.rendered) =
    some ("error[EL003]: unexpected character '?'\n --> main.wz:2:4\n   |\n 2 | \tb ?\n" ++
      "   | \t  ^ invalid token\n   = help: remove or replace the unrecognized text\n") := by
  decide +kernel

theorem report_explains_return :
    '\n' ∉ "main.wz".toList ∧ "\t\ta\n\t\r\r\n".utf8ByteSize ≤ 2 ^ 32 - 2 ∧
    ∃ report error rendered, (⟨"main.wz", "\t\ta\n\t\r\r\n"⟩ : SourceFile).report = .ok report ∧
      report.failure = some error ∧ report.rendered = some rendered ∧
      (⟨"main.wz", "\t\ta\n\t\r\r\n"⟩ : SourceFile).Explains error rendered := by
  have hname : '\n' ∉ "main.wz".toList := by decide
  have hsize : "\t\ta\n\t\r\r\n".utf8ByteSize ≤ 2 ^ 32 - 2 := by decide
  have hfails : (⟨"main.wz", "\t\ta\n\t\r\r\n"⟩ : SourceFile).report.toOption.any
      (·.failure.isSome) = true := by
    decide +kernel
  rcases report_explains ⟨"main.wz", "\t\ta\n\t\r\r\n"⟩ hname hsize with
    ⟨report, hreport, hexplains⟩
  rw [hreport] at hfails
  rcases Option.isSome_iff_exists.1 hfails with ⟨error, hfailure⟩
  rcases hexplains error hfailure with ⟨rendered, hrendered, hexplained⟩
  exact ⟨hname, hsize, report, error, rendered, hreport, hfailure, hrendered, hexplained⟩

end SourceFile

end Offside
