import Offside.Proofs.Rows

/-!
This module contains the printed form of labels whose spans can be anything. Each label is printed
on its own, and its carets start under its first column and stay in line with the source, also if
the span is outside of the line, ends before it starts or ends on another line.
-/

namespace Offside

/--
Whether an excerpt marks a label in a line that is shown as `shown`. The caret row has `indent` and
then `carets` carets behind the bar, where the source row has the line.
-/
structure Excerpt.Marks (excerpt : Excerpt) (label : Label) (shown indent : List Char)
    (carets : Nat) : Prop where
  source_eq : excerpt.source = ' ' :: (label.number ++ ' ' :: '|' :: ' ' :: shown)
  caret_eq : excerpt.caret = List.replicate (label.number.length + 2) ' ' ++
    '|' :: ' ' :: (indent ++ (List.replicate carets '^' ++ ' ' :: label.message.toList))
  length_indent :
    indent.length = min shown.length (max label.span.start.column.toNat 1 - 1)
  indent_eq : ∀ i < indent.length, indent[i]? =
    some (if shown[i]? = some '\t' then '\t' else ' ')
  pos : 1 ≤ carets
  same_line : label.span.start.line = label.span.stop.line →
    carets = max 1 (label.span.stop.column.toNat - label.span.start.column.toNat)
  up_to_end : label.span.start.line ≠ label.span.stop.line →
    max label.span.start.column.toNat 1 - 1 < shown.length → indent.length + carets = shown.length
  past_end : label.span.start.line ≠ label.span.stop.line →
    shown.length ≤ max label.span.start.column.toNat 1 - 1 → carets = 1

/--
The rows in which a label is printed: none if its file is unknown, the place alone if its file does
not have the line in which it starts, and otherwise an excerpt of this line that marks the label.
-/
inductive Label.Prints (files : FileTable) (label : Label) : List (List Char) → Prop where
  | unknown :
    files.get? label.span.fileId = none →
    Prints files label []
  | outside {file : SourceFile} :
    files.get? label.span.fileId = some file →
    label.span.start.line = 0 ∨
      1 + file.source.toList.count '\n' < label.span.start.line.toNat →
    Prints files label [(label.excerpt file.name []).location]
  | inside {file : SourceFile} {piece shown indent : List Char} {carets : Nat} :
    files.get? label.span.fileId = some file →
    label.span.start.line ≠ 0 →
    (file.source.toList.splitOn '\n')[label.span.start.line.toNat - 1]? = some piece →
    Text.TrimsTo piece shown →
    (label.excerpt file.name shown).Marks label shown indent carets →
    Prints files label (label.excerpt file.name shown).rows

namespace Label

variable (label : Label)

theorem marks_excerpt (name : String) (shown : List Char) :
    (label.excerpt name shown).Marks label shown (label.indent shown)
      (label.caretCount shown) := by
  have hlength : (label.indent shown).length =
      min shown.length (max label.span.start.column.toNat 1 - 1) := by
    unfold indent skipped
    rw [List.length_map, List.length_take]
    omega
  constructor
  . rfl
  . rfl
  . exact hlength
  . intro i hi
    rw [label.indent_getElem? name hi, source_getElem?]
  . unfold caretCount
    dsimp only
    split <;> omega
  . intro hline
    unfold caretCount
    dsimp only
    rw [if_pos hline, Nat.max_comm]
  . intro hline hlt
    unfold caretCount skipped
    dsimp only
    rw [if_neg hline, hlength]
    omega
  . intro hline hle
    unfold caretCount skipped
    dsimp only
    rw [if_neg hline]
    omega

theorem prints_rows (files : FileTable) (style : Style) :
    label.Prints files ((label.rows files style).map Row.plain) := by
  cases hfile : files.get? label.span.fileId with
  | none =>
    rw [rows_of_no_file label style hfile]
    exact .unknown hfile
  | some file =>
    cases hline : file.line? label.span.start.line with
    | none =>
      rw [plain_rows_of_no_line label style hfile hline]
      exact .outside hfile (SourceFile.line?_eq_none_iff.1 hline)
    | some shown =>
      rcases SourceFile.exists_piece_of_line? hline with ⟨piece, hpos, hpiece, -, rfl⟩
      rw [plain_rows label style hfile hline]
      exact .inside hfile hpos hpiece (Text.trimsTo_trimReturns piece)
        (label.marks_excerpt file.name _)

theorem no_feed_texts {files : FileTable} (hmessage : '\n' ∉ label.message.toList)
    (hname : ∀ file, files.get? label.span.fileId = some file → '\n' ∉ file.name.toList) :
    ∀ text ∈ label.texts files, '\n' ∉ text := by
  unfold texts
  split
  . exact List.forall_mem_nil _
  next file hfile =>
    split
    . rw [List.forall_mem_singleton]
      exact hname file hfile
    next shown hline =>
      -- The line that is shown is a piece between two line feeds.
      rcases SourceFile.exists_piece_of_line? hline with ⟨piece, -, -, hpiece, rfl⟩
      have hshown : '\n' ∉ Text.trimReturns piece := fun hmem =>
        hpiece ((Text.trimReturns_prefix piece).subset hmem)
      simp only [List.forall_mem_cons]
      exact ⟨hname file hfile, hshown, hmessage, List.forall_mem_nil _⟩

end Label

/--
Whatever the spans of labels, each label has rows of its own, which mark it as `Label.Prints` tells.
A diagnostic is printed in its header, the rows of its labels in their order and its help, and each
row is one line if the texts in it are. Nothing is cut out of a source where it cannot be cut.
-/
theorem FileTable.labels_are_marked (files : FileTable) :
    ∃ block : Label → List Row,
      (∀ label : Label, label.Prints files ((block label).map Row.plain)) ∧
      (∀ (diagnostic : Diagnostic) (colors : Bool), diagnostic.render files colors =
        String.ofList ((diagnostic.headerRow :: (diagnostic.labels.flatMap block ++
          diagnostic.help.map Diagnostic.helpRow)).flatMap (Row.print colors))) ∧
      (∀ label : Label, '\n' ∉ label.message.toList →
        (∀ file, files.get? label.span.fileId = some file → '\n' ∉ file.name.toList) →
        ∀ row ∈ block label, ∀ colors, (row.print colors).count '\n' = 1) ∧
      (∀ diagnostic : Diagnostic, '\n' ∉ diagnostic.message.toList →
        (∀ code, diagnostic.code = some code → '\n' ≠ code.category) →
        ∀ colors, (diagnostic.headerRow.print colors).count '\n' = 1) ∧
      ∀ (label : Label) file start stop, files.get? label.span.fileId = some file →
        file.lineRange? label.span.start.line = some (start, stop) →
        Text.Sliceable file.source.toList start stop := by
  refine ⟨fun label => label.rows files .alert, ?_, ?_, ?_, ?_, ?_⟩
  . intro label
    exact label.prints_rows files .alert
  . intro diagnostic colors
    unfold Diagnostic.render Diagnostic.rows
    cases diagnostic.severity
    rfl
  . intro label hmessage hname row hmem
    apply Row.count_feed_print
    exact label.not_mem_rows .alert (.inl rfl) (label.no_feed_texts hmessage hname) row hmem
  . intro diagnostic hmessage hcode
    apply Row.count_feed_print
    exact Diagnostic.not_mem_headerRow (.inl rfl) hmessage hcode
  . intro label file start stop _ hrange
    exact SourceFile.sliceable_of_lineRange? hrange

/-- A span that ends before it starts, one behind its line, and two that are not shown. -/
example : (⟨.error, none, "here", [⟨⟨⟨1, 3, 9⟩, ⟨1, 0, 0⟩, 0⟩, "a"⟩,
    ⟨⟨⟨1, 9, 0⟩, ⟨2, 1, 0⟩, 0⟩, "b"⟩, ⟨⟨⟨7, 1, 0⟩, ⟨7, 2, 0⟩, 0⟩, "c"⟩,
    ⟨⟨⟨1, 1, 0⟩, ⟨1, 2, 0⟩, 1⟩, "d"⟩], []⟩ : Diagnostic).render
      ⟨#[⟨"main.wz", "\tä x\r\n"⟩]⟩ false =
    "error: here\n --> main.wz:1:3\n   |\n 1 | \tä x\n   | \t ^ a\n" ++
      " --> main.wz:1:9\n   |\n 1 | \tä x\n   | \t   ^ b\n --> main.wz:7:1\n" := by
  decide +kernel

end Offside
