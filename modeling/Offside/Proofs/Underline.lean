import Offside.Proofs.LineTable

/-!
This module contains the printed form of a label at a token. The carets stand under the characters
of the token, in the line as it is shown, and there are as many of them.
-/

namespace Offside

/--
Whether the carets of an excerpt underline the text `body` of a span. In the source row this text
stands behind the bar and `before`, in the caret row the carets stand behind the bar and `indent`.
-/
structure Excerpt.Underlines (excerpt : Excerpt) (span : Span) (bar : Nat)
    (before body indent message : List Char) : Prop where
  source_bar : BarAt excerpt.source bar
  source_eq : ∃ after, excerpt.source.drop bar = '|' :: ' ' :: (before ++ body ++ after)
  length_before : before.length + 1 = span.start.column.toNat
  length_body : before.length + body.length + 1 = span.stop.column.toNat
  caret_bar : BarAt excerpt.caret bar
  caret_eq : excerpt.caret.drop bar =
    '|' :: ' ' :: (indent ++ (List.replicate body.length '^' ++ ' ' :: message))
  length_indent : indent.length + 1 = span.start.column.toNat
  indent_eq : ∀ i < indent.length, indent[i]? =
    some (if excerpt.source[bar + 2 + i]? = some '\t' then '\t' else ' ')

namespace SourceFile

theorem Covers.underlines {file : SourceFile} {label : Label} {before body after : List Char}
    (h : file.Covers label.span before body after) (name : String) :
    (label.excerpt name (before ++ body ++ after)).Underlines label.span (label.number.length + 2)
      before body (label.indent (before ++ body ++ after)) label.message.toList := by
  have hstart := h.start_eq
  have hstop := h.stop_eq
  rw [List.length_append] at hstop
  have hlength : (label.indent (before ++ body ++ after)).length = before.length := by
    unfold Label.indent Label.skipped
    rw [List.length_map, hstart, Nat.add_sub_cancel, List.append_assoc, List.take_left]
  have hcount : label.caretCount (before ++ body ++ after) = body.length := by
    have hpos := List.length_pos_iff.2 h.ne_nil
    unfold Label.caretCount
    dsimp only
    rw [if_pos h.line_eq]
    omega
  constructor
  . apply Label.bar_source
  . refine ⟨after, ?_⟩
    rw [Label.source_eq_append, List.drop_left' (by simp)]
  . exact hstart.symm
  . exact hstop.symm
  . apply Label.bar_caret
  . unfold Label.excerpt
    dsimp only
    rw [List.drop_left' List.length_replicate, hcount]
  . rw [hlength, hstart]
  . intro i hi
    exact label.indent_getElem? name hi

/--
A label at a token with content underlines exactly the text of the token, in whatever table the file
is found by the number with which it was read, and also if the reading fails on a later line.
-/
theorem content_underlined (files : FileTable) (file : SourceFile) (options : Options)
    (hfile : files.get? options.fileId = some file)
    (hsize : file.source.utf8ByteSize ≤ 2 ^ 32 - 2) :
    ∃ stream, TokenStream.ofSource file.source options = .ok stream ∧
      ∀ token ∈ stream.tokens, token.kind.isLayout = false →
        ∃ before body shown,
          Text.slice? file.source.toList token.span.start.offset.toNat
            token.span.stop.offset.toNat = some body ∧
          file.line? token.span.start.line = some shown ∧
          ∀ (diagnostic : Diagnostic) (message : String),
            diagnostic.labels = [⟨token.span, message⟩] →
            ∃ bar indent, ∃ excerpt : Excerpt,
              excerpt = (⟨token.span, message⟩ : Label).excerpt file.name shown ∧
              diagnostic.render files false =
                String.ofList ((diagnostic.headerRow.plain ::
                  (excerpt.rows ++ diagnostic.help.map fun help =>
                    (Diagnostic.helpRow help).plain)).flatMap (· ++ ['\n'])) ∧
              excerpt.Underlines token.span bar before body indent message.toList := by
  rcases @Run.exists_ofSource_eq_ok options file.source hsize with ⟨stream, hstream, -⟩
  refine ⟨stream, hstream, ?_⟩
  intro token hmem hlayout
  rcases exists_covers hsize hstream hmem hlayout with ⟨hfileId, before, body, after, hcovers⟩
  refine ⟨before, body, _, hcovers.slice?_eq, hcovers.line?_eq, ?_⟩
  intro diagnostic message hlabels
  rw [← hfileId] at hfile
  have hrows := @Label.plain_rows files file _ ⟨token.span, message⟩ diagnostic.severity.style hfile
    hcovers.line?_eq
  refine ⟨_, _, _, rfl, ?_, @Covers.underlines file ⟨token.span, message⟩ _ _ _ hcovers file.name⟩
  rw [Diagnostic.render_plain]
  unfold Diagnostic.rows
  rw [hlabels, List.map_cons, List.flatMap_singleton, List.map_append, hrows, List.map_map]
  rfl

/-- The carets stand under a string with a tab and a character of two bytes. -/
example : (⟨.error, none, "here", [⟨⟨⟨1, 2, 1⟩, ⟨1, 6, 6⟩, 0⟩, "text"⟩], []⟩ : Diagnostic).render
    ⟨#[⟨"main.wz", "\t\"ä\t\" x\r\r\n"⟩]⟩ false =
      "error: here\n --> main.wz:1:2\n   |\n 1 | \t\"ä\t\" x\n   | \t^^^^ text\n" := by
  decide +kernel

theorem content_underlined_before_failure :
    (⟨#[⟨"a.wz", "b"⟩, ⟨"main.wz", "\t\"ä\t\" x\r\r\n$"⟩]⟩ : FileTable).get? 1 =
      some ⟨"main.wz", "\t\"ä\t\" x\r\r\n$"⟩ ∧
    "\t\"ä\t\" x\r\r\n$".utf8ByteSize ≤ 2 ^ 32 - 2 ∧
    ∃ stream token, TokenStream.ofSource "\t\"ä\t\" x\r\r\n$" { fileId := 1 } = .ok stream ∧
      stream.failure ≠ none ∧ token ∈ stream.tokens ∧ token.kind = .string "ä\t" ∧
      ∃ before body shown bar indent,
        ((⟨token.span, "text"⟩ : Label).excerpt "main.wz" shown).Underlines token.span bar before
          body indent "text".toList := by
  have hfile : (⟨#[⟨"a.wz", "b"⟩, ⟨"main.wz", "\t\"ä\t\" x\r\r\n$"⟩]⟩ : FileTable).get? 1 =
      some ⟨"main.wz", "\t\"ä\t\" x\r\r\n$"⟩ := rfl
  have hsize : "\t\"ä\t\" x\r\r\n$".utf8ByteSize ≤ 2 ^ 32 - 2 := by decide
  have htokens : (TokenStream.ofSource "\t\"ä\t\" x\r\r\n$" { fileId := 1 }).toOption.all
      (fun stream => stream.failure ≠ none ∧
        ∃ token ∈ stream.tokens, token.kind = .string "ä\t") = true := by
    decide +kernel
  rcases content_underlined _ ⟨"main.wz", "\t\"ä\t\" x\r\r\n$"⟩ { fileId := 1 } hfile hsize with
    ⟨stream, hstream, hunderlined⟩
  rw [hstream] at htokens
  rcases of_decide_eq_true htokens with ⟨hfailure, token, hmem, hkind⟩
  rcases hunderlined token hmem (by rw [hkind]; rfl) with ⟨before, body, shown, -, -, hrender⟩
  rcases hrender ⟨.error, none, "here", [⟨token.span, "text"⟩], []⟩ "text" rfl with
    ⟨bar, indent, excerpt, rfl, -, hunderlines⟩
  exact ⟨hfile, hsize, stream, token, hstream, hfailure, hmem, hkind, before, body, shown, bar,
    indent, hunderlines⟩

end SourceFile

end Offside
