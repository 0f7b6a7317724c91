import Offside.Proofs.Nesting
import Offside.Proofs.Pointer
import Offside.Proofs.Print
import Offside.Proofs.Spans

/-!
This module contains the agreement between the lines that a source file finds by their numbers and
the lines that a tokenizer reads. Both come to the same texts as long as no line has a carriage
return left after its ending was taken off.
-/

namespace Offside

namespace Text

theorem trimReturns_eq_self_iff {text : List Char} :
    trimReturns text = text ↔ text.getLast? ≠ some '\r' := by
  constructor
  . intro h
    rw [← h]
    exact getLast?_trimReturns_ne text
  . intro hlast
    rcases eq_trimReturns_append text with ⟨count, htext⟩
    cases count with
    | zero =>
      rw [List.replicate_zero, List.append_nil] at htext
      exact htext.symm
    | succ count =>
      rw [htext, List.replicate_succ', ← List.append_assoc, List.getLast?_concat] at hlast
      contradiction

theorem length_le_trimReturns {front back : List Char} (hlast : front.getLast? ≠ some '\r') :
    front.length ≤ (trimReturns (front ++ back)).length := by
  rcases eq_trimReturns_append (front ++ back) with ⟨count, htext⟩
  rw [List.append_eq_append_iff] at htext
  rcases htext with ⟨rest, htrim, -⟩ | ⟨returns, hfront, hreturns⟩
  . rw [htrim, List.length_append]
    omega
  . -- Everything behind what is left is a carriage return.
    have hall : ∀ c ∈ returns, c = '\r' := by
      intro c hmem
      apply List.eq_of_mem_replicate (n := count)
      rw [hreturns]
      exact List.mem_append_left back hmem
    cases hreturn : returns.getLast? with
    | none =>
      rw [List.getLast?_eq_none_iff] at hreturn
      rw [hreturn, List.append_nil] at hfront
      rw [← hfront]
    | some c =>
      rw [hfront, List.getLast?_append, hreturn, hall c (List.mem_of_getLast? hreturn)] at hlast
      contradiction

end Text

theorem TokenKind.Spells.no_return {kind : TokenKind} {text : List Char} (h : kind.Spells text)
    (hlayout : kind.isLayout = false) (hspelled : kind.WellSpelled) :
    text.getLast? ≠ some '\r' := by
  cases kind with
  | int value =>
    intro hlast
    have hdigit := h.2.1 _ (List.mem_of_getLast? hlast)
    contradiction
  | _ =>
    rw [h]
    exact (printable_text hlayout hspelled).no_return

def Position.LiesIn (pos : Position) (front : List Line) (line : Line) : Prop :=
  ∃ before after, line.text = before ++ after ∧ pos.After (front.flatMap Line.chars ++ before)

theorem Position.After.line_column {pos : Position} {front : List Line} {before : List Char}
    (h : pos.After (front.flatMap Line.chars ++ before)) (hfront : ∀ line ∈ front, line.Ended)
    (hfeed : '\n' ∉ before) :
    pos.line.toNat = front.length + 1 ∧ pos.column.toNat = before.length + 1 := by
  constructor
  . rw [h.line_eq, List.count_append, Line.count_feed_flatMap_chars hfront,
      List.count_eq_zero.2 hfeed, Nat.add_zero, Nat.add_comm]
  . rw [h.column_eq, Text.lastLine_append hfeed, Line.lastLine_flatMap_chars hfront,
      List.nil_append, Nat.add_comm]

namespace SourceFile

def Shows (file : SourceFile) (line column : UInt32) : Prop :=
  ∃ shown, file.line? line = some shown ∧ 1 ≤ column.toNat ∧ column.toNat - 1 ≤ shown.length

def ShowsSpan (file : SourceFile) (span : Span) : Prop :=
  file.Shows span.start.line span.start.column ∧ file.Shows span.stop.line span.stop.column

structure Covers (file : SourceFile) (span : Span) (before body after : List Char) :
    Prop where
  line?_eq : file.line? span.start.line = some (before ++ body ++ after)
  line_eq : span.start.line = span.stop.line
  start_eq : span.start.column.toNat = before.length + 1
  stop_eq : span.stop.column.toNat = (before ++ body).length + 1
  slice?_eq : Text.slice? file.source.toList span.start.offset.toNat span.stop.offset.toNat =
    some body
  ne_nil : body ≠ []

variable {file : SourceFile} {front back : List Line} {line : Line} {number : UInt32}

theorem line?_eq_text_iff (h : Line.ofText file.source.toList = front ++ line :: back)
    (hnumber : number.toNat = front.length + 1) :
    file.line? number = some line.text ↔ line.text.getLast? ≠ some '\r' := by
  rw [line?_eq_some h hnumber, Option.some.injEq, Text.trimReturns_eq_self_iff]

theorem shows_of_length_le {column : UInt32} {before : List Char}
    (h : Line.ofText file.source.toList = front ++ line :: back)
    (hnumber : number.toNat = front.length + 1) (hcolumn : column.toNat = before.length + 1)
    (hlength : before.length ≤ (Text.trimReturns line.text).length) : file.Shows number column := by
  refine ⟨_, line?_eq_some h hnumber, ?_, ?_⟩
  . rw [hcolumn]
    omega
  . rw [hcolumn, Nat.add_sub_cancel]
    exact hlength

theorem shows_failure {options : Options} {stream : TokenStream} {error : LexicalError}
    (hsize : file.source.utf8ByteSize ≤ 2 ^ 32 - 2)
    (hstream : TokenStream.ofSource file.source options = .ok stream)
    (hfailure : stream.failure = some error) : file.Shows error.line error.column := by
  -- The character at fault may itself be a carriage return that is not shown.
  rcases TokenStream.blames hsize hstream hfailure with
    ⟨front, line, back, hlines, hnumber, before, c, hblames⟩
  apply shows_of_length_le hlines hnumber hblames.column_eq
  rcases hblames.trimReturns_cases with ⟨tail, htrim⟩ | ⟨-, htrim⟩
  . rw [htrim, List.length_append]
    omega
  . rw [htrim]

theorem shows_of_after {pos : Position} {before after : List Char}
    (h : Line.ofText file.source.toList = front ++ line :: back) (htext : line.text = before ++ after)
    (hpos : pos.After (front.flatMap Line.chars ++ before))
    (hlength : before.length ≤ (Text.trimReturns line.text).length) :
    file.Shows pos.line pos.column := by
  have hbetween := Line.between_of_ofText h
  have hfeed := hbetween.no_feed
  rw [htext, List.mem_append, not_or] at hfeed
  rcases hpos.line_column hbetween.ended hfeed.1 with ⟨hnumber, hcolumn⟩
  exact shows_of_length_le h hnumber hcolumn hlength

theorem shows_of_liesIn {pos : Position}
    (h : Line.ofText file.source.toList = front ++ line :: back)
    (hlast : line.text.getLast? ≠ some '\r') (hpos : pos.LiesIn front line) :
    file.Shows pos.line pos.column := by
  rcases hpos with ⟨before, after, htext, hafter⟩
  apply shows_of_after h htext hafter
  rw [Text.trimReturns_eq_self_iff.2 hlast, htext, List.length_append]
  omega

theorem shows_position_start (h : file.source.toList = []) :
    file.Shows Position.start.line Position.start.column := by
  -- A source without lines has one line for those who ask for it.
  have hline : file.line? Position.start.line = some [] := by
    unfold line? lineRange?
    rw [h]
    rfl
  exact ⟨[], hline, Nat.le_refl 1, Nat.le_refl 0⟩

end SourceFile

structure Token.LiesIn (token : Token) (front : List Line) (line : Line) : Prop where
  start_liesIn : token.span.start.LiesIn front line
  stop_liesIn : token.span.stop.LiesIn front line

theorem Token.At.liesIn {fileId : UInt32} {token : Token} {mark : Mark} {front : List Line}
    {line : Line} (h : token.At fileId (mark.behind (front.flatMap Line.chars)))
    (hmark : mark.In line.text) : token.LiesIn front line := by
  rcases hmark.exists_after with ⟨after, htext⟩
  constructor
  . refine ⟨mark.before, mark.body ++ after, ?_, h.start_after⟩
    rw [htext, List.append_assoc]
  . refine ⟨mark.before ++ mark.body, after, htext, ?_⟩
    rw [← List.append_assoc]
    exact h.stop_after

/--
The lines of a source that were read for a stream: all lines, or those up to the one with the error.
-/
def TokenStream.scanned (stream : TokenStream) (lines : List Line) : List Line :=
  match stream.failure with
  | none => lines
  | some error => lines.take error.line.toNat

theorem Cursor.Reached.wellSpelled_of_mem {options : Options} {front : List Line} {cursor : Cursor}
    {token : Token} (h : Reached options front cursor) (hrange : Line.InRange front)
    (hmem : token ∈ Run.contribution options front) : token.kind.WellSpelled := by
  have hlaid := Run.laid_contribution_append h hrange (laid_replicate _)
  apply (hlaid.forall_mem token.kind _).2
  rw [List.mem_append]
  exact .inl (List.mem_map_of_mem hmem)

namespace TokenStream

variable {source : String} {options : Options} {stream : TokenStream} {token : Token}

theorem scanned_of_failure_eq_none (hfailure : stream.failure = none) (lines : List Line) :
    stream.scanned lines = lines := by
  unfold scanned
  rw [hfailure]

theorem scanned_of_failure_eq_some {error : LexicalError} {front back : List Line} {line : Line}
    (hfailure : stream.failure = some error) (hnumber : error.line.toNat = front.length + 1) :
    stream.scanned (front ++ line :: back) = front ++ [line] := by
  unfold scanned
  rw [hfailure]
  dsimp only
  rw [hnumber, List.append_cons]
  apply List.take_left'
  rw [List.length_append, List.length_singleton]

theorem exists_eq_of_scanned_eq {lines front back : List Line} {line : Line}
    (h : stream.scanned lines = front ++ line :: back) :
    ∃ rest, lines = front ++ line :: rest := by
  have hscanned : stream.scanned lines <+: lines := by
    unfold scanned
    split
    . exact List.prefix_rfl
    . exact List.take_prefix _ lines
  rcases hscanned with ⟨rest, hlines⟩
  rw [h, List.append_assoc, List.cons_append] at hlines
  exact ⟨back ++ rest, hlines.symm⟩

theorem mem_tokens_cases (hsize : source.utf8ByteSize ≤ 2 ^ 32 - 2)
    (h : ofSource source options = .ok stream) (hmem : token ∈ stream.tokens) :
    (∃ (front : List Line) (line : Line) (back : List Line) (mark : Mark),
      Line.ofText source.toList = front ++ line :: back ∧
      line ∈ stream.scanned (Line.ofText source.toList) ∧ mark.In line.text ∧
      token.At options.fileId (mark.behind (front.flatMap Line.chars)) ∧
      token.kind.WellSpelled) ∨
    (stream.failure = none ∧ ∃ cursor, Cursor.Reached options (Line.ofText source.toList) cursor ∧
      token ∈ cursor.closing options) := by
  have hrange := Line.inRange_ofSource hsize
  rcases Run.ofSource_eq_ok h with
    ⟨hnone, cursor, hreached, htokens⟩ |
    ⟨error, front, failing, back, cursor, hsome, hlines, hreached, hstep, htokens⟩
  . rw [htokens, List.mem_append] at hmem
    cases hmem with
    | inl hmem =>
      rcases Run.exists_mark_of_mem_contribution hrange (List.append_nil _).symm hmem with
        ⟨front, line, back, mark, hlines, -, hmark, hat⟩
      have hscanned : line ∈ stream.scanned (Line.ofText source.toList) := by
        rw [scanned_of_failure_eq_none hnone, hlines]
        simp
      exact .inl ⟨front, line, back, mark, hlines, hscanned, hmark, hat,
        hreached.wellSpelled_of_mem hrange hmem⟩
    | inr hmem => exact .inr ⟨hnone, cursor, hreached, hmem⟩
  . -- The line with the error is read and adds no token.
    have hfront := hrange
    rw [hlines, List.append_cons] at hfront
    have hpast := hreached.past hfront.of_append.of_append
    rcases Cursor.blames_of_step hpast hfront.of_append hstep with ⟨hnumber, -⟩
    rw [htokens] at hmem
    have hspelled := hreached.wellSpelled_of_mem hfront.of_append.of_append hmem
    rcases Run.exists_mark_of_mem_contribution hrange hlines hmem with
      ⟨before, line, after, mark, rfl, -, hmark, hat⟩
    rw [hlines, scanned_of_failure_eq_some hsome hnumber]
    exact .inl ⟨before, line, after ++ failing :: back, mark, by simp, by simp, hmark, hat,
      hspelled⟩

theorem liesIn_scanned (hsize : source.utf8ByteSize ≤ 2 ^ 32 - 2)
    (h : ofSource source options = .ok stream) (hmem : token ∈ stream.tokens) :
    (source.toList = [] ∧ token.span.start = .start ∧ token.span.stop = .start) ∨
      ∃ front line back, Line.ofText source.toList = front ++ line :: back ∧
        line ∈ stream.scanned (Line.ofText source.toList) ∧ token.LiesIn front line := by
  rcases mem_tokens_cases hsize h hmem with
    ⟨front, line, back, mark, hlines, hscanned, hmark, hat, -⟩ | ⟨hnone, cursor, hreached, hmem⟩
  . exact .inr ⟨front, line, back, hlines, hscanned, hat.liesIn hmark⟩
  . rcases Run.closing_after (Line.inRange_ofSource hsize) hreached hmem with
      ⟨-, hspan, ⟨hnil, hstop⟩ | ⟨init, last, hlines, hafter⟩⟩
    . rw [hspan]
      exact .inl ⟨hnil, hstop, hstop⟩
    . have hscanned : last ∈ stream.scanned (Line.ofText source.toList) := by
        rw [scanned_of_failure_eq_none hnone, hlines]
        simp
      have hend : cursor.stop.LiesIn init last :=
        ⟨last.text, [], (List.append_nil _).symm, hafter⟩
      refine .inr ⟨init, last, [], hlines, hscanned, ?_⟩
      constructor
      . rw [hspan]
        exact hend
      . rw [hspan]
        exact hend

end TokenStream

namespace SourceFile

/--
Whether the lines that a file finds by their numbers are those that were read for a stream, so that
each place in the stream is a column of the line that is shown for it.
-/
structure Agrees (file : SourceFile) (stream : TokenStream) : Prop where
  line?_eq : ∀ front line back (number : UInt32),
    stream.scanned (Line.ofText file.source.toList) = front ++ line :: back →
    number.toNat = front.length + 1 → file.line? number = some line.text
  shows_token : ∀ token ∈ stream.tokens, file.ShowsSpan token.span
  shows_failure : ∀ error, stream.failure = some error → file.Shows error.line error.column

variable {file : SourceFile} {options : Options} {stream : TokenStream}

theorem exists_covers (hsize : file.source.utf8ByteSize ≤ 2 ^ 32 - 2)
    (hstream : TokenStream.ofSource file.source options = .ok stream)
    {token : Token} (hmem : token ∈ stream.tokens) (hlayout : token.kind.isLayout = false) :
    token.span.fileId = options.fileId ∧
      ∃ before body after, file.Covers token.span before body after := by
  rcases TokenStream.mem_tokens_cases hsize hstream hmem with
    ⟨front, line, back, mark, hlines, -, hmark, hat, hspelled⟩ | ⟨-, cursor, -, hclosing⟩
  . refine ⟨hat.fileId_eq, ?_⟩
    rw [hat.kind_eq] at hlayout hspelled
    cases hmark with
    | block hkind => rcases hkind with rfl | rfl <;> contradiction
    | newline => contradiction
    | @content kind before body after _ htext hne hspells =>
      have hbetween := Line.between_of_ofText hlines
      have hfeed := hbetween.no_feed
      rw [htext, List.mem_append, List.mem_append, not_or, not_or] at hfeed
      have hstart := hat.start_after
      have hstop := hat.stop_after
      unfold Mark.behind at hstart hstop
      dsimp only at hstart hstop
      rw [List.append_assoc] at hstop
      rcases hstart.line_column hbetween.ended hfeed.1.1 with ⟨hstart_line, hstart_column⟩
      rcases hstop.line_column hbetween.ended (by simp [hfeed.1]) with ⟨hstop_line, hstop_column⟩
      -- The carriage returns that are not shown stand behind the token.
      have hlast : (before ++ body).getLast? ≠ some '\r' := by
        rw [List.getLast?_append_of_ne_nil _ hne]
        exact hspells.no_return hlayout hspelled
      have hlength := @Text.length_le_trimReturns _ after hlast
      rw [← htext] at hlength
      rcases List.prefix_of_prefix_length_le (htext ▸ List.prefix_append _ _)
        (Text.trimReturns_prefix line.text) hlength with ⟨shown, hshown⟩
      refine ⟨before, body, shown, ?_⟩
      constructor
      . rw [line?_eq_some hlines hstart_line, hshown]
      . rw [← UInt32.toNat_inj, hstart_line, hstop_line]
      . exact hstart_column
      . exact hstop_column
      . have hsource : file.source.toList = front.flatMap Line.chars ++ before ++
            (body ++ (after ++ line.ending ++ back.flatMap Line.chars)) := by
          rw [← Line.flatMap_chars_ofText file.source.toList, hlines, List.flatMap_append,
            List.flatMap_cons, Line.chars, htext]
          simp only [List.append_assoc]
        rw [hsource, hstart.offset_eq, hstop.offset_eq,
          ← List.append_assoc _ before body, Text.byteSize_append _ body]
        apply Text.slice?_append
      . exact hne
  . rcases (Cursor.mem_closing hclosing).1 with hkind | hkind <;> rw [hkind] at hlayout <;>
      contradiction

theorem shows_content (hsize : file.source.utf8ByteSize ≤ 2 ^ 32 - 2)
    (hstream : TokenStream.ofSource file.source options = .ok stream) {token : Token}
    (hmem : token ∈ stream.tokens) (hlayout : token.kind.isLayout = false) :
    file.ShowsSpan token.span := by
  rcases exists_covers hsize hstream hmem hlayout with ⟨-, before, body, after, hcovers⟩
  constructor
  . refine ⟨_, hcovers.line?_eq, ?_, ?_⟩
    . rw [hcovers.start_eq]
      omega
    . rw [hcovers.start_eq]
      simp
  . refine ⟨_, hcovers.line_eq ▸ hcovers.line?_eq, ?_, ?_⟩
    . rw [hcovers.stop_eq]
      omega
    . rw [hcovers.stop_eq]
      simp

theorem no_return_of_agrees (hsize : file.source.utf8ByteSize ≤ 2 ^ 32 - 2)
    (h : file.Agrees stream) {line : Line}
    (hmem : line ∈ stream.scanned (Line.ofText file.source.toList)) :
    line.text.getLast? ≠ some '\r' := by
  rcases List.append_of_mem hmem with ⟨front, back, hscanned⟩
  rcases TokenStream.exists_eq_of_scanned_eq hscanned with ⟨rest, hlines⟩
  have hlength := (Line.inRange_ofSource hsize).length_le
  rw [hlines, List.length_append, List.length_cons] at hlength
  have hnumber : (front.length + 1).toUInt32.toNat = front.length + 1 :=
    UInt32.toNat_ofNat_of_lt' (Nat.lt_of_le_of_lt (by omega) (by omega : 2 ^ 32 - 2 < 2 ^ 32))
  rw [← line?_eq_text_iff hlines hnumber]
  exact h.line?_eq front line back _ hscanned hnumber

theorem agrees_of_no_return (hsize : file.source.utf8ByteSize ≤ 2 ^ 32 - 2)
    (hstream : TokenStream.ofSource file.source options = .ok stream)
    (h : ∀ line ∈ stream.scanned (Line.ofText file.source.toList),
      line.text.getLast? ≠ some '\r') : file.Agrees stream := by
  constructor
  . intro front line back number hscanned hnumber
    rcases TokenStream.exists_eq_of_scanned_eq hscanned with ⟨rest, hlines⟩
    rw [line?_eq_text_iff hlines hnumber]
    apply h
    rw [hscanned]
    simp
  . intro token hmem
    rcases TokenStream.liesIn_scanned hsize hstream hmem with
      ⟨hnil, hstart, hstop⟩ | ⟨front, line, back, hlines, hline, hlies⟩
    . unfold ShowsSpan
      rw [hstart, hstop]
      exact ⟨shows_position_start hnil, shows_position_start hnil⟩
    . have hlast := h line hline
      exact ⟨shows_of_liesIn hlines hlast hlies.start_liesIn,
        shows_of_liesIn hlines hlast hlies.stop_liesIn⟩
  . intro error hfailure
    exact shows_failure hsize hstream hfailure

/--
The lines of a file are those that a tokenizer reads exactly as long as none of the lines that are
read has a second carriage return at its end. In any case the file finds the lines without all of
these carriage returns, and shows the tokens with content and all characters before an error.
-/
theorem agrees_iff_no_return_left (file : SourceFile) (options : Options)
    (hsize : file.source.utf8ByteSize ≤ 2 ^ 32 - 2) :
    ∃ stream, TokenStream.ofSource file.source options = .ok stream ∧
      (file.Agrees stream ↔ ∀ line ∈ stream.scanned (Line.ofText file.source.toList),
        line.text.getLast? ≠ some '\r') ∧
      (∀ front line back (number : UInt32),
        Line.ofText file.source.toList = front ++ line :: back →
        number.toNat = front.length + 1 →
        file.line? number = some (Text.trimReturns line.text)) ∧
      (∀ token ∈ stream.tokens, token.kind.isLayout = false → file.ShowsSpan token.span) ∧
      ∀ error, stream.failure = some error → file.Shows error.line error.column := by
  rcases @Run.exists_ofSource_eq_ok options file.source hsize with ⟨stream, hstream, -⟩
  refine ⟨stream, hstream, ?_, ?_, ?_, ?_⟩
  . constructor
    . intro hagrees line hmem
      exact no_return_of_agrees hsize hagrees hmem
    . exact agrees_of_no_return hsize hstream
  . intro front line back number hlines hnumber
    exact line?_eq_some hlines hnumber
  . intro token hmem hlayout
    exact shows_content hsize hstream hmem hlayout
  . intro error hfailure
    exact shows_failure hsize hstream hfailure

theorem agrees_iff_no_return_left_two_returns :
    "a\r\r\n".utf8ByteSize ≤ 2 ^ 32 - 2 ∧
    ∃ stream, TokenStream.ofSource "a\r\r\n" {} = .ok stream ∧
      Line.ofText "a\r\r\n".toList = [⟨['a', '\r'], ['\r', '\n']⟩] ∧
      (⟨"main.wz", "a\r\r\n"⟩ : SourceFile).line? 1 = some ['a'] ∧
      ¬(⟨"main.wz", "a\r\r\n"⟩ : SourceFile).Agrees stream := by
  have hsize : "a\r\r\n".utf8ByteSize ≤ 2 ^ 32 - 2 := by decide
  have hlines : Line.ofText "a\r\r\n".toList = [⟨['a', '\r'], ['\r', '\n']⟩] := by decide +kernel
  rcases agrees_iff_no_return_left ⟨"main.wz", "a\r\r\n"⟩ {} hsize with
    ⟨stream, hstream, hagrees, hline, -, -⟩
  have hfailure : (TokenStream.ofSource "a\r\r\n" {}).toOption.all (·.failure = none) = true := by
    decide +kernel
  rw [hstream] at hfailure
  refine ⟨hsize, stream, hstream, hlines, hline [] _ [] 1 hlines rfl, ?_⟩
  rw [hagrees]
  intro h
  rw [TokenStream.scanned_of_failure_eq_none (of_decide_eq_true hfailure), hlines] at h
  exact h _ (List.mem_singleton_self _) rfl

end SourceFile

end Offside
