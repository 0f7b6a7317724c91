import Offside.Proofs.Mark
import Offside.Proofs.Outlook
import Offside.Proofs.Spelling

/-!
This module contains the exactness of spans. The tokens of a source cover the texts that their kinds
spell, and layout tokens stand at the start or the end of the text of a line.
-/

namespace Offside

structure Token.Exact (fileId : UInt32) (before body : List Char) (token : Token) : Prop where
  start_after : token.span.start.After before
  stop_after : token.span.stop.After (before ++ body)
  fileId_eq : token.span.fileId = fileId
  isEmpty_iff : token.span.isEmpty = true ↔ token.kind.isLayout = true
  content : token.kind.isLayout = false → '\n' ∉ body ∧ token.kind.Spells body

/--
Where the tokens of a line stand in its text: those that open or close blocks before the first
character that is no space or tab, those that the text spells over their spelling, and the end of a
statement at the end of the text.
-/
inductive Mark.In (text : List Char) : Mark → Prop where
  | block {kind : TokenKind} {margin rest : List Char} {c : Char} :
    kind = .indent ∨ kind = .dedent →
    text = margin ++ c :: rest → (∀ d ∈ margin, Text.isIndent d = true) → Text.isIndent c = false →
    Mark.In text ⟨kind, margin, []⟩
  | content {kind : TokenKind} {before body after : List Char} :
    kind.isLayout = false →
    text = before ++ body ++ after → body ≠ [] → kind.Spells body →
    Mark.In text ⟨kind, before, body⟩
  | newline : Mark.In text ⟨.newline, text, []⟩

theorem Scan.exists_of_mem_marks {text before : List Char} {mark : Mark}
    (h : mark ∈ marks before (ofText text).lexemes) :
    ∃ front back, text = front ++ mark.body ++ back ∧ mark.before = before ++ front ∧
      mark.body ≠ [] ∧ mark.kind.isLayout = false ∧ mark.kind.Spells mark.body := by
  induction text using ofText.induct generalizing before with
  | case1 =>
    rw [ofText_nil] at h
    contradiction
  | case2 c text fault hcut =>
    rw [ofText_cons_of_fault hcut] at h
    contradiction
  | case3 c text lexeme rest hcut ih =>
    rw [ofText_cons_of_cut hcut] at h
    rcases Lexeme.cut_eq_cons hcut with ⟨tail, htail, rfl⟩
    rcases lexeme with ⟨kind, body⟩
    dsimp only at htail h
    subst htail
    have later (h : mark ∈ marks (before ++ c :: tail) (ofText rest).lexemes) :
        ∃ front back, c :: (tail ++ rest) = front ++ mark.body ++ back ∧
          mark.before = before ++ front ∧ mark.body ≠ [] ∧ mark.kind.isLayout = false ∧
          mark.kind.Spells mark.body := by
      rcases ih h with ⟨front, back, hrest, hbefore, hmark⟩
      refine ⟨c :: tail ++ front, back, ?_, ?_, hmark⟩
      . rw [hrest]
        simp
      . rw [hbefore, List.append_assoc]
    cases kind with
    | none => exact later h
    | some kind =>
      rw [marks, List.mem_cons] at h
      cases h with
      | inl heq =>
        rcases Lexeme.spelled_of_cut hcut rfl with ⟨hlayout, -, hspells⟩
        subst heq
        exact ⟨[], rest, rfl, (List.append_nil before).symm, List.cons_ne_nil c tail, hlayout,
          hspells⟩
      | inr hmem => exact later hmem

theorem Token.At.isEmpty_iff {fileId : UInt32} {token : Token} {mark : Mark}
    (h : token.At fileId mark) : token.span.isEmpty = true ↔ mark.body = [] := by
  have hstart := h.start_after.offset_eq
  have hstop := h.stop_after.offset_eq
  rw [Text.byteSize_append] at hstop
  unfold Span.isEmpty Span.length
  rw [beq_iff_eq]
  cases hbody : mark.body with
  | nil =>
    rw [hbody] at hstop
    simp [hstart, hstop]
  | cons c body =>
    have := c.utf8Size_pos
    rw [hbody, Text.byteSize_cons] at hstop
    simp
    omega

namespace Mark

variable {text : List Char} {mark : Mark}

theorem In.exists_after (h : mark.In text) : ∃ after, text = mark.before ++ mark.body ++ after := by
  cases h with
  | @block _ margin rest c _ htext _ _ => exact ⟨c :: rest, by rw [List.append_nil, htext]⟩
  | @content _ _ _ after _ htext _ _ => exact ⟨after, htext⟩
  | newline => exact ⟨[], by simp⟩

theorem In.body_eq_nil_iff (h : mark.In text) : mark.body = [] ↔ mark.kind.isLayout = true := by
  cases h with
  | block hkind _ _ _ => rcases hkind with rfl | rfl <;> simp [TokenKind.isLayout]
  | content hkind _ hne _ => simp [hkind, hne]
  | newline => simp [TokenKind.isLayout]

theorem In.spells (h : mark.In text) (hkind : mark.kind.isLayout = false) :
    mark.kind.Spells mark.body := by
  cases h with
  | block hblock _ _ _ => rcases hblock with rfl | rfl <;> contradiction
  | content _ _ _ hspells => exact hspells
  | newline => contradiction

end Mark

theorem Token.At.exact {fileId : UInt32} {token : Token} {mark : Mark} {front text : List Char}
    (h : token.At fileId (mark.behind front)) (hmark : mark.In text) (hfeed : '\n' ∉ text) :
    token.Exact fileId (front ++ mark.before) mark.body := by
  rcases hmark.exists_after with ⟨after, rfl⟩
  simp only [List.mem_append, not_or] at hfeed
  constructor
  . exact h.start_after
  . exact h.stop_after
  . exact h.fileId_eq
  . rw [h.isEmpty_iff, h.kind_eq]
    exact hmark.body_eq_nil_iff
  . rw [h.kind_eq]
    intro hkind
    exact ⟨hfeed.1.2, hmark.spells hkind⟩

namespace LayoutLine

variable {layoutLine : LayoutLine} {fileId : UInt32} {front : List Char} {line : Line}
  {token : Token}

theorem mem_opening (h : token ∈ layoutLine.opening fileId) :
    (token.kind = .indent ∨ token.kind = .dedent) ∧
      token.span = .point layoutLine.origin fileId := by
  unfold opening at h
  dsimp at h
  split at h
  . contradiction
  . rw [List.mem_singleton] at h
    rw [h]
    exact ⟨.inl rfl, rfl⟩
  . rw [List.eq_of_mem_replicate h]
    exact ⟨.inr rfl, rfl⟩

theorem mem_tokens (h : token ∈ layoutLine.tokens fileId) :
    ((token.kind = .indent ∨ token.kind = .dedent) ∧
        token.span = .point layoutLine.origin fileId) ∨
      token ∈ layoutLine.content ∨ token = ⟨.newline, .point layoutLine.stop fileId⟩ := by
  unfold tokens at h
  split at h
  . exact .inl (mem_opening h)
  . rw [List.mem_append, List.mem_append, List.mem_singleton] at h
    rcases h with (hopening | hcontent) | hnewline
    . exact .inl (mem_opening hopening)
    . exact .inr (.inl hcontent)
    . exact .inr (.inr hnewline)

theorem Stands.exists_mark (h : layoutLine.Stands fileId front line.text)
    (hblank : line.isBlank = false) (hmem : token ∈ layoutLine.tokens fileId) :
    ∃ mark : Mark, mark.In line.text ∧ token.At fileId (mark.behind front) := by
  rcases mem_tokens hmem with ⟨hkind, hspan⟩ | hcontent | rfl
  . rcases Line.exists_body_eq_cons hblank with ⟨c, rest, hbody, hc⟩
    have htext := Text.margin_append_body line.text
    rw [hbody] at htext
    have hmargin : ∀ d ∈ Text.margin line.text, Text.isIndent d = true :=
      List.all_eq_true.1 List.all_takeWhile
    refine ⟨⟨token.kind, Text.margin line.text, []⟩, .block hkind htext.symm hmargin hc, ?_⟩
    rcases token with ⟨kind, span⟩
    dsimp only at hspan
    rw [hspan]
    exact Token.at_point h.origin_after
  . rcases exists_mem_of_forall₂ h.content_at hcontent with ⟨mark, hmark, hat⟩
    rcases Scan.exists_of_mem_marks hmark with
      ⟨before, after, hbody, hbefore, hne, hlayout, hspells⟩
    refine ⟨⟨mark.kind, Text.margin line.text ++ before, mark.body⟩, ?_, ?_⟩
    . apply Mark.In.content hlayout _ hne hspells
      . exact after
      . rw [List.append_assoc, List.append_assoc, ← List.append_assoc before, ← hbody,
          Text.margin_append_body]
    . unfold Mark.behind
      dsimp only
      rw [← List.append_assoc, ← hbefore]
      exact hat
  . exact ⟨⟨.newline, line.text, []⟩, .newline, Token.at_point h.stop_after⟩

end LayoutLine

namespace Cursor

variable {options : Options} {front back lines : List Line} {line : Line} {text : List Char}
  {cursor : Cursor} {token : Token}

theorem Reached.stop_after (h : Reached options front cursor) (hrange : Line.InRange front)
    (hlines : Line.ofText text = front ++ back) :
    (front = [] ∧ cursor.stop = .start) ∨
      ∃ init last, front = init ++ [last] ∧
        cursor.stop.After (init.flatMap Line.chars ++ last.text) := by
  cases h with
  | start => exact .inl ⟨rfl, rfl⟩
  | @step init last entry before _ hreached hstep =>
    rw [List.append_assoc, List.singleton_append] at hlines
    have hpast := hreached.past hrange.of_append
    have hbetween := Line.between_of_ofText hlines
    exact .inr ⟨init, last, rfl, (step_stands hpast hrange hbetween hstep).1⟩

theorem mem_closing (h : token ∈ cursor.closing options) :
    (token.kind = .dedent ∨ token.kind = .eof) ∧
      token.span = .point cursor.stop options.fileId := by
  have mem_closed (h : token ∈ List.replicate cursor.levels.above.length
      (⟨.dedent, .point cursor.stop options.fileId⟩ : Token)) :
      (token.kind = .dedent ∨ token.kind = .eof) ∧
        token.span = .point cursor.stop options.fileId := by
    rw [List.eq_of_mem_replicate h]
    exact ⟨.inl rfl, rfl⟩
  unfold closing at h
  dsimp at h
  split at h
  . rw [List.mem_append, List.mem_singleton] at h
    cases h with
    | inl hclosed => exact mem_closed hclosed
    | inr heof =>
      rw [heof]
      exact ⟨.inr rfl, rfl⟩
  . exact mem_closed h

end Cursor

namespace Run

open Cursor

variable {options : Options} {front back lines : List Line} {line : Line} {text : List Char}
  {token : Token}

theorem exists_own (hrange : Line.InRange (Line.ofText text))
    (hlines : Line.ofText text = front ++ line :: back) :
    ∃ own, contribution options (front ++ [line]) = contribution options front ++ own ∧
      ∀ token ∈ own, ∃ mark : Mark, mark.In line.text ∧
        token.At options.fileId (mark.behind (front.flatMap Line.chars)) := by
  rcases contribution_prefix options front [line] with ⟨own, hown⟩
  refine ⟨own, hown.symm, ?_⟩
  intro token hmem
  have hlength := congrArg List.length hown
  have hpos := List.length_pos_of_mem hmem
  rw [List.length_append] at hlength
  -- The line was read, since it adds a token.
  rcases @exists_step_of_contribution_lt options front line (by omega) with
    ⟨entry, cursor, next, hreached, hstep⟩
  rw [contribution_append_singleton hreached hstep, List.append_cancel_left_eq] at hown
  rw [hown] at hmem
  have hbetween := Line.between_of_ofText hlines
  rw [hlines, List.append_cons] at hrange
  have hpast := hreached.past hrange.of_append.of_append
  rcases (step_stands hpast hrange.of_append hbetween hstep).2 with
    ⟨-, rfl, -⟩ | ⟨_, layoutLine, hblank, rfl, -, -, -, hstands⟩
  . contradiction
  . rw [Option.toList_some, List.flatMap_singleton] at hmem
    exact hstands.exists_mark hblank hmem

theorem exists_line_of_mem_contribution (h : token ∈ contribution options lines) :
    ∃ front line back own, lines = front ++ line :: back ∧
      contribution options (front ++ [line]) = contribution options front ++ own ∧ token ∈ own := by
  induction lines using List.reverseRecOn with
  | nil => contradiction
  | append_singleton lines last ih =>
    rcases contribution_prefix options lines [last] with ⟨own, hown⟩
    rw [← hown, List.mem_append] at h
    cases h with
    | inl hmem =>
      rcases ih hmem with ⟨front, line, back, own', rfl, hown', hmem'⟩
      exact ⟨front, line, back ++ [last], own', by simp, hown', hmem'⟩
    | inr hmem => exact ⟨lines, last, [], own, rfl, hown.symm, hmem⟩

theorem exists_mark_of_mem_contribution (hrange : Line.InRange (Line.ofText text))
    (hlines : Line.ofText text = front ++ back) (h : token ∈ contribution options front) :
    ∃ (before : List Line) (line : Line) (after : List Line) (mark : Mark),
      front = before ++ line :: after ∧
      Line.Between before line (after ++ back) ∧ mark.In line.text ∧
      token.At options.fileId (mark.behind (before.flatMap Line.chars)) := by
  rcases exists_line_of_mem_contribution h with ⟨before, line, after, own, rfl, hown, hmem⟩
  rw [List.append_assoc, List.cons_append] at hlines
  rcases @exists_own options _ _ _ _ hrange hlines with ⟨own', hown', hmarks⟩
  rw [hown, List.append_cancel_left_eq] at hown'
  rw [hown'] at hmem
  rcases hmarks token hmem with ⟨mark, hmark, hat⟩
  exact ⟨before, line, after, mark, rfl, Line.between_of_ofText hlines, hmark, hat⟩

theorem exists_exact_of_mem_contribution (hrange : Line.InRange (Line.ofText text))
    (h : token ∈ contribution options (Line.ofText text)) :
    ∃ before body after, text = before ++ body ++ after ∧
      token.Exact options.fileId before body := by
  rcases exists_mark_of_mem_contribution hrange (List.append_nil _).symm h with
    ⟨front, line, back, mark, hlines, hbetween, hmark, hat⟩
  rcases hmark.exists_after with ⟨after, htext⟩
  refine ⟨_, _, after ++ line.ending ++ back.flatMap Line.chars, ?_,
    hat.exact hmark hbetween.no_feed⟩
  rw [← Line.flatMap_chars_ofText text, hlines, List.flatMap_append, List.flatMap_cons, Line.chars,
    htext]
  simp

theorem exists_closing {source : String} {stream : TokenStream}
    (h : TokenStream.ofSource source options = .ok stream) :
    ∃ closing, stream.tokens = contribution options (Line.ofText source.toList) ++ closing ∧
      ∀ token ∈ closing, ∃ cursor, Reached options (Line.ofText source.toList) cursor ∧
        token ∈ cursor.closing options := by
  rcases ofSource_eq_ok h with
    ⟨-, cursor, hreached, htokens⟩ | ⟨error, front, line, back, cursor, -, hlines, hreached, hstep,
      htokens⟩
  . exact ⟨cursor.closing options, htokens, fun token hmem => ⟨cursor, hreached, hmem⟩⟩
  . refine ⟨[], ?_, by simp⟩
    rw [List.append_nil, htokens, hlines, contribution_append_of_error hreached hstep]

theorem closing_after {cursor : Cursor} (hrange : Line.InRange (Line.ofText text))
    (hreached : Reached options (Line.ofText text) cursor) (hmem : token ∈ cursor.closing options) :
    (token.kind = .dedent ∨ token.kind = .eof) ∧
      token.span = .point cursor.stop options.fileId ∧
      ((text = [] ∧ cursor.stop = .start) ∨
        ∃ init last, Line.ofText text = init ++ [last] ∧
          cursor.stop.After (init.flatMap Line.chars ++ last.text)) := by
  rcases mem_closing hmem with ⟨hkind, hspan⟩
  refine ⟨hkind, hspan, ?_⟩
  rcases hreached.stop_after hrange (List.append_nil _).symm with ⟨hnil, hstop⟩ | hlast
  . have htext := Line.flatMap_chars_ofText text
    rw [hnil] at htext
    exact .inl ⟨htext.symm, hstop⟩
  . exact .inr hlast

theorem exists_exact_of_mem_closing {cursor : Cursor} (hrange : Line.InRange (Line.ofText text))
    (hreached : Reached options (Line.ofText text) cursor) (hmem : token ∈ cursor.closing options) :
    ∃ before body after, text = before ++ body ++ after ∧
      token.Exact options.fileId before body := by
  rcases closing_after hrange hreached hmem with ⟨hkind, hspan, hstop⟩
  have exact_point {before : List Char} (h : cursor.stop.After before) :
      token.Exact options.fileId before [] := by
    rcases token with ⟨kind, span⟩
    dsimp only at hkind hspan
    have hlayout : kind.isLayout = true := by rcases hkind with rfl | rfl <;> rfl
    rw [hspan]
    constructor
    . exact h
    . rw [List.append_nil]
      exact h
    . rfl
    . simp [Span.isEmpty, hlayout]
    . simp [hlayout]
  rcases hstop with ⟨rfl, hstart⟩ | ⟨init, last, hlines, hafter⟩
  . refine ⟨[], [], [], rfl, exact_point ?_⟩
    rw [hstart]
    exact Position.after_start
  . refine ⟨_, [], last.ending, ?_, exact_point hafter⟩
    rw [← Line.flatMap_chars_ofText text, hlines, List.flatMap_append, List.flatMap_singleton,
      Line.chars]
    simp

end Run

/--
The spans of the tokens of a source are exact, with or without an error in the source. Each token
of a line stands in the text of the line, and what closes the source stands at the end of the text
of its last line.
-/
theorem tokens_exact (source : String) (options : Options)
    (hsize : source.utf8ByteSize ≤ 2 ^ 32 - 2) :
    ∃ stream, TokenStream.ofSource source options = .ok stream ∧
      (∀ token ∈ stream.tokens, ∃ before body after, source.toList = before ++ body ++ after ∧
        token.Exact options.fileId before body) ∧
      (∀ front line back, Line.ofText source.toList = front ++ line :: back →
        Line.Between front line back ∧
        Run.contribution options (front ++ [line]) <+: stream.tokens ∧
        ∃ own, Run.contribution options (front ++ [line]) =
            Run.contribution options front ++ own ∧
          ∀ token ∈ own, ∃ mark : Mark, mark.In line.text ∧
            token.At options.fileId (mark.behind (front.flatMap Line.chars))) ∧
      ∃ closing, stream.tokens =
          Run.contribution options (Line.ofText source.toList) ++ closing ∧
        ∀ token ∈ closing, (token.kind = .dedent ∨ token.kind = .eof) ∧
          (source = "" → token.span.start = ⟨1, 1, 0⟩) ∧
          ∀ init last, Line.ofText source.toList = init ++ [last] →
            token.span.start.After (init.flatMap Line.chars ++ last.text) := by
  have hrange := Line.inRange_ofSource hsize
  rcases @Run.exists_ofSource_eq_ok options source hsize with ⟨stream, hstream, -⟩
  rcases Run.exists_closing hstream with ⟨closing, htokens, hclosing⟩
  refine ⟨stream, hstream, ?_, ?_, closing, htokens, ?_⟩
  . intro token hmem
    rw [htokens, List.mem_append] at hmem
    cases hmem with
    | inl hmem => exact Run.exists_exact_of_mem_contribution hrange hmem
    | inr hmem =>
      rcases hclosing token hmem with ⟨cursor, hreached, hmem⟩
      exact Run.exists_exact_of_mem_closing hrange hreached hmem
  . intro front line back hlines
    refine ⟨Line.between_of_ofText hlines, ?_, Run.exists_own hrange hlines⟩
    rw [List.append_cons] at hlines
    rw [htokens, hlines]
    exact (Run.contribution_prefix options _ back).trans (List.prefix_append _ closing)
  . intro token hmem
    rcases hclosing token hmem with ⟨cursor, hreached, hmem⟩
    rcases Run.closing_after hrange hreached hmem with ⟨hkind, hspan, hstop⟩
    rw [hspan]
    refine ⟨hkind, ?_, ?_⟩
    . rintro rfl
      rcases hstop with ⟨-, hstart⟩ | ⟨init, last, hlines, -⟩
      . exact hstart
      . simp [Line.ofText, Line.cut] at hlines
    . intro init last hlines
      rcases hstop with ⟨hnil, -⟩ | ⟨init', last', hlines', hafter⟩
      . rw [hnil] at hlines
        simp [Line.ofText, Line.cut] at hlines
      . rw [hlines] at hlines'
        rcases List.append_inj' hlines' rfl with ⟨rfl, hlast⟩
        rw [List.singleton_inj.1 hlast]
        exact hafter

theorem tokens_exact_return_and_umlaut :
    "x\r\n\t\"ä\"".utf8ByteSize ≤ 2 ^ 32 - 2 ∧
    ∃ stream, TokenStream.ofSource "x\r\n\t\"ä\"" { fileId := 3 } = .ok stream ∧
      ∀ token ∈ stream.tokens, ∃ before body after,
        "x\r\n\t\"ä\"".toList = before ++ body ++ after ∧ token.Exact 3 before body := by
  have hsize : "x\r\n\t\"ä\"".utf8ByteSize ≤ 2 ^ 32 - 2 := by decide
  rcases tokens_exact "x\r\n\t\"ä\"" { fileId := 3 } hsize with ⟨stream, hstream, hexact, -⟩
  exact ⟨hsize, stream, hstream, hexact⟩

end Offside
