import Offside.Proofs.Inversion
import Offside.Proofs.Place
import Offside.Proofs.Run

/-!
This module contains marks, which tell tokens by the text that they are a part of. The tokens of a
line stand where their marks tell it.
-/

namespace Offside

/--
A token and where it stands in a text.
-/
structure Mark where
  kind : TokenKind
  before : List Char
  body : List Char
deriving DecidableEq

def Mark.behind (front : List Char) (mark : Mark) : Mark :=
  ⟨mark.kind, front ++ mark.before, mark.body⟩

structure Token.At (fileId : UInt32) (token : Token) (mark : Mark) : Prop where
  kind_eq : token.kind = mark.kind
  start_after : token.span.start.After mark.before
  stop_after : token.span.stop.After (mark.before ++ mark.body)
  fileId_eq : token.span.fileId = fileId

theorem Token.at_point {kind : TokenKind} {pos : Position} {fileId : UInt32} {front : List Char}
    (h : pos.After front) : Token.At fileId ⟨kind, .point pos fileId⟩ ⟨kind, front, []⟩ := by
  constructor
  . rfl
  . exact h
  . rw [List.append_nil]
    exact h
  . rfl

theorem exists_mem_of_forall₂ {α β : Type} {R : α → β → Prop} {lhs : List α} {rhs : List β} {a : α}
    (h : List.Forall₂ R lhs rhs) (hmem : a ∈ lhs) : ∃ b ∈ rhs, R a b := by
  induction h with
  | nil => contradiction
  | cons hhead _ ih =>
    rw [List.mem_cons] at hmem
    cases hmem with
    | inl heq =>
      rw [heq]
      exact ⟨_, List.mem_cons_self, hhead⟩
    | inr htail =>
      rcases ih htail with ⟨b, hb, hab⟩
      exact ⟨b, List.mem_cons_of_mem _ hb, hab⟩

namespace Scan

def marks (before : List Char) : List Lexeme → List Mark
  | [] => []
  | ⟨none, text⟩ :: lexemes => marks (before ++ text) lexemes
  | ⟨some kind, text⟩ :: lexemes => ⟨kind, before, text⟩ :: marks (before ++ text) lexemes

variable {scan : Scan} {origin : Position} {fileId : UInt32} {result : List Token}

theorem at_marks_of_go_eq_ok {front before : List Char} {lexemes : List Lexeme}
    (horigin : origin.After front) (hfeed : '\n' ∉ before ++ covered lexemes)
    (hroom : origin.HasRoom (before ++ covered lexemes).length
      (Text.byteSize (before ++ covered lexemes)))
    (h : tokens.go scan origin fileId before.length (Text.byteSize before) lexemes = .ok result) :
    List.Forall₂ (Token.At fileId) result (marks (front ++ before) lexemes) := by
  induction lexemes generalizing before result with
  | nil =>
    rw [tokens.go] at h
    split at h
    . rw [← Except.ok.inj h]
      exact .nil
    . contradiction
  | cons lexeme lexemes ih =>
    rcases lexeme with ⟨kind, text⟩
    rw [covered_cons, ← List.append_assoc] at hfeed hroom
    have hlength : before.length + text.length = (before ++ text).length := by simp
    have hsize : Text.byteSize before + Text.byteSize text = Text.byteSize (before ++ text) := by
      simp
    cases kind with
    | none =>
      rw [tokens.go, hlength, hsize] at h
      rw [marks, List.append_assoc]
      exact ih hfeed hroom h
    | some kind =>
      rw [tokens.go] at h
      dsimp only at h
      rw [hlength, hsize, bind_eq_ok_iff] at h
      rcases h with ⟨start, hstart, h⟩
      rw [bind_eq_ok_iff] at h
      rcases h with ⟨stop, hstop, h⟩
      rw [bind_eq_ok_iff] at h
      rcases h with ⟨rest, hrest, h⟩
      rw [mapError_eq_ok_iff] at hstart hstop
      rw [← Except.ok.inj h, marks, List.append_assoc]
      apply List.Forall₂.cons
      . -- Both ends of the token lie within the text that there is room for.
        simp only [List.mem_append, not_or] at hfeed
        simp only [List.length_append, Text.byteSize_append] at hroom
        constructor
        . rfl
        . apply horigin.of_advance hfeed.1.1 (hroom.mono (by omega) (by omega)) hstart
        . dsimp only
          rw [List.append_assoc]
          apply horigin.of_advance _ _ hstop
          . rw [List.mem_append, not_or]
            exact hfeed.1
          . rw [List.length_append, Text.byteSize_append]
            exact hroom.mono (by omega) (by omega)
        . rfl
      . exact ih hfeed hroom hrest

theorem at_marks_of_tokens_eq_ok {front text : List Char} (horigin : origin.After front)
    (hfeed : '\n' ∉ text) (hroom : origin.HasRoom text.length (Text.byteSize text))
    (h : (ofText text).tokens origin fileId = .ok result) :
    List.Forall₂ (Token.At fileId) result (marks front (ofText text).lexemes) := by
  rcases covered_ofText text with ⟨rest, hrest, -⟩
  have hmarks := @at_marks_of_go_eq_ok (ofText text) origin fileId result front []
    (ofText text).lexemes horigin
  rw [List.append_nil, List.nil_append] at hmarks
  apply hmarks
  . intro hmem
    apply hfeed
    rw [← hrest]
    exact List.mem_append_left rest hmem
  . exact hasRoom_covered_ofText hroom
  . exact h

end Scan

namespace LayoutLine

/--
Whether a line that was read is the line `text` of a source in which `front` stands before it.
-/
structure Stands (layoutLine : LayoutLine) (fileId : UInt32) (front text : List Char) : Prop where
  origin_after : layoutLine.origin.After (front ++ Text.margin text)
  stop_after : layoutLine.stop.After (front ++ text)
  content_at : List.Forall₂ (Token.At fileId) layoutLine.content
    (Scan.marks (front ++ Text.margin text) (Scan.ofText (Text.body text)).lexemes)

variable {options : Options} {levels : Levels} {start stop : Position} {front text : List Char}
  {layoutLine : LayoutLine}

theorem stands_of_read_eq_ok (hstart : start.After front) (hstop : stop.After (front ++ text))
    (hfeed : '\n' ∉ text) (hroom : start.HasRoom text.length (Text.byteSize text))
    (hindented : Text.WellIndented text)
    (h : read options levels start stop text = .ok layoutLine) :
    layoutLine.Stands options.fileId front text := by
  rcases read_eq_ok h with ⟨indentation, hindentation, horigin, -, hcontent, rfl⟩
  have hlength := Text.length_le_byteSize text
  rcases Indentation.ofText_of_wellIndented (hroom.mono (by omega) hlength) hindented with
    ⟨level, -, hmeasured⟩
  rw [hindentation] at hmeasured
  rw [Except.ok.inj hmeasured] at horigin hcontent
  dsimp only at horigin hcontent
  have hmargin := Text.length_margin_le text
  have hsize := Text.byteSize_margin text
  rw [← Text.margin_append_body text, List.mem_append, not_or] at hfeed
  have hafter : layoutLine.origin.After (front ++ Text.margin text) := by
    apply hstart.of_advance hfeed.1 (hroom.mono hmargin (by omega))
    rw [hsize]
    exact horigin
  constructor
  . exact hafter
  . exact hstop
  . exact Scan.at_marks_of_tokens_eq_ok hafter hfeed.2 (hasRoom_body hroom horigin) hcontent

end LayoutLine

namespace Cursor

variable {options : Options} {front : List Line} {line : Line} {cursor next : Cursor}
  {entry : Option LayoutLine}

theorem stop_after_of_pass_eq_ok {passed : Cursor} (hpast : cursor.Past front)
    (hrange : Line.InRange (front ++ [line])) (hfront : ∀ other ∈ front, other.Ended)
    (hfeed : '\n' ∉ line.text) (hpass : cursor.pass line = .ok passed) :
    (⟨passed.stop.line, 1, cursor.offset⟩ : Position).After (front.flatMap Line.chars) ∧
      passed.stop.After (front.flatMap Line.chars ++ line.text) ∧
      (⟨passed.stop.line, 1, cursor.offset⟩ : Position).HasRoom line.text.length
        (Text.byteSize line.text) := by
  rcases pass_of_inRange hpast hrange with ⟨next, hnext, -, -, hnumber, hroom⟩
  rw [hpass, Except.ok.injEq] at hnext
  subst hnext
  have hstop := advance_of_pass_eq_ok hpass
  have hstart := Line.after_flatMap_chars hfront hnumber hpast.offset_eq
  exact ⟨hstart, hstart.of_advance hfeed hroom hstop, hroom⟩

theorem step_stands {back : List Line} (hpast : cursor.Past front)
    (hrange : Line.InRange (front ++ [line])) (hbetween : Line.Between front line back)
    (hstep : cursor.step options line = .ok (entry, next)) :
    next.stop.After (front.flatMap Line.chars ++ line.text) ∧
      ((line.isBlank = true ∧ entry = none ∧ next.levels = cursor.levels) ∨
        ∃ outline layoutLine, line.isBlank = false ∧ entry = some layoutLine ∧
          line.outline options.singleStep cursor.levels = .ok outline ∧
          layoutLine.Shows outline (front.length + 1) ∧ next.levels = outline.levels ∧
          layoutLine.Stands options.fileId (front.flatMap Line.chars) line.text) := by
  rcases step_eq_ok hstep with ⟨passed, hpass, hnext, hentry⟩
  rcases stop_after_of_pass_eq_ok hpast hrange hbetween.ended hbetween.no_feed hpass with
    ⟨hstart, hstop, hroom⟩
  rw [hnext]
  refine ⟨hstop, ?_⟩
  rcases (step_cases hpast hrange hstep).2 with
    ⟨hblank, hnone, hlevels⟩ | ⟨outline, layoutLine, hblank, rfl, houtline, hshows, hlevels⟩
  . exact .inl ⟨hblank, hnone, hlevels⟩
  . refine .inr ⟨outline, layoutLine, hblank, rfl, houtline, hshows, hlevels, ?_⟩
    rcases hentry with ⟨-, hnone⟩ | ⟨_, -, hsome, hread⟩
    . contradiction
    . rw [← Option.some.inj hsome] at hread
      exact LayoutLine.stands_of_read_eq_ok hstart hstop hbetween.no_feed hroom
        (Line.entered_of_outline_eq_ok houtline).1 hread

end Cursor

end Offside
