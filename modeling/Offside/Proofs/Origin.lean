import Offside.Proofs.Mark

/-!
This module contains the tokens of a text that starts at any position. As long as the places of the
tokens, and of the error if there is one, fit the words of a position, they are told by the marks of
the tokens.
-/

namespace Offside

structure Position.Behind (origin : Position) (text : List Char) (pos : Position) : Prop where
  line_eq : pos.line = origin.line
  column_eq : pos.column.toNat = origin.column.toNat + text.length
  offset_eq : pos.offset.toNat = origin.offset.toNat + Text.byteSize text

theorem Position.exists_behind {origin : Position} {text : List Char}
    (hroom : origin.HasRoom text.length (Text.byteSize text)) :
    ∃ pos, origin.advance text.length (Text.byteSize text) = .ok pos ∧ origin.Behind text pos := by
  rcases advance_of_hasRoom hroom with ⟨pos, hadvance, hline, hcolumn, hoffset⟩
  exact ⟨pos, hadvance, hline, hcolumn, hoffset⟩

structure Token.Marked (origin : Position) (fileId : UInt32) (token : Token) (mark : Mark) :
    Prop where
  kind_eq : token.kind = mark.kind
  start_behind : origin.Behind mark.before token.span.start
  stop_behind : origin.Behind (mark.before ++ mark.body) token.span.stop
  fileId_eq : token.span.fileId = fileId

theorem Position.Behind.unique {origin lhs rhs : Position} {text : List Char}
    (hlhs : origin.Behind text lhs) (hrhs : origin.Behind text rhs) : lhs = rhs := by
  have hcolumn : lhs.column = rhs.column := by
    rw [← UInt32.toNat_inj, hlhs.column_eq, hrhs.column_eq]
  have hoffset : lhs.offset = rhs.offset := by
    rw [← UInt64.toNat_inj, hlhs.offset_eq, hrhs.offset_eq]
  rw [Position.mk.injEq]
  exact ⟨hlhs.line_eq.trans hrhs.line_eq.symm, hcolumn, hoffset⟩

theorem Token.Marked.unique {origin : Position} {fileId : UInt32} {lhs rhs : Token} {mark : Mark}
    (hlhs : lhs.Marked origin fileId mark) (hrhs : rhs.Marked origin fileId mark) : lhs = rhs := by
  rw [Token.mk.injEq, Span.mk.injEq]
  exact ⟨hlhs.kind_eq.trans hrhs.kind_eq.symm, hlhs.start_behind.unique hrhs.start_behind,
    hlhs.stop_behind.unique hrhs.stop_behind, hlhs.fileId_eq.trans hrhs.fileId_eq.symm⟩

namespace Scan

/--
Whether all positions that are computed for a text that starts at `origin` fit their words: the ends
of its tokens, and the place of the character at which no lexeme starts.
-/
structure FitsAt (scan : Scan) (origin : Position) : Prop where
  stop : ∀ mark ∈ marks [] scan.lexemes, origin.HasRoom (mark.before ++ mark.body).length
    (Text.byteSize (mark.before ++ mark.body))
  fault : scan.fault ≠ none → origin.HasRoom (covered scan.lexemes).length
    (Text.byteSize (covered scan.lexemes))

variable {scan : Scan} {origin : Position} (fileId : UInt32)

theorem go_of_fits {before : List Char} {lexemes : List Lexeme} (hfault : scan.fault = none)
    (hfits : ∀ mark ∈ marks before lexemes, origin.HasRoom (mark.before ++ mark.body).length
      (Text.byteSize (mark.before ++ mark.body))) :
    ∃ result, tokens.go scan origin fileId before.length (Text.byteSize before) lexemes =
        .ok result ∧
      List.Forall₂ (Token.Marked origin fileId) result (marks before lexemes) := by
  induction lexemes generalizing before with
  | nil =>
    refine ⟨[], ?_, .nil⟩
    rw [tokens.go, hfault]
  | cons lexeme lexemes ih =>
    rcases lexeme with ⟨kind, text⟩
    have hlength : before.length + text.length = (before ++ text).length := by simp
    have hsize : Text.byteSize before + Text.byteSize text = Text.byteSize (before ++ text) := by
      simp
    cases kind with
    | none =>
      rw [marks] at hfits ⊢
      rw [tokens.go, hlength, hsize]
      exact ih hfits
    | some kind =>
      rw [marks, List.forall_mem_cons] at hfits
      rcases ih hfits.2 with ⟨result, hresult, hmarks⟩
      rcases Position.exists_behind hfits.1 with ⟨stop, hadvance', hstop⟩
      have hroom : origin.HasRoom before.length (Text.byteSize before) := by
        apply hfits.1.mono
        . dsimp only
          omega
        . dsimp only
          omega
      rcases Position.exists_behind hroom with ⟨start, hadvance, hstart⟩
      refine ⟨⟨kind, ⟨start, stop, fileId⟩⟩ :: result, ?_, ?_⟩
      . rw [tokens.go, hlength, hsize, hadvance]
        dsimp only [Except.mapError, bind, Except.bind]
        rw [hadvance', hresult]
        rfl
      . rw [marks]
        exact .cons ⟨rfl, hstart, hstop, rfl⟩ hmarks

theorem fault_eq_none_of_go_eq_ok {chars bytes : Nat} {lexemes : List Lexeme} {result : List Token}
    (h : tokens.go scan origin fileId chars bytes lexemes = .ok result) : scan.fault = none := by
  induction lexemes generalizing chars bytes result with
  | nil =>
    rw [tokens.go] at h
    split at h
    next hfault => exact hfault
    . contradiction
  | cons lexeme lexemes ih =>
    rcases lexeme with ⟨kind, text⟩
    cases kind with
    | none =>
      rw [tokens.go] at h
      exact ih h
    | some kind =>
      rw [tokens.go, bind_eq_ok_iff] at h
      rcases h with ⟨start, -, h⟩
      rw [bind_eq_ok_iff] at h
      rcases h with ⟨stop, -, h⟩
      rw [bind_eq_ok_iff] at h
      rcases h with ⟨rest, hrest, -⟩
      exact ih hrest

theorem FitsAt.tokens_eq_ok (h : scan.FitsAt origin) (hfault : scan.fault = none) :
    ∃ result, scan.tokens origin fileId = .ok result ∧
      List.Forall₂ (Token.Marked origin fileId) result (marks [] scan.lexemes) :=
  go_of_fits fileId hfault h.stop

theorem FitsAt.tokens_eq_rejected {fault : ContentFault} (h : scan.FitsAt origin)
    (hfault : scan.fault = some fault) :
    ∃ column, column.toNat = origin.column.toNat + (covered scan.lexemes).length ∧
      scan.tokens origin fileId =
        .error (.rejected ⟨.invalidToken, origin.line, column, fault.message⟩) := by
  apply tokens_of_fault_eq_some fileId hfault
  apply h.fault
  rw [hfault]
  apply Option.some_ne_none

end Scan

end Offside
