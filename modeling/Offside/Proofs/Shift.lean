import Offside.Proofs.SideBySide

/-!
This module contains shifts. Lines that are read at two places with the same open levels give the
same tokens or the same error, but for the line numbers and offsets, which all differ by the same
amounts.
-/

namespace Offside

structure Position.Shifted (lines bytes : Int) (lhs rhs : Position) : Prop where
  line_eq : (rhs.line.toNat : Int) = lhs.line.toNat + lines
  column_eq : rhs.column = lhs.column
  offset_eq : (rhs.offset.toNat : Int) = lhs.offset.toNat + bytes

structure Token.Shifted (lines bytes : Int) (lhs rhs : Token) : Prop where
  kind_eq : rhs.kind = lhs.kind
  start : lhs.span.start.Shifted lines bytes rhs.span.start
  stop : lhs.span.stop.Shifted lines bytes rhs.span.stop
  fileId_eq : rhs.span.fileId = lhs.span.fileId

structure LexicalError.Shifted (lines : Int) (lhs rhs : LexicalError) : Prop where
  kind_eq : rhs.kind = lhs.kind
  line_eq : (rhs.line.toNat : Int) = lhs.line.toNat + lines
  column_eq : rhs.column = lhs.column
  message_eq : rhs.message = lhs.message

namespace Displacement

def shift (lines bytes : Int) : Displacement :=
  ⟨lines, fun _ => 0, fun _ => bytes⟩

variable {lines bytes : Int}

theorem along_shift (number : Nat) (back : List Line) :
    (shift lines bytes).Along number bytes back back := by
  induction back generalizing number with
  | nil => exact .nil
  | cons line back ih =>
    apply Along.of_text_eq rfl rfl rfl
    rw [Int.sub_self, Int.add_zero]
    exact ih (number + 1)

end Displacement

section Shifted

open Displacement

variable {lines bytes : Int}

theorem Position.displaced_shift_iff {lhs rhs : Position} :
    lhs.Displaced (shift lines bytes) rhs ↔ lhs.Shifted lines bytes rhs := by
  constructor
  . intro h
    have hcolumn := h.column_eq
    simp only [shift, Int.add_zero, Int.natCast_inj, UInt32.toNat_inj] at hcolumn
    exact ⟨h.line_eq, hcolumn, h.offset_eq⟩
  . intro h
    refine ⟨h.line_eq, ?_, h.offset_eq⟩
    rw [h.column_eq]
    exact (Int.add_zero _).symm

theorem Token.Displaced.shifted {lhs rhs : Token} (h : lhs.Displaced (shift lines bytes) rhs) :
    lhs.Shifted lines bytes rhs :=
  ⟨h.kind_eq, Position.displaced_shift_iff.1 h.start, Position.displaced_shift_iff.1 h.stop,
    h.fileId_eq⟩

theorem LexicalError.Displaced.shifted {lhs rhs : LexicalError}
    (h : lhs.Displaced (shift lines bytes) rhs) : lhs.Shifted lines rhs := by
  have hcolumn := h.column_eq
  simp only [shift, Int.add_zero, Int.natCast_inj, UInt32.toNat_inj] at hcolumn
  exact ⟨h.kind_eq, h.line_eq, hcolumn, h.message_eq⟩

end Shifted

namespace Run

open Cursor

variable {options : Options} {front front' back : List Line} {cursor cursor' : Cursor}
  {lines bytes : Int}

theorem shifted_ofLines (hpast : cursor.Past front) (hpast' : cursor'.Past front')
    (hrange : Line.InRange (front ++ back)) (hrange' : Line.InRange (front' ++ back))
    (hlines : (front'.length : Int) = front.length + lines)
    (hbytes : (Line.bytes front' : Int) = Line.bytes front + bytes)
    (hlevels : cursor'.levels = cursor.levels)
    (hstop : back = [] → cursor.stop.Shifted lines bytes cursor'.stop) :
    List.Forall₂ (Token.Shifted lines bytes) ((ofLines options cursor back).tokens options)
        ((ofLines options cursor' back).tokens options) ∧
      ∃ failure failure', (ofLines options cursor back).abort = failure.map .rejected ∧
        (ofLines options cursor' back).abort = failure'.map .rejected ∧
        Option.Rel (LexicalError.Shifted lines) failure failure' := by
  have halong : (Displacement.shift lines bytes).Along (front.length + 1)
      (Line.bytes front' - Line.bytes front) back back := by
    rw [show (Line.bytes front' - Line.bytes front : Int) = bytes by omega]
    exact Displacement.along_shift _ back
  have hruns := @displaced_ofLines _ options _ _ _ _ _ _ hpast hpast' hrange hrange' hlines halong
    hlevels fun hnil => Position.displaced_shift_iff.2 (hstop hnil)
  rcases hruns.abort with ⟨failure, failure', habort, habort', hfailure⟩
  refine ⟨hruns.tokens.imp fun _ _ h => h.shifted, failure, failure', habort, habort', ?_⟩
  cases hfailure with
  | none => exact .none
  | some herror => exact .some herror.shifted

end Run

end Offside
