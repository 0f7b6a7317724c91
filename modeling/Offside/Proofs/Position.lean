import Mathlib.Algebra.Group.Nat.Defs
import Offside.LexicalError
import Offside.Text

/-!
This module contains the places that a position can be advanced to. As long as a place fits the
words of a position, its column and its offset are exact.
-/

namespace Offside

namespace Word

theorem add32_toUInt32 {lhs : UInt32} {n : Nat} (h : lhs.toNat + n < 2 ^ 32) :
    ∃ sum, add32 lhs n.toUInt32 = .ok sum ∧ sum.toNat = lhs.toNat + n := by
  have hn : n.toUInt32.toNat = n := UInt32.toNat_ofNat_of_lt' (Nat.lt_of_le_of_lt (by omega) h)
  have hsum : (lhs + n.toUInt32).toNat = lhs.toNat + n := by
    rw [UInt32.toNat_add, hn]
    omega
  refine ⟨_, ?_, hsum⟩
  rw [add32_eq_ok_iff, hsum, hn]

theorem add64_toUInt64 {lhs : UInt64} {n : Nat} (h : lhs.toNat + n < 2 ^ 64) :
    ∃ sum, add64 lhs n.toUInt64 = .ok sum ∧ sum.toNat = lhs.toNat + n := by
  have hn : n.toUInt64.toNat = n := UInt64.toNat_ofNat_of_lt' (Nat.lt_of_le_of_lt (by omega) h)
  have hsum : (lhs + n.toUInt64).toNat = lhs.toNat + n := by
    rw [UInt64.toNat_add, hn]
    omega
  refine ⟨_, ?_, hsum⟩
  rw [add64_eq_ok_iff, hsum, hn]

end Word

namespace Position

/--
Whether the place `chars` characters and `bytes` bytes after `pos` fits the words of a position.
-/
structure HasRoom (pos : Position) (chars bytes : Nat) : Prop where
  column_lt : pos.column.toNat + chars < 2 ^ 32
  offset_lt : pos.offset.toNat + bytes < 2 ^ 64

variable {pos : Position} {chars bytes chars' bytes' : Nat}

theorem HasRoom.mono (h : pos.HasRoom chars bytes) (hchars : chars' ≤ chars)
    (hbytes : bytes' ≤ bytes) : pos.HasRoom chars' bytes' := by
  have hcolumn := h.column_lt
  have hoffset := h.offset_lt
  constructor
  . omega
  . omega

theorem advance_of_hasRoom (h : pos.HasRoom chars bytes) :
    ∃ place, pos.advance chars bytes = .ok place ∧ place.line = pos.line ∧
      place.column.toNat = pos.column.toNat + chars ∧
      place.offset.toNat = pos.offset.toNat + bytes := by
  rcases Word.add32_toUInt32 h.column_lt with ⟨column, hadd32, hcolumn⟩
  rcases Word.add64_toUInt64 h.offset_lt with ⟨offset, hadd64, hoffset⟩
  refine ⟨⟨pos.line, column, offset⟩, ?_, rfl, hcolumn, hoffset⟩
  unfold advance
  rw [hadd32, hadd64]
  rfl

theorem HasRoom.of_advance {place : Position} (h : pos.HasRoom (chars + chars') (bytes + bytes'))
    (hadvance : pos.advance chars bytes = .ok place) : place.HasRoom chars' bytes' := by
  have hhere : pos.HasRoom chars bytes := h.mono (by omega) (by omega)
  rcases advance_of_hasRoom hhere with ⟨place', hplace, -, hcolumn, hoffset⟩
  rw [hadvance, Except.ok.injEq] at hplace
  subst hplace
  have hcolumn_lt := h.column_lt
  have hoffset_lt := h.offset_lt
  constructor
  . omega
  . omega

end Position

theorem Abort.reject_of_hasRoom {pos : Position} {chars bytes : Nat} (kind : LexicalErrorKind)
    (message : String) (h : pos.HasRoom chars bytes) :
    ∃ column, column.toNat = pos.column.toNat + chars ∧
      Abort.reject kind pos chars bytes message = .rejected ⟨kind, pos.line, column, message⟩ := by
  rcases Position.advance_of_hasRoom h with ⟨place, hadvance, hline, hcolumn, -⟩
  refine ⟨place.column, hcolumn, ?_⟩
  unfold Abort.reject
  rw [hadvance, ← hline]
  rfl

end Offside
