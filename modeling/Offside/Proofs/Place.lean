import Mathlib.Data.List.DropRight
import Offside.Proofs.Ending
import Offside.Proofs.Position

/-!
This module contains the places of a text. A position is the place after some text if it counts the
line feeds of this text, the characters of its last line and its bytes.
-/

namespace Offside

namespace Text

def lastLine (text : List Char) : List Char :=
  text.rtakeWhile (· != '\n')

variable {front back : List Char}

theorem lastLine_append (hback : '\n' ∉ back) :
    lastLine (front ++ back) = lastLine front ++ back := by
  induction back using List.reverseRecOn with
  | nil => simp
  | append_singleton back c ih =>
    rw [List.mem_append, List.mem_singleton, not_or] at hback
    unfold lastLine at ih ⊢
    rw [← List.append_assoc, List.rtakeWhile_concat_pos _ _ _ (by simp [Ne.symm hback.2]),
      ih hback.1, List.append_assoc]

theorem lastLine_append_feed (front : List Char) : lastLine (front ++ ['\n']) = [] := by
  unfold lastLine
  rw [List.rtakeWhile_concat_neg _ _ _ (by simp)]

end Text

structure Position.After (pos : Position) (front : List Char) : Prop where
  line_eq : pos.line.toNat = 1 + front.count '\n'
  column_eq : pos.column.toNat = 1 + (Text.lastLine front).length
  offset_eq : pos.offset.toNat = Text.byteSize front

namespace Position

variable {pos lhs rhs place : Position} {front text : List Char}

theorem after_start : start.After [] := by
  constructor <;> rfl

theorem After.advance (h : pos.After front) (htext : '\n' ∉ text)
    (hroom : pos.HasRoom text.length (Text.byteSize text)) :
    ∃ place, pos.advance text.length (Text.byteSize text) = .ok place ∧
      place.After (front ++ text) := by
  rcases advance_of_hasRoom hroom with ⟨place, hadvance, hline, hcolumn, hoffset⟩
  refine ⟨place, hadvance, ?_⟩
  constructor
  . rw [hline, h.line_eq, List.count_append, List.count_eq_zero.2 htext, Nat.add_zero]
  . rw [hcolumn, h.column_eq, Text.lastLine_append htext, List.length_append, Nat.add_assoc]
  . rw [hoffset, h.offset_eq, Text.byteSize_append]

theorem After.of_advance (h : pos.After front) (htext : '\n' ∉ text)
    (hroom : pos.HasRoom text.length (Text.byteSize text))
    (hadvance : pos.advance text.length (Text.byteSize text) = .ok place) :
    place.After (front ++ text) := by
  rcases h.advance htext hroom with ⟨place', hadvance', hplace⟩
  rw [hadvance, Except.ok.injEq] at hadvance'
  rw [hadvance']
  exact hplace

end Position

namespace Line

variable {lines : List Line}

theorem count_feed_flatMap_chars (h : ∀ line ∈ lines, line.Ended) :
    (lines.flatMap chars).count '\n' = lines.length := by
  induction lines with
  | nil => rfl
  | cons line lines ih =>
    rw [List.forall_mem_cons] at h
    rcases h.1 with ⟨body, hbody, rfl⟩
    rw [List.flatMap_cons, chars_ofBody, List.count_append, List.count_append,
      List.count_eq_zero.2 hbody, ih h.2, List.length_cons, List.count_singleton_self]
    omega

theorem lastLine_flatMap_chars (h : ∀ line ∈ lines, line.Ended) :
    Text.lastLine (lines.flatMap chars) = [] := by
  rcases List.eq_nil_or_concat lines with rfl | ⟨init, line, rfl⟩
  . rfl
  . rcases h line (by simp) with ⟨body, -, rfl⟩
    rw [List.concat_eq_append, List.flatMap_append, List.flatMap_singleton, chars_ofBody,
      ← List.append_assoc, Text.lastLine_append_feed]

theorem after_flatMap_chars (h : ∀ line ∈ lines, line.Ended) {number : UInt32} {offset : UInt64}
    (hnumber : number.toNat = lines.length + 1) (hoffset : offset.toNat = bytes lines) :
    (⟨number, 1, offset⟩ : Position).After (lines.flatMap chars) := by
  constructor
  . rw [hnumber, count_feed_flatMap_chars h, Nat.add_comm]
  . rw [lastLine_flatMap_chars h]
    rfl
  . exact hoffset

end Line

end Offside
