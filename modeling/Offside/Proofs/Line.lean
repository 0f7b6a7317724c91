import Mathlib.Algebra.Group.Nat.Defs
import Offside.Line

/-!
This module contains what the physical lines of a text have in common. Put together they are the
text, and if the text is not too long then lines, columns and offsets can be counted in words.
-/

namespace Offside

namespace Text

theorem length_le_byteSize (text : List Char) : text.length ≤ byteSize text := by
  induction text with
  | nil => simp
  | cons c text ih =>
    have := c.utf8Size_pos
    simp only [List.length_cons, byteSize_cons]
    omega

end Text

namespace Line

def bytes (lines : List Line) : Nat :=
  Text.byteSize (lines.flatMap chars)

@[simp]
theorem bytes_nil : bytes [] = 0 := rfl

@[simp]
theorem bytes_cons (line : Line) (lines : List Line) :
    bytes (line :: lines) = Text.byteSize line.chars + bytes lines := by
  simp [bytes]

@[simp]
theorem bytes_append (front back : List Line) :
    bytes (front ++ back) = bytes front + bytes back := by
  simp [bytes]

/--
Whether the lines can be counted in words, and so can their characters and bytes.
-/
structure InRange (lines : List Line) : Prop where
  nonempty : ∀ line ∈ lines, line.chars ≠ []
  bytes_le : bytes lines ≤ 2 ^ 32 - 2

theorem length_le_bytes {lines : List Line} (h : ∀ line ∈ lines, line.chars ≠ []) :
    lines.length ≤ bytes lines := by
  induction lines with
  | nil => simp
  | cons line lines ih =>
    have hline := List.length_pos_iff.2 (h line (by simp))
    have hsize := Text.length_le_byteSize line.chars
    have := ih (fun other hmem => h other (List.mem_cons_of_mem line hmem))
    rw [List.length_cons, bytes_cons]
    omega

theorem InRange.length_le {lines : List Line} (h : InRange lines) :
    lines.length ≤ 2 ^ 32 - 2 := by
  apply Nat.le_trans (length_le_bytes h.nonempty)
  exact h.bytes_le

theorem InRange.of_append {front back : List Line} (h : InRange (front ++ back)) :
    InRange front := by
  have hbytes := h.bytes_le
  rw [bytes_append] at hbytes
  constructor
  . intro line hmem
    exact h.nonempty line (List.mem_append_left back hmem)
  . omega

theorem byteSize_text_le (line : Line) : Text.byteSize line.text ≤ Text.byteSize line.chars := by
  unfold chars
  rw [Text.byteSize_append]
  omega

theorem extend_ne_nil {c : Char} {pieces : List (List Char)} (h : ∀ piece ∈ pieces, piece ≠ []) :
    ∀ piece ∈ extend c pieces, piece ≠ [] := by
  unfold extend
  split
  . simpa using h
  . cases pieces with
    | nil => simp
    | cons first pieces =>
      simp only [List.mem_cons, forall_eq_or_imp] at h ⊢
      exact ⟨List.cons_ne_nil c first, h.2⟩

theorem cut_ne_nil (text : List Char) : ∀ piece ∈ cut text, piece ≠ [] := by
  induction text with
  | nil => simp [cut]
  | cons c text ih => exact extend_ne_nil ih

@[simp]
theorem flatMap_chars_ofText (text : List Char) : (ofText text).flatMap chars = text := by
  unfold ofText
  rw [List.flatMap_map]
  simp

theorem inRange_ofText {text : List Char} (h : Text.byteSize text ≤ 2 ^ 32 - 2) :
    InRange (ofText text) := by
  constructor
  . intro line hmem
    unfold ofText at hmem
    rw [List.mem_map] at hmem
    rcases hmem with ⟨piece, hpiece, rfl⟩
    rw [chars_ofChars]
    exact cut_ne_nil text piece hpiece
  . unfold bytes
    rw [flatMap_chars_ofText]
    exact h

theorem inRange_ofSource {source : String} (h : source.utf8ByteSize ≤ 2 ^ 32 - 2) :
    InRange (ofText source.toList) := by
  apply inRange_ofText
  rw [Text.byteSize_toList]
  exact h

theorem cut_append_feed {body : List Char} (h : '\n' ∉ body) (rest : List Char) :
    cut (body ++ '\n' :: rest) = (body ++ ['\n']) :: cut rest := by
  induction body with
  | nil => rfl
  | cons c body ih =>
    rw [List.mem_cons, not_or] at h
    rw [cut, List.cons_append, List.foldr_cons, ← cut, ih h.2]
    unfold extend
    rw [if_neg (Ne.symm h.1)]
    rfl

theorem ofText_append_feed {body : List Char} (h : '\n' ∉ body) (rest : List Char) :
    ofText (body ++ '\n' :: rest) = ofBody body ['\n'] :: ofText rest := by
  unfold ofText
  rw [cut_append_feed h, List.map_cons]
  unfold ofChars
  simp

end Line

end Offside
