import Offside.Proofs.Ending
import Offside.SourceFile

/-!
This module contains the lines that a source file finds by their numbers. They are the physical
lines of its text without the carriage returns at their ends.
-/

namespace Offside

namespace Text

variable {text front mid back : List Char}

theorem trimReturns_append_return (text : List Char) :
    trimReturns (text ++ ['\r']) = trimReturns text := by
  unfold trimReturns
  rw [List.foldr_append]
  rfl

theorem eq_trimReturns_append (text : List Char) :
    ∃ count, text = trimReturns text ++ List.replicate count '\r' := by
  induction text with
  | nil => exact ⟨0, rfl⟩
  | cons c text ih =>
    rcases ih with ⟨count, htext⟩
    rw [trimReturns, List.foldr_cons, ← trimReturns]
    split
    next htrim =>
      simp only [Bool.and_eq_true, beq_iff_eq, List.isEmpty_iff] at htrim
      rw [htrim.2, List.nil_append] at htext
      refine ⟨count + 1, ?_⟩
      rw [htrim.1, htext, List.replicate_succ, List.nil_append]
    next => exact ⟨count, by rw [List.cons_append, ← htext]⟩

theorem trimReturns_prefix (text : List Char) : trimReturns text <+: text := by
  rcases eq_trimReturns_append text with ⟨count, htext⟩
  exact ⟨_, htext.symm⟩

theorem getLast?_trimReturns_ne (text : List Char) : (trimReturns text).getLast? ≠ some '\r' := by
  induction text with
  | nil => simp [trimReturns]
  | cons c text ih =>
    rw [trimReturns, List.foldr_cons, ← trimReturns]
    split
    . simp
    next htrim =>
      cases hrest : trimReturns text with
      | nil => simpa [hrest] using htrim
      | cons d rest =>
        rw [hrest] at ih
        rw [List.getLast?_cons_cons]
        exact ih

theorem slice?_append (front mid back : List Char) :
    slice? (front ++ (mid ++ back)) (byteSize front) (byteSize front + byteSize mid) = some mid := by
  have hfront : cutAt? (front ++ (mid ++ back)) (byteSize front) = some (front, mid ++ back) :=
    cutAt?_eq_some_iff.2 ⟨rfl, rfl⟩
  have hmid : cutAt? (mid ++ back) (byteSize mid) = some (mid, back) :=
    cutAt?_eq_some_iff.2 ⟨rfl, rfl⟩
  unfold slice?
  rw [if_pos (Nat.le_add_right _ _), hfront, Nat.add_sub_cancel_left]
  dsimp only
  rw [hmid]
  rfl

end Text

namespace SourceFile

variable {front back : List Line} {line : Line} {body : List Char}

theorem lineOffsets_go_of_no_feed (h : '\n' ∉ body) (offset : Nat) :
    lineOffsets.go offset body = [] := by
  induction body generalizing offset with
  | nil => rfl
  | cons c body ih =>
    rw [List.mem_cons, not_or] at h
    rw [lineOffsets.go, if_neg (Ne.symm h.1), ih h.2]

theorem lineOffsets_go_append_feed (h : '\n' ∉ body) (offset : Nat) (rest : List Char) :
    lineOffsets.go offset (body ++ '\n' :: rest) =
      (offset + (Text.byteSize body + 1)) ::
        lineOffsets.go (offset + (Text.byteSize body + 1)) rest := by
  induction body generalizing offset with
  | nil => rfl
  | cons c body ih =>
    rw [List.mem_cons, not_or] at h
    rw [List.cons_append, lineOffsets.go, if_neg (Ne.symm h.1), ih h.2, Text.byteSize_cons,
      ← Nat.add_assoc, ← Nat.add_assoc, ← Nat.add_assoc]

theorem drop_lineOffsets (h : ∀ line ∈ front, line.Ended) (offset : Nat) (rest : List Char) :
    (offset :: lineOffsets.go offset (front.flatMap Line.chars ++ rest)).drop front.length =
      (offset + Line.bytes front) :: lineOffsets.go (offset + Line.bytes front) rest := by
  induction front generalizing offset with
  | nil => rfl
  | cons line front ih =>
    rw [List.forall_mem_cons] at h
    rcases h.1 with ⟨body, hbody, rfl⟩
    rw [List.flatMap_cons, Line.chars_ofBody, List.append_assoc, List.append_assoc,
      List.singleton_append, lineOffsets_go_append_feed hbody, List.length_cons,
      List.drop_succ_cons, ih h.2, Line.bytes_cons, Line.chars_ofBody, Text.byteSize_append,
      Nat.add_assoc]
    rfl

theorem lineOffsets_after (h : ∀ line ∈ front, line.Ended) (rest : List Char) :
    (lineOffsets (front.flatMap Line.chars ++ rest)).drop front.length =
      Line.bytes front :: lineOffsets.go (Line.bytes front) rest := by
  have hdrop := drop_lineOffsets h 0 rest
  rw [Nat.zero_add] at hdrop
  exact hdrop

end SourceFile

theorem Line.Between.exists_chars_eq {front back : List Line} {line : Line}
    (h : Between front line back) :
    ∃ body, '\n' ∉ body ∧ Text.trimReturns body = Text.trimReturns line.text ∧
      (line.chars = body ++ ['\n'] ∨ (line.chars = body ∧ back = [])) := by
  have hending := h.ending_mem
  have hlast := h.feed_or_last
  have hreturn : '\n' ∉ line.text ++ ['\r'] := by simp [h.no_feed]
  unfold chars
  simp only [List.mem_cons, List.not_mem_nil, or_false] at hending
  rcases hending with hnil | hnil | hnil | hnil
  . rw [hnil] at hlast ⊢
    exact ⟨line.text, h.no_feed, rfl, .inr ⟨List.append_nil _, hlast.resolve_left (by simp)⟩⟩
  . rw [hnil] at hlast ⊢
    exact ⟨_, hreturn, Text.trimReturns_append_return _, .inr ⟨rfl, hlast.resolve_left (by simp)⟩⟩
  . rw [hnil]
    exact ⟨line.text, h.no_feed, rfl, .inl rfl⟩
  . rw [hnil]
    refine ⟨_, hreturn, Text.trimReturns_append_return _, .inl ?_⟩
    rw [List.append_assoc]
    rfl

def Line.IsShownAs (line : Line) (shown : List Char) : Prop :=
  shown.getLast? ≠ some '\r' ∧ ∃ count feed, (feed = [] ∨ feed = ['\n']) ∧
    line.chars = shown ++ (List.replicate count '\r' ++ feed)

theorem Line.Between.isShownAs {front back : List Line} {line : Line}
    (h : Between front line back) :
    line.IsShownAs (Text.trimReturns line.text) := by
  rcases h.exists_chars_eq with ⟨body, -, htrim, hchars⟩
  rcases Text.eq_trimReturns_append body with ⟨count, hbody⟩
  rw [htrim] at hbody
  refine ⟨Text.getLast?_trimReturns_ne _, count, ?_⟩
  rcases hchars with hchars | ⟨hchars, -⟩
  . exact ⟨['\n'], .inr rfl, by rw [hchars, ← List.append_assoc, ← hbody]⟩
  . exact ⟨[], .inl rfl, by rw [hchars, List.append_nil, ← hbody]⟩

/--
Whether a piece of a text stands behind the lines `front` and goes up to a line feed or to the end.
-/
structure Text.PieceAfter (text : List Char) (front : List Line) (piece : List Char) : Prop where
  ended : ∀ line ∈ front, line.Ended
  no_feed : '\n' ∉ piece
  text_eq : ∃ rest, text = front.flatMap Line.chars ++ (piece ++ rest) ∧
    (rest = [] ∨ ∃ tail, rest = '\n' :: tail)

namespace SourceFile

variable {file : SourceFile} {front back : List Line} {line : Line} {number : UInt32}
  {piece : List Char}

theorem lineRange?_of_pieceAfter (h : Text.PieceAfter file.source.toList front piece)
    (hnumber : number.toNat = front.length + 1) :
    file.lineRange? number =
      some (Line.bytes front, Line.bytes front + Text.byteSize piece) := by
  rcases h.text_eq with ⟨rest, htext, hrest⟩
  have hoffsets := lineOffsets_after h.ended (piece ++ rest)
  rw [← htext] at hoffsets
  have hstart : (lineOffsets file.source.toList)[front.length]? = some (Line.bytes front) := by
    rw [← Nat.add_zero front.length, ← List.getElem?_drop, hoffsets]
    rfl
  have hnext : (lineOffsets file.source.toList)[front.length + 1]? =
      (lineOffsets.go (Line.bytes front) (piece ++ rest))[0]? := by
    rw [← List.getElem?_drop, hoffsets]
    rfl
  have hpos : number ≠ 0 := by
    rintro rfl
    simp at hnumber
  unfold lineRange?
  dsimp only
  rw [if_neg hpos, hnumber, Nat.add_sub_cancel, hstart, hnext]
  rcases hrest with rfl | ⟨tail, rfl⟩
  . rw [List.append_nil, lineOffsets_go_of_no_feed h.no_feed, htext, List.append_nil,
      Text.byteSize_append]
    rfl
  . rw [lineOffsets_go_append_feed h.no_feed]
    rfl

theorem line?_of_pieceAfter (h : Text.PieceAfter file.source.toList front piece)
    (hnumber : number.toNat = front.length + 1) :
    file.line? number = some (Text.trimReturns piece) := by
  have hslice : Text.slice? file.source.toList (Line.bytes front)
      (Line.bytes front + Text.byteSize piece) = some piece := by
    rcases h.text_eq with ⟨rest, htext, -⟩
    rw [htext]
    exact Text.slice?_append _ _ _
  unfold line?
  rw [lineRange?_of_pieceAfter h hnumber]
  dsimp only
  rw [hslice, Option.map_some]

theorem line?_eq_some (h : Line.ofText file.source.toList = front ++ line :: back)
    (hnumber : number.toNat = front.length + 1) :
    file.line? number = some (Text.trimReturns line.text) := by
  have hbetween := Line.between_of_ofText h
  rcases hbetween.exists_chars_eq with ⟨body, hbody, htrim, hchars⟩
  have htext : file.source.toList =
      front.flatMap Line.chars ++ (line.chars ++ back.flatMap Line.chars) := by
    rw [← Line.flatMap_chars_ofText file.source.toList, h, List.flatMap_append, List.flatMap_cons]
  have hpiece : Text.PieceAfter file.source.toList front body := by
    constructor
    . exact hbetween.ended
    . exact hbody
    . rcases hchars with hchars | ⟨hchars, hback⟩
      . rw [hchars, List.append_assoc] at htext
        exact ⟨_, htext, .inr ⟨_, rfl⟩⟩
      . rw [hchars, hback] at htext
        exact ⟨_, htext, .inl rfl⟩
  rw [line?_of_pieceAfter hpiece hnumber, htrim]

end SourceFile

end Offside
