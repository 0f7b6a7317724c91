import Offside.Proofs.SourceLine

/-!
This module contains the pieces of a text between its line feeds. There is one more of them than
there are line feeds, and a source file finds each of them by its number.
-/

namespace Offside

namespace Text

def TrimsTo (text shown : List Char) : Prop :=
  shown.getLast? ≠ some '\r' ∧ ∃ count, text = shown ++ List.replicate count '\r'

/--
Whether a text can be cut out between two byte offsets: they come in this order, and none of them is
past the end or inside a character.
-/
structure Sliceable (text : List Char) (start stop : Nat) : Prop where
  start_le_stop : start ≤ stop
  stop_le_byteSize : stop ≤ byteSize text
  start_boundary : ∃ front back, front ++ back = text ∧ byteSize front = start
  stop_boundary : ∃ front back, front ++ back = text ∧ byteSize front = stop
  isSome_slice? : (slice? text start stop).isSome = true

variable {text piece body rest : List Char} {front : List Line}

theorem trimsTo_trimReturns (text : List Char) : TrimsTo text (trimReturns text) :=
  ⟨getLast?_trimReturns_ne text, eq_trimReturns_append text⟩

theorem sliceable_append (front mid back : List Char) :
    Sliceable (front ++ (mid ++ back)) (byteSize front) (byteSize front + byteSize mid) := by
  constructor
  . apply Nat.le_add_right
  . rw [byteSize_append, byteSize_append, ← Nat.add_assoc]
    apply Nat.le_add_right
  . exact ⟨front, mid ++ back, rfl, rfl⟩
  . exact ⟨front ++ mid, back, List.append_assoc _ _ _, byteSize_append front mid⟩
  . rw [slice?_append]
    rfl

theorem length_splitOn_feed (text : List Char) :
    (text.splitOn '\n').length = text.count '\n' + 1 := by
  induction text using Line.text_induction with
  | nil => rfl
  | last body hne hbody =>
    rw [List.splitOn_eq_singleton hbody, List.count_eq_zero.2 hbody]
    rfl
  | feed body rest hbody ih =>
    rw [List.splitOn_append_cons_self_of_not_mem hbody, List.length_cons, ih, List.count_append,
      List.count_eq_zero.2 hbody, List.count_cons_self, Nat.zero_add]

theorem pieceAfter_nil (hpiece : '\n' ∉ piece) (hrest : rest = [] ∨ ∃ tail, rest = '\n' :: tail) :
    PieceAfter (piece ++ rest) [] piece := by
  constructor
  . simp
  . exact hpiece
  . exact ⟨rest, rfl, hrest⟩

theorem PieceAfter.cons (h : PieceAfter rest front piece) (hbody : '\n' ∉ body) :
    PieceAfter (body ++ '\n' :: rest) (Line.ofBody body ['\n'] :: front) piece := by
  constructor
  . rw [List.forall_mem_cons]
    exact ⟨⟨body, hbody, rfl⟩, h.ended⟩
  . exact h.no_feed
  . rcases h.text_eq with ⟨tail, hrest, htail⟩
    refine ⟨tail, ?_, htail⟩
    rw [List.flatMap_cons, Line.chars_ofBody, hrest, List.append_assoc, List.append_assoc,
      List.singleton_append]

theorem exists_pieceAfter {i : Nat} (h : (text.splitOn '\n')[i]? = some piece) :
    ∃ front : List Line, front.length = i ∧ PieceAfter text front piece := by
  -- A text without a line feed is its own only piece.
  have only {body : List Char} (hbody : '\n' ∉ body) (i : Nat) (h : [body][i]? = some piece) :
      ∃ front : List Line, front.length = i ∧ PieceAfter body front piece := by
    rw [List.getElem?_singleton, Option.ite_none_right_eq_some, Option.some.injEq] at h
    have hpiece := pieceAfter_nil hbody (.inl rfl : ([] : List Char) = [] ∨ _)
    rw [List.append_nil, h.2] at hpiece
    exact ⟨[], h.1.symm, h.2 ▸ hpiece⟩
  induction text using Line.text_induction generalizing i with
  | nil => exact only List.not_mem_nil i h
  | last body hne hbody =>
    rw [List.splitOn_eq_singleton hbody] at h
    exact only hbody i h
  | feed body rest hbody ih =>
    rw [List.splitOn_append_cons_self_of_not_mem hbody] at h
    cases i with
    | zero =>
      rw [List.getElem?_cons_zero, Option.some.injEq] at h
      rw [← h]
      exact ⟨[], rfl, pieceAfter_nil hbody (.inr ⟨rest, rfl⟩)⟩
    | succ i =>
      rw [List.getElem?_cons_succ] at h
      rcases ih h with ⟨front, hlength, hpiece⟩
      exact ⟨_, congrArg (· + 1) hlength, hpiece.cons hbody⟩

end Text

namespace SourceFile

variable {file : SourceFile} {number : UInt32} {piece : List Char}

theorem length_lineOffsets_go (offset : Nat) (text : List Char) :
    (lineOffsets.go offset text).length = text.count '\n' := by
  induction text generalizing offset with
  | nil => rfl
  | cons c text ih =>
    rw [lineOffsets.go, List.count_cons]
    by_cases hfeed : c = '\n'
    . simp [hfeed, ih]
    . simp [hfeed, ih]

theorem lineRange?_eq_none (h : number = 0 ∨ 1 + file.source.toList.count '\n' < number.toNat) :
    file.lineRange? number = none := by
  unfold lineRange?
  dsimp only
  split
  . rfl
  next hne =>
    rw [Option.map_eq_none_iff, List.getElem?_eq_none_iff, lineOffsets, List.length_cons,
      length_lineOffsets_go]
    have hlt := h.resolve_left hne
    omega

theorem exists_line?_eq_some (hpos : number ≠ 0)
    (hle : number.toNat ≤ 1 + file.source.toList.count '\n') :
    ∃ piece front, (file.source.toList.splitOn '\n')[number.toNat - 1]? = some piece ∧
      number.toNat = front.length + 1 ∧ Text.PieceAfter file.source.toList front piece ∧
      file.line? number = some (Text.trimReturns piece) := by
  have hnumber : number.toNat ≠ 0 := fun hzero => hpos (UInt32.toNat_inj.1 hzero)
  have hlt : number.toNat - 1 < (file.source.toList.splitOn '\n').length := by
    rw [Text.length_splitOn_feed]
    omega
  have hpiece := List.getElem?_eq_getElem hlt
  rcases Text.exists_pieceAfter hpiece with ⟨front, hlength, hafter⟩
  have hfront : number.toNat = front.length + 1 := by omega
  exact ⟨_, front, hpiece, hfront, hafter, line?_of_pieceAfter hafter hfront⟩

theorem line?_eq_none_iff :
    file.line? number = none ↔
      number = 0 ∨ 1 + file.source.toList.count '\n' < number.toNat := by
  constructor
  . intro hnone
    by_cases hpos : number = 0
    . exact .inl hpos
    . refine .inr (Nat.lt_of_not_le fun hle => ?_)
      rcases exists_line?_eq_some hpos hle with ⟨piece, front, -, -, -, hsome⟩
      rw [hnone] at hsome
      contradiction
  . intro h
    unfold line?
    rw [lineRange?_eq_none h]

theorem exists_piece_of_line? {shown : List Char} (h : file.line? number = some shown) :
    ∃ piece, number ≠ 0 ∧ (file.source.toList.splitOn '\n')[number.toNat - 1]? = some piece ∧
      '\n' ∉ piece ∧ shown = Text.trimReturns piece := by
  have hsome : ¬ file.line? number = none := by
    rw [h]
    exact Option.some_ne_none shown
  rw [line?_eq_none_iff, not_or, Nat.not_lt] at hsome
  rcases exists_line?_eq_some hsome.1 hsome.2 with ⟨piece, front, hpiece, -, hafter, hline⟩
  rw [h, Option.some.injEq] at hline
  exact ⟨piece, hsome.1, hpiece, hafter.no_feed, hline⟩

theorem sliceable_of_lineRange? {start stop : Nat}
    (h : file.lineRange? number = some (start, stop)) :
    Text.Sliceable file.source.toList start stop := by
  by_cases hnone : number = 0 ∨ 1 + file.source.toList.count '\n' < number.toNat
  . rw [lineRange?_eq_none hnone] at h
    contradiction
  . rw [not_or, Nat.not_lt] at hnone
    rcases exists_line?_eq_some hnone.1 hnone.2 with ⟨piece, front, -, hnumber, hafter, -⟩
    rw [lineRange?_of_pieceAfter hafter hnumber, Option.some.injEq, Prod.mk.injEq] at h
    rcases hafter.text_eq with ⟨rest, htext, -⟩
    rw [htext, ← h.1, ← h.2]
    apply Text.sliceable_append

/--
A file finds the pieces of its text by their numbers, without the carriage returns at their ends. It
finds nothing for the number 0 and behind the last piece, and whatever it cuts out of its text for a
number can be cut out.
-/
theorem lines_are_pieces (file : SourceFile) (number : UInt32) :
    (file.line? number = none ↔
      number = 0 ∨ 1 + file.source.toList.count '\n' < number.toNat) ∧
    (number ≠ 0 → number.toNat ≤ 1 + file.source.toList.count '\n' →
      ∃ piece shown, (file.source.toList.splitOn '\n')[number.toNat - 1]? = some piece ∧
        Text.TrimsTo piece shown ∧ file.line? number = some shown) ∧
    ∀ start stop, file.lineRange? number = some (start, stop) →
      Text.Sliceable file.source.toList start stop := by
  refine ⟨line?_eq_none_iff, ?_, ?_⟩
  . intro hpos hle
    rcases exists_line?_eq_some hpos hle with ⟨piece, front, hpiece, -, -, hline⟩
    exact ⟨piece, _, hpiece, Text.trimsTo_trimReturns piece, hline⟩
  . intro start stop hrange
    exact sliceable_of_lineRange? hrange

/-- The empty piece behind the last line feed is a line, and nothing follows it. -/
example : ["ä\r\r\n\n", ""].map (fun source =>
    [0, 1, 2, 3, 4].map (⟨"main.wz", source⟩ : SourceFile).line?) =
      [[none, some ['ä'], some [], some [], none], [none, some [], none, none, none]] := by
  decide +kernel

end SourceFile

end Offside
