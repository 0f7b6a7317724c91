import Mathlib.Data.List.TakeWhile
import Offside.Layout
import Offside.Proofs.Indentation
import Offside.Proofs.Levels
import Offside.Proofs.Line
import Offside.Proofs.Scan

/-!
This module contains the outline of a line: what the line means apart from where it stands. In a
source that is not too long each line is read as its outline tells, and no place overflows.
-/

namespace Offside

/--
What a line does to the open levels, and the kinds of the tokens in its text.
-/
structure Outline where
  move : Move
  levels : Levels
  content : List TokenKind

def Move.kinds : Move → List TokenKind
  | .stay => []
  | .indent => [.indent]
  | .dedent closed => List.replicate closed .dedent

def Outline.kinds (outline : Outline) : List TokenKind :=
  if outline.content.isEmpty then
    outline.move.kinds
  else
    outline.move.kinds ++ outline.content ++ [.newline]

def Line.outline (line : Line) (strict : Bool) (levels : Levels) :
    Except LexicalErrorKind Outline :=
  if Text.WellIndented line.text then
    match levels.enter strict (Text.level line.text).toUInt32 with
    | .error fault => .error fault.kind
    | .ok (move, levels) =>
      let scan := Scan.ofText (Text.body line.text)
      match scan.fault with
      | some _ => .error .invalidToken
      | none => .ok ⟨move, levels, scan.kinds⟩
  else
    .error .invalidIndentation

theorem Line.entered_of_outline_eq_ok {line : Line} {strict : Bool} {levels : Levels}
    {outline : Outline} (h : line.outline strict levels = .ok outline) :
    Text.WellIndented line.text ∧
      levels.enter strict (Text.level line.text).toUInt32 = .ok (outline.move, outline.levels) ∧
      (Scan.ofText (Text.body line.text)).fault = none ∧
      outline.content = (Scan.ofText (Text.body line.text)).kinds := by
  unfold Line.outline at h
  split at h
  next hindented =>
    split at h
    . contradiction
    next henter =>
      dsimp at h
      split at h
      . contradiction
      next hfault =>
        rw [Except.ok.injEq] at h
        subst h
        exact ⟨hindented, henter, hfault, rfl⟩
  . contradiction

theorem Line.outline_of_isMargin {strict : Bool} {levels after : Levels} {move : Move} {level : Nat}
    {front text ending : List Char} (hfront : Text.IsMargin level front)
    (htext : ∀ c ∈ text.head?, Text.isIndent c = false)
    (henter : levels.enter strict level.toUInt32 = .ok (move, after))
    (hfault : (Scan.ofText text).fault = none) :
    (⟨front ++ text, ending⟩ : Line).outline strict levels =
      .ok ⟨move, after, (Scan.ofText text).kinds⟩ := by
  rcases hfront.wellIndented_append htext with ⟨hindented, hlevel⟩
  unfold outline
  rw [if_pos hindented]
  dsimp only
  rw [hlevel, henter, (Text.margin_append hfront.isIndent htext).2]
  dsimp only
  rw [hfault]

theorem Line.exists_body_eq_cons {line : Line} (h : line.isBlank = false) :
    ∃ c rest, Text.body line.text = c :: rest ∧ Text.isIndent c = false := by
  have hhead := List.head?_dropWhile_not Text.isIndent line.text
  cases hbody : Text.body line.text with
  | nil =>
    have hall := List.dropWhile_eq_nil_iff.1 hbody
    rw [isBlank, List.all_eq_true.2 hall] at h
    contradiction
  | cons c rest =>
    unfold Text.body at hbody
    rw [hbody] at hhead
    exact ⟨c, rest, rfl, by simpa using hhead⟩

structure LayoutLine.Shows (line : LayoutLine) (outline : Outline) (number : Nat) : Prop where
  move_eq : line.move = outline.move
  levels_eq : line.levels = outline.levels
  content_eq : line.content.map (·.kind) = outline.content
  line_eq : line.origin.line.toNat = number

namespace LayoutLine

theorem map_kind_opening (line : LayoutLine) (fileId : UInt32) :
    (line.opening fileId).map (·.kind) = line.move.kinds := by
  unfold opening
  cases line.move with
  | stay => rfl
  | indent => rfl
  | dedent closed => simp [Move.kinds]

theorem Shows.map_kind_tokens {layoutLine : LayoutLine} {outline : Outline} {number : Nat}
    (h : layoutLine.Shows outline number) (fileId : UInt32) :
    (layoutLine.tokens fileId).map (·.kind) = outline.kinds := by
  unfold tokens Outline.kinds
  rw [← h.content_eq, ← h.move_eq, List.isEmpty_map]
  split
  . exact map_kind_opening layoutLine fileId
  . simp only [List.map_append, map_kind_opening, List.map_cons, List.map_nil]

variable {start : Position} {line : Line}

theorem hasRoom_body {text : List Char} {origin : Position}
    (hroom : start.HasRoom text.length (Text.byteSize text))
    (horigin : start.advance (Text.margin text).length (Text.margin text).length = .ok origin) :
    origin.HasRoom (Text.body text).length (Text.byteSize (Text.body text)) := by
  -- Each character of the margin is one byte long.
  rw [← Text.margin_append_body text, List.length_append, Text.byteSize_append,
    Text.byteSize_margin] at hroom
  exact hroom.of_advance horigin

def Reads (outline : Except LexicalErrorKind Outline) (number : UInt32)
    (result : Except Abort LayoutLine) : Prop :=
  match outline with
  | .ok outline => ∃ line, result = .ok line ∧ line.Shows outline number.toNat
  | .error kind => ∃ column message, result = .error (.rejected ⟨kind, number, column, message⟩)

theorem reads_read (options : Options) (levels : Levels) (stop : Position)
    (hroom : start.HasRoom line.text.length (Text.byteSize line.text)) :
    Reads (line.outline options.singleStep levels) start.line
      (read options levels start stop line.text) := by
  have hlength := Text.length_le_byteSize line.text
  have hchars : start.HasRoom line.text.length line.text.length := hroom.mono (by omega) hlength
  unfold Line.outline
  by_cases hindented : Text.WellIndented line.text
  . rcases Indentation.ofText_of_wellIndented hchars hindented with ⟨level, hlevel, hindentation⟩
    have hmargin := Text.length_margin_le line.text
    have hwidth := hchars.mono hmargin hmargin
    rcases Position.advance_of_hasRoom hwidth with ⟨origin, hadvance, hline, -⟩
    have hbody := Scan.hasRoom_covered_ofText (hasRoom_body hroom hadvance)
    rw [if_pos hindented, ← hlevel, Nat.toUInt32_eq, UInt32.ofNat_toNat]
    unfold read
    rw [hindentation]
    dsimp only [bind, Except.bind]
    rw [hadvance]
    dsimp only [Except.mapError]
    cases henter : levels.enter options.singleStep level with
    | error fault =>
      refine ⟨origin.column, fault.message, ?_⟩
      rw [← hline]
      rfl
    | ok entered =>
      rcases entered with ⟨move, after⟩
      dsimp only
      cases hfault : (Scan.ofText (Text.body line.text)).fault with
      | none =>
        rcases Scan.tokens_of_fault_eq_none options.fileId hfault hbody with
          ⟨content, hcontent, hkinds⟩
        rw [hcontent]
        exact ⟨_, rfl, rfl, rfl, hkinds, congrArg UInt32.toNat hline⟩
      | some fault =>
        rcases Scan.tokens_of_fault_eq_some options.fileId hfault hbody with
          ⟨column, -, hcontent⟩
        rw [hcontent, hline]
        exact ⟨column, fault.message, rfl⟩
  . rcases Indentation.ofText_of_not_wellIndented hchars hindented with
      ⟨column, message, hindentation⟩
    rw [if_neg hindented]
    refine ⟨column, message, ?_⟩
    unfold read
    rw [hindentation]
    rfl

end LayoutLine

namespace Cursor

structure Past (cursor : Cursor) (front : List Line) : Prop where
  lines_eq : cursor.lines = front.length
  offset_eq : cursor.offset.toNat = Line.bytes front

theorem past_start : start.Past [] := by
  constructor
  . rfl
  . rfl

variable {options : Options} {cursor : Cursor} {front : List Line} {line : Line}

theorem pass_of_inRange (hpast : cursor.Past front) (hrange : Line.InRange (front ++ [line])) :
    ∃ next, cursor.pass line = .ok next ∧ next.Past (front ++ [line]) ∧
      next.levels = cursor.levels ∧ next.stop.line.toNat = front.length + 1 ∧
      (⟨next.stop.line, 1, cursor.offset⟩ : Position).HasRoom line.text.length
        (Text.byteSize line.text) := by
  have hlength := hrange.length_le
  have hbytes := hrange.bytes_le
  have htext := Line.byteSize_text_le line
  have hchars := Text.length_le_byteSize line.text
  simp only [List.length_append, List.length_singleton] at hlength
  simp only [Line.bytes_append, Line.bytes_cons, Line.bytes_nil] at hbytes
  have hlines : cursor.lines.toUInt32.toNat = front.length := by
    rw [hpast.lines_eq, Nat.toUInt32_eq]
    exact UInt32.toNat_ofNat_of_lt' (Nat.lt_of_le_of_lt (by omega) (by omega : 2 ^ 32 - 2 < 2 ^ 32))
  have hsum : cursor.lines.toUInt32.toNat + 1 < 2 ^ 32 := by omega
  rcases Word.add32_toUInt32 hsum with ⟨number, hnumber, hnumber'⟩
  have hsum : cursor.offset.toNat + Text.byteSize line.chars < 2 ^ 64 := by
    rw [hpast.offset_eq]
    omega
  rcases Word.add64_toUInt64 hsum with ⟨offset, hoffset, hoffset'⟩
  have hroom : (⟨number, 1, cursor.offset⟩ : Position).HasRoom line.text.length
      (Text.byteSize line.text) := by
    constructor
    . simp
      omega
    . simp [hpast.offset_eq]
      omega
  rcases Position.advance_of_hasRoom hroom with ⟨stop, hstop, hline, -⟩
  refine ⟨⟨cursor.lines + 1, offset, stop, cursor.levels⟩, ?_, ?_, rfl, ?_, ?_⟩
  . unfold pass
    rw [show (1 : UInt32) = Nat.toUInt32 1 from rfl, hnumber, hoffset]
    dsimp only [bind, Except.bind]
    rw [show Nat.toUInt32 1 = (1 : UInt32) from rfl, hstop]
    rfl
  . constructor
    . simp [hpast.lines_eq]
    . simp [hoffset', hpast.offset_eq]
  . rw [hline, hnumber', hlines]
  . rw [hline]
    exact hroom

theorem step_of_isBlank (hpast : cursor.Past front) (hrange : Line.InRange (front ++ [line]))
    (hblank : line.isBlank = true) :
    ∃ next, cursor.step options line = .ok (none, next) ∧ next.Past (front ++ [line]) ∧
      next.levels = cursor.levels := by
  rcases pass_of_inRange hpast hrange with ⟨next, hpass, hnext, hlevels, -⟩
  refine ⟨next, ?_, hnext, hlevels⟩
  unfold step
  rw [hpass]
  dsimp only [Except.mapError, bind, Except.bind]
  rw [if_pos hblank]
  rfl

theorem step_of_outline_eq_ok {outline : Outline} (hpast : cursor.Past front)
    (hrange : Line.InRange (front ++ [line])) (hblank : line.isBlank = false)
    (houtline : line.outline options.singleStep cursor.levels = .ok outline) :
    ∃ layoutLine next, cursor.step options line = .ok (some layoutLine, next) ∧
      layoutLine.Shows outline (front.length + 1) ∧ next.Past (front ++ [line]) ∧
      next.levels = outline.levels := by
  rcases pass_of_inRange hpast hrange with ⟨next, hpass, hnext, -, hnumber, hroom⟩
  have hreads := LayoutLine.reads_read options cursor.levels next.stop hroom
  rw [houtline] at hreads
  rcases hreads with ⟨layoutLine, hread, hshows⟩
  rw [hnumber] at hshows
  refine ⟨layoutLine, { next with levels := layoutLine.levels }, ?_, hshows, ?_, ?_⟩
  . unfold step
    rw [hpass]
    dsimp only [Except.mapError, bind, Except.bind]
    rw [hblank, if_neg Bool.false_ne_true, hread]
    rfl
  . exact ⟨hnext.lines_eq, hnext.offset_eq⟩
  . exact hshows.levels_eq

theorem step_of_outline_eq_error {kind : LexicalErrorKind} (hpast : cursor.Past front)
    (hrange : Line.InRange (front ++ [line])) (hblank : line.isBlank = false)
    (houtline : line.outline options.singleStep cursor.levels = .error kind) :
    ∃ error, cursor.step options line = .error (.rejected error) ∧ error.kind = kind ∧
      error.line.toNat = front.length + 1 := by
  rcases pass_of_inRange hpast hrange with ⟨next, hpass, hnext, -, hnumber, hroom⟩
  have hreads := LayoutLine.reads_read options cursor.levels next.stop hroom
  rw [houtline] at hreads
  rcases hreads with ⟨column, message, hread⟩
  refine ⟨⟨kind, next.stop.line, column, message⟩, ?_, rfl, hnumber⟩
  unfold step
  rw [hpass]
  dsimp only [Except.mapError, bind, Except.bind]
  rw [hblank, if_neg Bool.false_ne_true, hread]

end Cursor

end Offside
