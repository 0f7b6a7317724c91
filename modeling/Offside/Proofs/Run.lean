import Offside.Proofs.History
import Offside.Proofs.Outline
import Offside.Run

/-!
This module contains the cursors that reading the lines of a source comes to, and what the open
levels are there. A run ends at such a cursor, after all lines or before a line that cannot be read.
-/

namespace Offside

namespace Line

def history (lines : List Line) : List Nat :=
  (lines.filter (!·.isBlank)).map (Text.level ·.text)

@[simp]
theorem history_append (front back : List Line) :
    history (front ++ back) = history front ++ history back := by
  simp [history]

theorem history_of_isBlank {line : Line} (h : line.isBlank = true) : history [line] = [] := by
  simp [history, h]

theorem history_of_not_isBlank {line : Line} (h : line.isBlank = false) :
    history [line] = [Text.level line.text] := by
  simp [history, h]

theorem InRange.toNat_level {front : List Line} {line : Line} (h : InRange (front ++ [line])) :
    (Text.level line.text).toUInt32.toNat = Text.level line.text := by
  have hbytes := h.bytes_le
  have hlevel := Text.level_le_length line.text
  have hlength := Text.length_le_byteSize line.text
  have htext := byteSize_text_le line
  simp only [bytes_append, bytes_cons, bytes_nil] at hbytes
  rw [Nat.toUInt32_eq]
  exact UInt32.toNat_ofNat_of_lt' (Nat.lt_of_le_of_lt (by omega) (by omega : 2 ^ 32 - 2 < 2 ^ 32))

end Line

namespace Cursor

/--
Whether reading some lines from the start of a source comes to a cursor.
-/
inductive Reached (options : Options) : List Line → Cursor → Prop where
  | start : Reached options [] .start
  | step {front : List Line} {line : Line} {entry : Option LayoutLine} {cursor next : Cursor} :
    Reached options front cursor →
    cursor.step options line = .ok (entry, next) →
    Reached options (front ++ [line]) next

variable {options : Options} {front : List Line} {line : Line} {cursor next : Cursor}
  {entry : Option LayoutLine}

theorem step_cases (hpast : cursor.Past front) (hrange : Line.InRange (front ++ [line]))
    (hstep : cursor.step options line = .ok (entry, next)) :
    next.Past (front ++ [line]) ∧
      ((line.isBlank = true ∧ entry = none ∧ next.levels = cursor.levels) ∨
        ∃ outline layoutLine, line.isBlank = false ∧ entry = some layoutLine ∧
          line.outline options.singleStep cursor.levels = .ok outline ∧
          layoutLine.Shows outline (front.length + 1) ∧ next.levels = outline.levels) := by
  cases hblank : line.isBlank with
  | true =>
    rcases step_of_isBlank hpast hrange hblank with ⟨next', hstep', hnext, hlevels⟩
    rw [hstep, Except.ok.injEq, Prod.mk.injEq] at hstep'
    rcases hstep' with ⟨rfl, rfl⟩
    exact ⟨hnext, .inl ⟨rfl, rfl, hlevels⟩⟩
  | false =>
    cases houtline : line.outline options.singleStep cursor.levels with
    | ok outline =>
      rcases step_of_outline_eq_ok hpast hrange hblank houtline with
        ⟨layoutLine, next', hstep', hshows, hnext, hlevels⟩
      rw [hstep, Except.ok.injEq, Prod.mk.injEq] at hstep'
      rcases hstep' with ⟨rfl, rfl⟩
      exact ⟨hnext, .inr ⟨outline, layoutLine, rfl, rfl, rfl, hshows, hlevels⟩⟩
    | error kind =>
      rcases step_of_outline_eq_error hpast hrange hblank houtline with ⟨error, hstep', -⟩
      rw [hstep] at hstep'
      contradiction

theorem Reached.past (h : Reached options front cursor) (hrange : Line.InRange front) :
    cursor.Past front := by
  induction h with
  | start => exact past_start
  | step hreached hstep ih => exact (step_cases (ih hrange.of_append) hrange hstep).1

theorem Reached.openAfter (h : Reached options front cursor) (hrange : Line.InRange front) :
    OpenAfter (Line.history front) cursor.levels.heights := by
  induction h with
  | start => exact openAfter_nil
  | step hreached hstep ih =>
    have hopen := ih hrange.of_append
    have hpast := hreached.past hrange.of_append
    rw [Line.history_append]
    rcases (step_cases hpast hrange hstep).2 with
      ⟨hblank, -, hlevels⟩ | ⟨outline, layoutLine, hblank, -, houtline, -, hlevels⟩
    . rw [Line.history_of_isBlank hblank, List.append_nil, hlevels]
      exact hopen
    . -- Any other line enters its level, also if it holds a comment only.
      have henter := (Line.entered_of_outline_eq_ok houtline).2.1
      have hentered := Levels.entered_of_enter_eq_ok henter
      rw [Line.history_of_not_isBlank hblank, hlevels, ← hrange.toNat_level]
      exact hentered.openAfter hopen

theorem step_eq_error {abort : Abort} (hpast : cursor.Past front)
    (hrange : Line.InRange (front ++ [line])) (hstep : cursor.step options line = .error abort) :
    line.isBlank = false ∧
      ∃ error, abort = .rejected error ∧ error.line.toNat = front.length + 1 ∧
        line.outline options.singleStep cursor.levels = .error error.kind := by
  cases hblank : line.isBlank with
  | true =>
    rcases step_of_isBlank hpast hrange hblank with ⟨next, hstep', -⟩
    rw [hstep] at hstep'
    contradiction
  | false =>
    cases houtline : line.outline options.singleStep cursor.levels with
    | ok outline =>
      rcases step_of_outline_eq_ok hpast hrange hblank houtline with ⟨_, _, hstep', -⟩
      rw [hstep] at hstep'
      contradiction
    | error kind =>
      rcases step_of_outline_eq_error hpast hrange hblank houtline with
        ⟨error, hstep', hkind, hline⟩
      rw [hstep, Except.error.injEq] at hstep'
      exact ⟨rfl, error, hstep', hline, by rw [hkind]⟩

end Cursor

namespace Run

open Cursor

variable {options : Options} {front : List Line} {cursor : Cursor}

theorem ofLines_cons_of_ok {line : Line} {back : List Line} {next : Cursor}
    {entry : Option LayoutLine} (hstep : cursor.step options line = .ok (entry, next)) :
    ofLines options cursor (line :: back) =
      { ofLines options next back with
        lines := entry.toList ++ (ofLines options next back).lines } := by
  rw [ofLines, hstep]

theorem ofLines_cons_of_error {line : Line} {back : List Line} {abort : Abort}
    (hstep : cursor.step options line = .error abort) :
    ofLines options cursor (line :: back) = ⟨[], cursor, some abort⟩ := by
  rw [ofLines, hstep]

theorem ofLines_cases (hreached : Reached options front cursor) (lines : List Line) :
    ((ofLines options cursor lines).abort = none ∧
      Reached options (front ++ lines) (ofLines options cursor lines).cursor) ∨
    ∃ mid line back abort, lines = mid ++ line :: back ∧
      (ofLines options cursor lines).abort = some abort ∧
      Reached options (front ++ mid) (ofLines options cursor lines).cursor ∧
      (ofLines options cursor lines).cursor.step options line = .error abort := by
  induction lines generalizing front cursor with
  | nil =>
    rw [List.append_nil]
    exact .inl ⟨rfl, hreached⟩
  | cons line lines ih =>
    rw [ofLines]
    split
    next abort hstep =>
      refine .inr ⟨[], line, lines, abort, rfl, rfl, ?_, hstep⟩
      rw [List.append_nil]
      exact hreached
    next entry next hstep =>
      rcases ih (hreached.step hstep) with
        ⟨habort, hcursor⟩ | ⟨mid, failing, back, abort, rfl, habort, hcursor, herror⟩
      . rw [List.append_assoc] at hcursor
        exact .inl ⟨habort, hcursor⟩
      . rw [List.append_assoc] at hcursor
        exact .inr ⟨line :: mid, failing, back, abort, rfl, habort, hcursor, herror⟩

theorem ofLines_start_cases (options : Options) (lines : List Line) :
    ((ofLines options .start lines).abort = none ∧
      Reached options lines (ofLines options .start lines).cursor) ∨
    ∃ front line back abort, lines = front ++ line :: back ∧
      (ofLines options .start lines).abort = some abort ∧
      Reached options front (ofLines options .start lines).cursor ∧
      (ofLines options .start lines).cursor.step options line = .error abort :=
  ofLines_cases .start lines

theorem ofSource_cases (source : String) (options : Options) :
    ((ofSource source options).abort = none ∧
      Reached options (Line.ofText source.toList) (ofSource source options).cursor) ∨
    ∃ front line back abort, Line.ofText source.toList = front ++ line :: back ∧
      (ofSource source options).abort = some abort ∧
      Reached options front (ofSource source options).cursor ∧
      (ofSource source options).cursor.step options line = .error abort :=
  ofLines_start_cases options (Line.ofText source.toList)

theorem rejected_of_abort_eq_some {source : String} {abort : Abort}
    (hsize : source.utf8ByteSize ≤ 2 ^ 32 - 2) (h : (ofSource source options).abort = some abort) :
    ∃ error, abort = .rejected error := by
  have hrange := Line.inRange_ofSource hsize
  rcases ofSource_cases source options with
    ⟨hnone, -⟩ | ⟨front, line, back, abort', hlines, habort, hcursor, hstep⟩
  . rw [hnone] at h
    contradiction
  . rw [hlines, List.append_cons] at hrange
    have hpast := hcursor.past hrange.of_append.of_append
    rw [h, Option.some.injEq] at habort
    subst habort
    rcases (step_eq_error hpast hrange.of_append hstep).2 with ⟨error, herror, -⟩
    exact ⟨error, herror⟩

end Run

end Offside
