import Offside.Proofs.Acceptance
import Offside.Proofs.Stage

/-!
This module contains the open levels of sources in which each block is to be one level above the
block around it. The open levels are then the numbers from 0 to the level of the last line, and a
line that closes blocks always finds its level among them.
-/

namespace Offside

open Cursor

namespace Cursor

variable {options : Options} {front : List Line} {line : Line} {cursor : Cursor}

theorem Reached.heights_eq_range (h : Reached options front cursor) (hrange : Line.InRange front)
    (hstrict : options.singleStep = true) :
    cursor.levels.heights = List.range (lastLevel (Line.history front) + 1) := by
  have hopen := h.openAfter hrange
  rw [← Levels.top_eq_lastLevel hopen]
  suffices hcontiguous : ∃ depth, cursor.levels.heights = List.range (depth + 1) by
    rcases hcontiguous with ⟨depth, hheights⟩
    rw [Levels.top_of_heights_eq_range hheights, hheights]
  clear hopen
  induction h with
  | start => exact ⟨0, rfl⟩
  | step hreached hstep ih =>
    rcases ih hrange.of_append with ⟨depth, hheights⟩
    have hpast := hreached.past hrange.of_append
    rcases (step_cases hpast hrange hstep).2 with
      ⟨-, -, hlevels⟩ | ⟨outline, layoutLine, -, -, houtline, -, hlevels⟩
    . rw [hlevels]
      exact ⟨depth, hheights⟩
    . have henter := (Line.entered_of_outline_eq_ok houtline).2.1
      rw [hstrict] at henter
      rw [hlevels]
      exact ⟨_, Levels.heights_eq_range_of_enter hheights henter⟩

theorem Reached.enterable_of_lt (h : Reached options front cursor) (hrange : Line.InRange front)
    (hstrict : options.singleStep = true) {level : Nat}
    (hlt : level < lastLevel (Line.history front)) :
    Enterable true (Line.history front) level := by
  have hmem : level ∈ cursor.levels.heights := by
    rw [h.heights_eq_range hrange hstrict, List.mem_range]
    omega
  exact .inr (.inr ⟨hlt, ((h.openAfter hrange).mem_iff level).1 hmem⟩)

theorem Reached.kind_ne_inconsistentDedent {error : LexicalError}
    (h : Reached options front cursor) (hrange : Line.InRange (front ++ [line]))
    (hstrict : options.singleStep = true)
    (hstep : cursor.step options line = .error (.rejected error)) :
    error.kind ≠ .inconsistentDedent := by
  rcases (h.breaks_of_step_eq_error hrange hstep).2 with ⟨error', herror, -, hbreaks⟩
  rw [← Abort.rejected.inj herror, hstrict] at hbreaks
  intro hkind
  rw [hkind] at hbreaks
  cases hbreaks with
  | dedent _ hnot hlt => exact hnot (h.enterable_of_lt hrange.of_append hstrict hlt)

end Cursor

namespace Run

variable {options : Options} {front : List Line} {line : Line}

theorem openLevels_eq_range (hrange : Line.InRange front)
    (habort : (ofLines options .start front).abort = none) (hstrict : options.singleStep = true) :
    (openLevels options front).map UInt32.toNat =
      List.range (lastLevel (Line.history front) + 1) :=
  (reached_of_abort_eq_none habort).heights_eq_range hrange hstrict

theorem tells_of_lt (hrange : Line.InRange (front ++ [line])) (hblank : line.isBlank = false)
    (hstrict : options.singleStep = true)
    (habort : (ofLines options .start (front ++ [line])).abort = none)
    (hlt : Text.level line.text < lastLevel (Line.history front)) :
    ∃ own, contribution options (front ++ [line]) = contribution options front ++ own ∧
      (own.map (·.kind)).count .indent = 0 ∧
      (own.map (·.kind)).count .dedent =
        lastLevel (Line.history front) - Text.level line.text := by
  rcases tells_openLevels hrange hblank habort with ⟨own, hown, htells⟩
  rcases (reached_of_abort_eq_none habort).step_of_append with ⟨_, _, hreached, -⟩
  have hbefore := openLevels_eq_range hrange.of_append (abort_eq_none_of_reached hreached).1 hstrict
  have hafter := openLevels_eq_range hrange habort hstrict
  rw [Line.history_append, Line.history_of_not_isBlank hblank, lastLevel_append_singleton] at hafter
  have hnot : ¬ ∃ top, openLevels options (front ++ [line]) = openLevels options front ++ [top] := by
    rintro ⟨top, htop⟩
    rw [htop, List.map_append, hbefore] at hafter
    have hlength := congrArg List.length hafter
    simp at hlength
    omega
  rcases htells.dedent hnot with ⟨hindent, hdedent⟩
  refine ⟨own, hown, hindent, ?_⟩
  rw [hdedent, ← Levels.countP_range_lt, ← hbefore, List.countP_map]
  rfl

end Run

namespace Tokenizer

variable {options : Options} {lines : List Line} {given : List Item} {tokenizer : Tokenizer}

theorem Stage.openLevels_eq_range (h : tokenizer.Stage options lines given)
    (hrange : Line.InRange lines) (hstrict : options.singleStep = true) :
    ∃ k, tokenizer.openLevels.map UInt32.toNat = List.range (k + 1) := by
  unfold openLevels
  cases h with
  | reading _ hlines hreached _ =>
    rw [← hlines] at hrange
    exact ⟨_, hreached.heights_eq_range hrange.of_append hstrict⟩
  | closed _ _ _ hlevels =>
    rw [hlevels]
    exact ⟨0, rfl⟩
  | failed _ hlines hreached _ _ _ hlevels =>
    rw [hlines] at hrange
    rw [hlevels]
    exact ⟨_, hreached.heights_eq_range hrange.of_append hstrict⟩

/--
If no block is more than one level above the block around it, then the open levels are consecutive
at any time. No line misses its level then, and a line that closes blocks closes one for each level
that it returns.
-/
theorem openLevels_contiguous (source : String) (options : Options)
    (hsize : source.utf8ByteSize ≤ 2 ^ 32 - 2) (hstrict : options.singleStep = true) :
    (∀ schedule, ∃ answers tokenizer k,
      (ofSource source options).calls schedule = .ok (answers, tokenizer) ∧
      tokenizer.openLevels.map UInt32.toNat = List.range (k + 1) ∧
      ∀ error, .error error ∈ answers.flatMap Answer.toList →
        error.kind ≠ .inconsistentDedent) ∧
    (∃ stream, TokenStream.ofSource source options = .ok stream ∧
      ∀ error, stream.failure = some error → error.kind ≠ .inconsistentDedent) ∧
    (∀ front line back, Line.ofText source.toList = front ++ line :: back →
      line.isBlank = false →
      (Run.ofLines options .start front).abort = none →
      Text.level line.text < lastLevel (Line.history front) →
      Text.level line.text ∈ (Run.openLevels options front).map UInt32.toNat ∧
      ((Run.ofLines options .start (front ++ [line])).abort = none →
        ∃ own, Run.contribution options (front ++ [line]) =
            Run.contribution options front ++ own ∧
          (own.map (·.kind)).count .indent = 0 ∧
          (own.map (·.kind)).count .dedent =
            lastLevel (Line.history front) - Text.level line.text)) := by
  have hrange := Line.inRange_ofSource hsize
  refine ⟨?_, ?_, ?_⟩
  . intro schedule
    rcases exists_calls_stage hsize options schedule with ⟨answers, tokenizer, hcalls, hstage⟩
    rcases hstage.openLevels_eq_range hrange hstrict with ⟨k, hopen⟩
    refine ⟨answers, tokenizer, k, hcalls, hopen, ?_⟩
    intro error hmem
    rcases hstage.step_of_error_mem hmem with ⟨front, line, back, cursor, hlines, hreached, hstep⟩
    rw [hlines, List.append_cons] at hrange
    exact hreached.kind_ne_inconsistentDedent hrange.of_append hstrict hstep
  . rcases @Run.exists_ofSource_eq_ok options source hsize with ⟨stream, hstream, -⟩
    refine ⟨stream, hstream, ?_⟩
    intro error hfailure
    rcases Run.ofSource_eq_ok hstream with
      ⟨hnone, -⟩ | ⟨error', front, line, back, cursor, hsome, hlines, hreached, hstep, -⟩
    . rw [hfailure] at hnone
      contradiction
    . rw [hfailure, Option.some.injEq] at hsome
      rw [← hsome] at hstep
      rw [hlines, List.append_cons] at hrange
      exact hreached.kind_ne_inconsistentDedent hrange.of_append hstrict hstep
  . intro front line back hlines hblank habort hlt
    rw [hlines, List.append_cons] at hrange
    refine ⟨?_, ?_⟩
    . rw [Run.openLevels_eq_range hrange.of_append.of_append habort hstrict, List.mem_range]
      omega
    . intro habort'
      exact Run.tells_of_lt hrange.of_append hblank hstrict habort' hlt

theorem openLevels_contiguous_two_closed :
    "a\n\tb\n\t\tc\nd\n".utf8ByteSize ≤ 2 ^ 32 - 2 ∧
    ({ singleStep := true } : Options).singleStep = true ∧
    (∃ answers tokenizer k,
      (ofSource "a\n\tb\n\t\tc\nd\n" { singleStep := true }).calls [.take 7] =
        .ok (answers, tokenizer) ∧
      tokenizer.openLevels.map UInt32.toNat = List.range (k + 1)) ∧
    ∃ own, Run.contribution { singleStep := true } (Line.ofText "a\n\tb\n\t\tc\nd\n".toList) =
        Run.contribution { singleStep := true } (Line.ofText "a\n\tb\n\t\tc\n".toList) ++ own ∧
      (own.map (·.kind)).count .dedent = 2 := by
  have hsize : "a\n\tb\n\t\tc\nd\n".utf8ByteSize ≤ 2 ^ 32 - 2 := by decide
  have hlines : Line.ofText "a\n\tb\n\t\tc\nd\n".toList =
      Line.ofText "a\n\tb\n\t\tc\n".toList ++ ⟨['d'], ['\n']⟩ :: [] := by decide
  rcases openLevels_contiguous "a\n\tb\n\t\tc\nd\n" { singleStep := true } hsize rfl with
    ⟨hcalls, -, hdedent⟩
  rcases hcalls [.take 7] with ⟨answers, tokenizer, k, htake, hopen, -⟩
  rcases hdedent _ _ _ hlines (by decide) (by decide +kernel) (by decide) with ⟨-, hown⟩
  rcases hown (by decide +kernel) with ⟨own, heq, -, hcount⟩
  rw [hlines]
  exact ⟨hsize, rfl, ⟨answers, tokenizer, k, htake, hopen⟩, own, heq, hcount⟩

end Tokenizer

end Offside
