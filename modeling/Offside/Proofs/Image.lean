import Offside.Proofs.Blocks
import Offside.Proofs.Contribution

/-!
This module contains the shape of the tokens of a source that has no error: they are statements and
blocks.
-/

namespace Offside

namespace Levels

variable {levels after : Levels} {strict : Bool} {level : UInt32} {move : Move}

theorem laid_of_enter_eq_ok {kinds : List TokenKind}
    (h : levels.enter strict level = .ok (move, after)) (hkinds : Laid after.above.length kinds) :
    Laid levels.above.length (move.kinds ++ kinds) := by
  have laid_replicate_append {depth : Nat} (closed : Nat) (hlaid : Laid depth kinds) :
      Laid (depth + closed) (List.replicate closed .dedent ++ kinds) := by
    induction closed with
    | zero => exact hlaid
    | succ closed ih => exact .dedent ih
  cases changes_of_enter_eq_ok h with
  | stay => exact hkinds
  | indent => exact .indent hkinds
  | dedent =>
    -- The blocks that stay open are the outer ones, the others are those that are closed.
    have hle : (levels.closeAbove level).above.length ≤ levels.above.length :=
      (List.dropWhile_sublist _).length_le
    have hclosed : levels.above.length = (levels.closeAbove level).above.length +
        (levels.depth - (levels.closeAbove level).depth) := by
      unfold depth
      omega
    rw [Move.kinds, hclosed]
    exact laid_replicate_append _ hkinds

end Levels

theorem laid_replicate (depth : Nat) : Laid depth (List.replicate depth .dedent) := by
  induction depth with
  | zero => exact .nil
  | succ depth ih => exact .dedent ih

theorem Line.laid_of_outline_eq_ok {line : Line} {strict : Bool} {levels : Levels}
    {outline : Outline} {kinds : List TokenKind} (h : line.outline strict levels = .ok outline)
    (hkinds : Laid outline.levels.above.length kinds) :
    Laid levels.above.length (outline.kinds ++ kinds) := by
  rcases entered_of_outline_eq_ok h with ⟨-, henter, -, hcontent⟩
  unfold Outline.kinds
  split
  . apply Levels.laid_of_enter_eq_ok henter hkinds
  next hne =>
    rw [List.append_assoc, List.append_assoc]
    apply Levels.laid_of_enter_eq_ok henter
    apply Laid.statement
    . rw [List.isEmpty_iff] at hne
      exact hne
    . rw [hcontent]
      intro kind hmem
      apply Scan.wellSpelled_of_mem_kinds hmem
    . exact hkinds

namespace Run

open Cursor

variable {options : Options} {front back : List Line} {line : Line} {cursor next : Cursor}
  {entry : Option LayoutLine}

theorem tokens_ofLines_cons (hstep : cursor.step options line = .ok (entry, next)) :
    (ofLines options cursor (line :: back)).tokens options =
      entry.toList.flatMap (·.tokens options.fileId) ++
        (ofLines options next back).tokens options := by
  rw [ofLines_cons_of_ok hstep]
  unfold tokens
  dsimp
  rw [List.flatMap_append]
  split
  . rw [List.append_assoc]
  . rfl

theorem laid_ofLines (hreached : Reached options front cursor)
    (hrange : Line.InRange (front ++ back)) (hmark : options.markEnd = false)
    (habort : (ofLines options cursor back).abort = none) :
    Laid cursor.levels.above.length
      (((ofLines options cursor back).tokens options).map (·.kind)) := by
  induction back generalizing front cursor with
  | nil =>
    have htokens : (ofLines options cursor []).tokens options = cursor.closing options := rfl
    rw [htokens, map_kind_closing, hmark, if_neg Bool.false_ne_true, List.append_nil]
    exact laid_replicate _
  | cons line back ih =>
    rw [List.append_cons] at hrange
    have hfront := hrange.of_append
    have hpast := hreached.past hfront.of_append
    cases hstep : cursor.step options line with
    | error abort =>
      rw [ofLines_cons_of_error hstep] at habort
      contradiction
    | ok result =>
      rcases result with ⟨entry, next⟩
      have hnext : (ofLines options next back).abort = none := by
        rw [ofLines_cons_of_ok hstep] at habort
        exact habort
      have hlaid := ih (hreached.step hstep) hrange hnext
      rw [tokens_ofLines_cons hstep, List.map_append]
      rcases (step_cases hpast hfront hstep).2 with
        ⟨-, rfl, hlevels⟩ | ⟨outline, layoutLine, -, rfl, houtline, hshows, hlevels⟩
      . rw [← hlevels]
        exact hlaid
      . rw [hlevels] at hlaid
        simp only [Option.toList_some, List.flatMap_cons, List.flatMap_nil, List.append_nil]
        rw [hshows.map_kind_tokens]
        apply Line.laid_of_outline_eq_ok houtline hlaid

end Run

end Offside
