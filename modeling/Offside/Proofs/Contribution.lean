import Offside.Proofs.Run

/-!
This module contains what the lines at the start of a source amount to: the levels that are open
after them and the tokens that they contribute to the run over the whole source.
-/

namespace Offside

namespace Levels

variable {levels mid after : Levels} {strict : Bool} {level : UInt32} {move : Move}

theorem enterAll_append_singleton {front : List UInt32}
    (hfront : levels.enterAll strict front = .ok mid)
    (hlast : mid.enter strict level = .ok (move, after)) :
    levels.enterAll strict (front ++ [level]) = .ok after := by
  induction front generalizing levels with
  | nil =>
    rw [enterAll, Except.ok.injEq] at hfront
    subst hfront
    rw [List.nil_append, enterAll, hlast]
    rfl
  | cons first front ih =>
    rw [enterAll] at hfront
    rw [List.cons_append, enterAll]
    cases henter : levels.enter strict first with
    | error fault =>
      rw [henter] at hfront
      contradiction
    | ok entered =>
      rw [henter] at hfront
      exact ih hfront

theorem Entered.move_ne_dedent_zero (h : levels.Entered level move after) :
    move ≠ .dedent 0 := by
  intro hmove
  have heq := h.move_eq
  rw [hmove] at heq
  split at heq
  . contradiction
  . split at heq
    . contradiction
    . rw [Move.dedent.injEq, eq_comm, List.countP_eq_zero] at heq
      have := heq _ levels.top_mem_heights
      simp at this
      omega

end Levels

namespace Line

/--
The levels that are open after some lines, when the lines that are not blank are entered one after
the other.
-/
def levelsAfter (strict : Bool) (lines : List Line) : Except LevelFault Levels :=
  Levels.base.enterAll strict ((history lines).map Nat.toUInt32)

end Line

theorem LayoutLine.move_of_tokens_eq_nil {line : LayoutLine} {fileId : UInt32}
    (h : line.tokens fileId = []) : line.move = .stay ∨ line.move = .dedent 0 := by
  unfold tokens at h
  split at h
  . unfold opening at h
    dsimp at h
    split at h
    next hmove => exact .inl hmove
    next => contradiction
    next closed hmove =>
      rw [List.replicate_eq_nil_iff] at h
      rw [hmove, h]
      exact .inr rfl
  . simp at h

namespace Cursor

variable {options : Options} {front back : List Line} {line : Line} {cursor next : Cursor}
  {entry : Option LayoutLine}

theorem map_kind_closing (cursor : Cursor) (options : Options) :
    (cursor.closing options).map (·.kind) =
      List.replicate cursor.levels.above.length .dedent ++
        if options.markEnd then [.eof] else [] := by
  unfold closing
  dsimp only
  split <;> simp

theorem levels_eq_of_tokens_eq_nil (hreached : Reached options front cursor)
    (hrange : Line.InRange (front ++ [line])) (hstep : cursor.step options line = .ok (entry, next))
    (htokens : entry.toList.flatMap (·.tokens options.fileId) = []) :
    next.levels = cursor.levels := by
  have hpast := hreached.past hrange.of_append
  rcases (step_cases hpast hrange hstep).2 with
    ⟨-, -, hlevels⟩ | ⟨outline, layoutLine, -, rfl, houtline, hshows, hlevels⟩
  . exact hlevels
  . have henter := (Line.entered_of_outline_eq_ok houtline).2.1
    simp only [Option.toList_some, List.flatMap_cons, List.flatMap_nil, List.append_nil] at htokens
    rw [hlevels]
    -- The line stays at its level, as a line that closes blocks closes at least one.
    cases layoutLine.move_of_tokens_eq_nil htokens with
    | inl hstay =>
      rw [← hshows.move_eq, hstay] at henter
      apply Levels.eq_of_enter_stay henter
    | inr hdedent =>
      have hentered := Levels.entered_of_enter_eq_ok henter
      rw [hshows.move_eq] at hdedent
      exact absurd hdedent hentered.move_ne_dedent_zero

theorem Reached.levelsAfter_eq (h : Reached options front cursor) (hrange : Line.InRange front) :
    Line.levelsAfter options.singleStep front = .ok cursor.levels := by
  induction h with
  | start => rfl
  | step hreached hstep ih =>
    have hfront := ih hrange.of_append
    have hpast := hreached.past hrange.of_append
    unfold Line.levelsAfter at hfront ⊢
    rw [Line.history_append, List.map_append]
    rcases (step_cases hpast hrange hstep).2 with
      ⟨hblank, -, hlevels⟩ | ⟨outline, layoutLine, hblank, -, houtline, -, hlevels⟩
    . rw [Line.history_of_isBlank hblank, List.map_nil, List.append_nil, hlevels]
      exact hfront
    . rw [Line.history_of_not_isBlank hblank, hlevels]
      apply Levels.enterAll_append_singleton hfront (Line.entered_of_outline_eq_ok houtline).2.1

theorem Reached.ofLines_append (h : Reached options front cursor) (back : List Line) :
    Run.ofLines options .start (front ++ back) =
      { Run.ofLines options cursor back with
        lines := (Run.ofLines options .start front).lines ++
          (Run.ofLines options cursor back).lines } := by
  induction h generalizing back with
  | start => rfl
  | @step front line entry cursor next hreached hstep ih =>
    -- The last line before `next` is the first line after `cursor`.
    have hlast := ih [line]
    rw [List.append_assoc, ih ([line] ++ back), hlast]
    simp only [List.singleton_append, Run.ofLines, hstep, List.append_nil, List.append_assoc]

theorem Reached.step_of_append (h : Reached options (front ++ [line]) next) :
    ∃ entry cursor, Reached options front cursor ∧
      cursor.step options line = .ok (entry, next) := by
  generalize hlines : front ++ [line] = lines at h
  cases h with
  | start => simp at hlines
  | @step before other entry cursor _ hreached hstep =>
    have := List.append_inj' hlines rfl
    simp only [List.cons.injEq, and_true] at this
    rw [← this.1] at hreached
    rw [← this.2] at hstep
    exact ⟨entry, cursor, hreached, hstep⟩

end Cursor

namespace Run

/--
The tokens that some lines at the start of a source contribute to the tokens of the source.
-/
def contribution (options : Options) (lines : List Line) : List Token :=
  (ofLines options .start lines).lines.flatMap (·.tokens options.fileId)

variable {options : Options} {front back : List Line} {line : Line} {cursor next : Cursor}
  {entry : Option LayoutLine}

open Cursor

theorem contribution_append (h : Reached options front cursor) (back : List Line) :
    contribution options (front ++ back) =
      contribution options front ++
        (ofLines options cursor back).lines.flatMap (·.tokens options.fileId) := by
  unfold contribution
  rw [h.ofLines_append, List.flatMap_append]

theorem contribution_append_of_error {abort : Abort} (h : Reached options front cursor)
    (hstep : cursor.step options line = .error abort) (back : List Line) :
    contribution options (front ++ line :: back) = contribution options front := by
  rw [contribution_append h, ofLines_cons_of_error hstep]
  apply List.append_nil

theorem lines_append_singleton (h : Reached options front cursor)
    (hstep : cursor.step options line = .ok (entry, next)) :
    (ofLines options .start (front ++ [line])).lines =
      (ofLines options .start front).lines ++ entry.toList := by
  rw [h.ofLines_append, ofLines_cons_of_ok hstep]
  simp only [ofLines, List.append_nil]

theorem contribution_append_singleton (h : Reached options front cursor)
    (hstep : cursor.step options line = .ok (entry, next)) :
    contribution options (front ++ [line]) =
      contribution options front ++ entry.toList.flatMap (·.tokens options.fileId) := by
  unfold contribution
  rw [lines_append_singleton h hstep, List.flatMap_append]

theorem ofLines_append_of_error {abort : Abort} (h : Reached options front cursor)
    (hstep : cursor.step options line = .error abort) (back : List Line) :
    ofLines options .start (front ++ line :: back) =
      ⟨(ofLines options .start front).lines, cursor, some abort⟩ := by
  rw [h.ofLines_append, ofLines_cons_of_error hstep]
  simp only [List.append_nil]

theorem ofSource_of_reached {source : String} {failure : Option LexicalError}
    (h : Reached options front cursor) (hlines : Line.ofText source.toList = front ++ back)
    (habort : (ofLines options cursor back).abort = failure.map .rejected) :
    TokenStream.ofSource source options =
      .ok ⟨contribution options front ++ (ofLines options cursor back).tokens options,
        failure⟩ := by
  unfold TokenStream.ofSource ofSource tokens contribution
  rw [hlines, h.ofLines_append]
  dsimp only
  rw [habort]
  cases failure with
  | none => simp only [Option.map_none, List.flatMap_append, List.append_assoc]
  | some error => simp only [Option.map_some, List.flatMap_append]

theorem tokens_of_ofSource_eq_ok {source : String} {stream : TokenStream}
    (h : TokenStream.ofSource source options = .ok stream) :
    stream.tokens = (ofSource source options).tokens options := by
  unfold TokenStream.ofSource at h
  dsimp only at h
  split at h
  . rw [← Except.ok.inj h]
  . rw [← Except.ok.inj h]
  . contradiction

theorem tokenize_of_ofSource {source : String} {tokens : List Token}
    (h : TokenStream.ofSource source options = .ok ⟨tokens, none⟩) :
    tokenize source options = .ok tokens := by
  unfold TokenStream.ofSource at h
  unfold tokenize
  dsimp only at h ⊢
  split at h
  next habort =>
    rw [habort, (TokenStream.mk.inj (Except.ok.inj h)).1]
  . simp at h
  . contradiction

theorem ofSource_eq_ok {source : String} {stream : TokenStream}
    (h : TokenStream.ofSource source options = .ok stream) :
    (stream.failure = none ∧ ∃ cursor, Reached options (Line.ofText source.toList) cursor ∧
      stream.tokens =
        contribution options (Line.ofText source.toList) ++ cursor.closing options) ∨
    ∃ error front line back cursor, stream.failure = some error ∧
      Line.ofText source.toList = front ++ line :: back ∧ Reached options front cursor ∧
      cursor.step options line = .error (.rejected error) ∧
      stream.tokens = contribution options front := by
  unfold TokenStream.ofSource at h
  dsimp only at h
  rcases ofSource_cases source options with
    ⟨habort, hreached⟩ | ⟨front, line, back, abort, hlines, habort, hreached, hstep⟩
  . rw [habort] at h
    rw [← Except.ok.inj h]
    refine .inl ⟨rfl, _, hreached, ?_⟩
    unfold tokens
    rw [habort]
    rfl
  . rw [habort] at h
    cases abort with
    | overflow cause => contradiction
    | rejected error =>
      rw [← Except.ok.inj h]
      refine .inr ⟨error, front, line, back, _, rfl, hlines, hreached, hstep, ?_⟩
      rw [← contribution_append_of_error hreached hstep back, ← hlines]
      unfold tokens
      rw [habort]
      rfl

end Run

end Offside
