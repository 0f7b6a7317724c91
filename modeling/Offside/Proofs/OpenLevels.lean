import Offside.Proofs.Schedule
import Offside.Proofs.Spelling

/-!
This module contains what the open levels of a tokenizer are at any time: those that the lines read
so far leave open, or the base level alone once the end of the source was reached.
-/

namespace Offside

/--
Whether `openLevels` is the stack of levels that a history leaves open, with the base level at its
bottom and the level of the last line on top.
-/
structure Stacked (history : List Nat) (openLevels : List UInt32) : Prop where
  openAfter : OpenAfter history (openLevels.map UInt32.toNat)
  head?_eq : openLevels.head? = some 0
  getLast?_eq : openLevels.getLast?.map UInt32.toNat = some (lastLevel history)

/--
Whether the layout tokens among those of a line tell how the line changes the open levels: either it
opens one block, or it closes all blocks above its own level.
-/
structure Tells (kinds : List TokenKind) (level : Nat) (before after : List UInt32) : Prop where
  indent : (∃ top, after = before ++ [top]) → kinds.count .indent = 1 ∧ kinds.count .dedent = 0
  dedent : (¬ ∃ top, after = before ++ [top]) →
    kinds.count .indent = 0 ∧ kinds.count .dedent = before.countP (level < ·.toNat)

namespace Levels

variable {levels after : Levels} {level : UInt32} {move : Move}

theorem stacked_toList {history : List Nat} (h : OpenAfter history levels.heights) :
    Stacked history levels.toList := by
  constructor
  . exact h
  . rfl
  . rw [← List.getLast?_map, ← top_eq_lastLevel h]
    exact levels.getLast?_heights

theorem Entered.exists_append_iff (h : levels.Entered level move after) :
    (∃ top, after.toList = levels.toList ++ [top]) ↔ levels.top.toNat < level.toNat := by
  have hheights := h.heights_eq
  constructor
  . rintro ⟨top, htop⟩
    -- There is one level more only if no level was closed.
    have hlength := congrArg List.length hheights
    unfold heights at hlength
    rw [htop, List.length_map, List.length_append, List.length_append, List.length_singleton,
      List.length_singleton, ← heights, ← levels.toList.length_map UInt32.toNat, ← heights]
      at hlength
    have hfilter := List.length_filter_eq_length_iff.1 (Nat.add_right_cancel hlength).symm
    simpa using hfilter _ levels.top_mem_heights
  . intro hlt
    rw [filter_lt_heights_of_top_lt hlt] at hheights
    refine ⟨level, ?_⟩
    rw [← List.map_inj_right (fun x y hxy => UInt32.toNat_inj.1 hxy), List.map_append]
    exact hheights

theorem Entered.count_indent (h : levels.Entered level move after) :
    move.kinds.count .indent = if levels.top.toNat < level.toNat then 1 else 0 := by
  rw [h.move_eq]
  by_cases heq : level.toNat = levels.top.toNat
  . rw [if_pos heq, if_neg (by omega)]
    rfl
  . rw [if_neg heq]
    split
    . rfl
    . simp [Move.kinds, List.count_replicate]

theorem Entered.count_dedent (h : levels.Entered level move after) :
    move.kinds.count .dedent = levels.heights.countP (level.toNat < ·) := by
  have hnone (hle : levels.top.toNat ≤ level.toNat) :
      levels.heights.countP (level.toNat < ·) = 0 := by
    rw [List.countP_eq_zero]
    intro height hmem
    have := le_top_of_mem_heights hmem
    simp
    omega
  rw [h.move_eq]
  split
  next heq =>
    rw [hnone (by omega)]
    rfl
  next =>
    split
    next hlt =>
      rw [hnone (by omega)]
      rfl
    next => simp [Move.kinds]

end Levels

namespace Line

variable {line : Line} {strict : Bool} {levels : Levels} {outline : Outline}

theorem count_kinds_of_isLayout {kind : TokenKind} (hkind : kind.isLayout = true)
    (hnewline : kind ≠ .newline) (h : line.outline strict levels = .ok outline) :
    outline.kinds.count kind = outline.move.kinds.count kind := by
  have hcontent : outline.content.count kind = 0 := by
    rw [(entered_of_outline_eq_ok h).2.2.2, List.count_eq_zero]
    intro hmem
    rw [(Scan.wellSpelled_of_mem_kinds hmem).1] at hkind
    contradiction
  unfold Outline.kinds
  split
  . rfl
  . rw [List.count_append, List.count_append, hcontent]
    simp [hnewline.symm]

theorem tells_of_outline_eq_ok (h : line.outline strict levels = .ok outline)
    (hlevel : (Text.level line.text).toUInt32.toNat = Text.level line.text) :
    Tells outline.kinds (Text.level line.text) levels.toList outline.levels.toList := by
  have hentered := Levels.entered_of_enter_eq_ok (entered_of_outline_eq_ok h).2.1
  have hindent := hentered.count_indent
  have hdedent := hentered.count_dedent
  have hpushed := hentered.exists_append_iff
  rw [← count_kinds_of_isLayout rfl (by simp) h] at hindent hdedent
  rw [hlevel] at hindent hdedent hpushed
  constructor
  . intro hpush
    rw [hpushed] at hpush
    refine ⟨?_, ?_⟩
    . rw [hindent, if_pos hpush]
    . rw [hdedent, List.countP_eq_zero]
      intro height hmem
      have := Levels.le_top_of_mem_heights hmem
      simp
      omega
  . intro hpush
    rw [hpushed] at hpush
    refine ⟨?_, ?_⟩
    . rw [hindent, if_neg hpush]
    . rw [hdedent, Levels.heights, List.countP_map]
      rfl

end Line

namespace Run

open Cursor

variable {options : Options} {front : List Line} {line : Line} {cursor : Cursor}

def openLevels (options : Options) (lines : List Line) : List UInt32 :=
  (ofLines options .start lines).cursor.levels.toList

theorem abort_eq_none_of_reached (h : Reached options front cursor) :
    (ofLines options .start front).abort = none ∧
      (ofLines options .start front).cursor = cursor := by
  have happend := h.ofLines_append []
  rw [List.append_nil] at happend
  rw [happend]
  exact ⟨rfl, rfl⟩

theorem reached_of_abort_eq_none (h : (ofLines options .start front).abort = none) :
    Reached options front (ofLines options .start front).cursor := by
  rcases ofLines_start_cases options front with ⟨-, hreached⟩ | ⟨_, _, _, _, -, habort, -⟩
  . exact hreached
  . rw [h] at habort
    contradiction

theorem openLevels_eq_toList (h : Reached options front cursor) :
    openLevels options front = cursor.levels.toList := by
  unfold openLevels
  rw [(abort_eq_none_of_reached h).2]

theorem stacked_openLevels (hreached : Reached options front cursor)
    (hrange : Line.InRange front) : Stacked (Line.history front) (openLevels options front) := by
  rw [openLevels_eq_toList hreached]
  apply Levels.stacked_toList (hreached.openAfter hrange)

theorem tells_openLevels (hrange : Line.InRange (front ++ [line])) (hblank : line.isBlank = false)
    (habort : (ofLines options .start (front ++ [line])).abort = none) :
    ∃ own, contribution options (front ++ [line]) = contribution options front ++ own ∧
      Tells (own.map (·.kind)) (Text.level line.text) (openLevels options front)
        (openLevels options (front ++ [line])) := by
  have hreached := reached_of_abort_eq_none habort
  rcases hreached.step_of_append with ⟨entry, cursor, hfront, hstep⟩
  have hpast := hfront.past hrange.of_append
  rcases (step_cases hpast hrange hstep).2 with
    ⟨hblank', -⟩ | ⟨outline, layoutLine, -, rfl, houtline, hshows, hlevels⟩
  . rw [hblank] at hblank'
    contradiction
  . refine ⟨layoutLine.tokens options.fileId, ?_, ?_⟩
    . rw [contribution_append_singleton hfront hstep]
      simp
    . rw [hshows.map_kind_tokens, openLevels_eq_toList hfront, openLevels_eq_toList hreached,
        hlevels]
      apply Line.tells_of_outline_eq_ok houtline hrange.toNat_level

end Run

theorem TokenStream.failure_eq_of_mem {stream : TokenStream} {given : List Item}
    {error : LexicalError} (hgiven : given <+: stream.items) (hmem : .error error ∈ given) :
    stream.failure = some error ∧ stream.items.length ≤ given.length := by
  have hnot (tokens : List Token) : .error error ∉ tokens.map (Except.ok : Token → Item) := by
    simp
  have hitems := hgiven.mem hmem
  rcases hgiven with ⟨rest, hrest⟩
  unfold items at hrest hitems ⊢
  cases hfailure : stream.failure with
  | none =>
    rw [hfailure, Option.map_none, Option.toList_none, List.append_nil] at hitems
    exact absurd hitems (hnot _)
  | some failure =>
    rw [hfailure, Option.map_some, Option.toList_some] at hrest hitems
    rw [List.mem_append, List.mem_singleton, Except.error.injEq] at hitems
    rcases List.eq_nil_or_concat rest with rfl | ⟨front, last, rfl⟩
    . rw [List.append_nil] at hrest
      refine ⟨?_, ?_⟩
      . cases hitems with
        | inl htoken => exact absurd htoken (hnot _)
        | inr heq => rw [heq]
      . rw [hrest]
        apply Nat.le_refl
    . -- The error would be followed by another item, which all come after tokens only.
      rw [List.concat_eq_append, ← List.append_assoc] at hrest
      have hfront := (List.append_inj' hrest rfl).1
      have htoken : .error error ∈ given ++ front := by simp [hmem]
      rw [hfront] at htoken
      exact absurd htoken (hnot _)

theorem TokenStream.failure_eq_none {stream : TokenStream} {given : List Item}
    (hgiven : given <+: stream.items) (hlength : stream.items.length ≤ given.length)
    (hnone : ∀ error, .error error ∉ given) : stream.failure = none := by
  cases hfailure : stream.failure with
  | none => rfl
  | some error =>
    have hmem : .error error ∈ stream.items := by simp [items, hfailure]
    rw [← hgiven.eq_of_length_le hlength] at hmem
    exact absurd hmem (hnone error)

namespace Tokenizer

open Cursor

variable {options : Options} {tokenizer : Tokenizer}

theorem length_openLevels_eq (tokenizer : Tokenizer) :
    tokenizer.openLevels.length = tokenizer.cursor.levels.above.length + 1 :=
  tokenizer.cursor.levels.length_toList

theorem openLevels_of_reached {scanned : List Line} {cursor : Cursor}
    (hreached : Reached options scanned cursor) (hrange : Line.InRange scanned)
    (hlevels : tokenizer.cursor.levels = cursor.levels) :
    (Run.ofLines options .start scanned).abort = none ∧
      tokenizer.openLevels = Run.openLevels options scanned ∧
      Stacked (Line.history scanned) tokenizer.openLevels := by
  have heq : tokenizer.openLevels = Run.openLevels options scanned := by
    unfold openLevels
    rw [hlevels, Run.openLevels_eq_toList hreached]
  rw [heq]
  exact ⟨(Run.abort_eq_none_of_reached hreached).1, rfl, Run.stacked_openLevels hreached hrange⟩

theorem Serves.closed {source : String} {taken : Nat}
    (hserves : tokenizer.Serves options (Line.ofText source.toList)
      ((Run.ofSource source options).outlook options) taken)
    (hfinished : tokenizer.finished = true)
    (hnone : ((Run.ofSource source options).outlook options).length ≤ taken →
      (Run.ofSource source options).abort = none) :
    tokenizer.lines = [] ∧ tokenizer.cursor.levels = .base := by
  rcases hserves.reads.ended hfinished with hclosed | ⟨hpending, habort⟩
  . exact hclosed
  . -- All items were given, the error among them.
    have hrest := hserves.outlook_eq
    rw [outlook, hpending, if_pos hfinished, List.map_nil, List.append_nil, eq_comm,
      List.drop_eq_nil_iff] at hrest
    rw [hserves.options_eq] at habort
    exact absurd (hnone hrest) habort

/--
The open levels of a tokenizer after any schedule of calls, and how each line changes them.
-/
theorem openLevels_follow_history (source : String) (options : Options)
    (hsize : source.utf8ByteSize ≤ 2 ^ 32 - 2) :
    (∀ schedule, ∃ answers tokenizer,
      (ofSource source options).calls schedule = .ok (answers, tokenizer) ∧
      (tokenizer.finished = false →
        ∃ scanned, scanned ++ tokenizer.lines = Line.ofText source.toList ∧
          (Run.ofLines options .start scanned).abort = none ∧
          tokenizer.openLevels = Run.openLevels options scanned ∧
          Stacked (Line.history scanned) tokenizer.openLevels) ∧
      (∀ error, .error error ∈ answers.flatMap Answer.toList →
        ∃ scanned line rest, Line.ofText source.toList = scanned ++ line :: rest ∧
          error.line.toNat = scanned.length + 1 ∧
          (Run.ofLines options .start scanned).abort = none ∧
          tokenizer.openLevels = Run.openLevels options scanned ∧
          Stacked (Line.history scanned) tokenizer.openLevels) ∧
      (tokenizer.finished = true →
        (∀ error, .error error ∉ answers.flatMap Answer.toList) →
        tokenizer.lines = [] ∧ tokenizer.openLevels = [0])) ∧
    (∀ scanned line rest, Line.ofText source.toList = scanned ++ line :: rest →
      line.isBlank = false →
      (Run.ofLines options .start (scanned ++ [line])).abort = none →
      ∃ own, Run.contribution options (scanned ++ [line]) =
          Run.contribution options scanned ++ own ∧
        Tells (own.map (·.kind)) (Text.level line.text) (Run.openLevels options scanned)
          (Run.openLevels options (scanned ++ [line]))) := by
  have hrange := Line.inRange_ofSource hsize
  refine ⟨?_, ?_⟩
  . intro schedule
    rcases @Run.exists_ofSource_eq_ok options source hsize with ⟨stream, -, hitems, habort, -⟩
    rcases exists_calls_eq_ok hsize hitems schedule with ⟨tokenizer, hcalls, hserves⟩
    have hgiven := @Call.serve_prefix stream.items 0 schedule
    rw [List.drop_zero] at hgiven
    have hlength := congrArg List.length hitems
    rw [List.length_map] at hlength
    refine ⟨_, tokenizer, hcalls, ?_, ?_, ?_⟩
    . intro hfinished
      rcases hserves.reads.place hfinished with ⟨scanned, hlines, hreached⟩
      rw [hserves.options_eq] at hreached
      rw [← hlines] at hrange
      exact ⟨scanned, hlines, openLevels_of_reached hreached hrange.of_append rfl⟩
    . intro error hmem
      rcases TokenStream.failure_eq_of_mem hgiven hmem with ⟨hfailure, htaken⟩
      rw [hfailure] at habort
      rw [hlength] at htaken
      rcases Run.levelsAt_of_failed hsize habort htaken with
        ⟨scanned, line, rest, hlines, hline, hreached, hlevels⟩
      rw [← hserves.levels_eq] at hlevels
      rw [hlines] at hrange
      exact ⟨scanned, line, rest, hlines, hline,
        openLevels_of_reached hreached hrange.of_append hlevels⟩
    . intro hfinished hnone
      have hclosed : tokenizer.lines = [] ∧ tokenizer.cursor.levels = .base := by
        apply hserves.closed hfinished
        intro htaken
        rw [← hlength] at htaken
        rw [habort, TokenStream.failure_eq_none hgiven htaken hnone]
        rfl
      refine ⟨hclosed.1, ?_⟩
      unfold openLevels
      rw [hclosed.2]
      rfl
  . intro scanned line rest hlines hblank habort
    rw [hlines, List.append_cons] at hrange
    apply Run.tells_openLevels hrange.of_append hblank habort

theorem openLevels_follow_history_one_block :
    "a\n\tb\n".utf8ByteSize ≤ 2 ^ 32 - 2 ∧
    ∃ answers tokenizer scanned,
      (ofSource "a\n\tb\n" {}).calls [.take 4] = .ok (answers, tokenizer) ∧
      tokenizer.finished = false ∧
      tokenizer.openLevels = [0, 1] ∧
      scanned ++ tokenizer.lines = Line.ofText "a\n\tb\n".toList ∧
      Stacked (Line.history scanned) [0, 1] := by
  have hsize : "a\n\tb\n".utf8ByteSize ≤ 2 ^ 32 - 2 := by decide
  rcases (openLevels_follow_history "a\n\tb\n" {} hsize).1 [.take 4] with
    ⟨answers, tokenizer, hcalls, hscanned, -⟩
  have hafter : (((ofSource "a\n\tb\n" {}).calls [.take 4]).toOption.map fun result =>
      (result.2.finished, result.2.openLevels)) = some (false, [0, 1]) := by
    decide +kernel
  rw [hcalls] at hafter
  have hstate := Prod.mk.inj (Option.some.inj hafter)
  rcases hscanned hstate.1 with ⟨scanned, hlines, -, -, hstacked⟩
  rw [hstate.2] at hstacked
  exact ⟨hsize, answers, tokenizer, scanned, hcalls, hstate.1, hstate.2, hlines, hstacked⟩

end Tokenizer

end Offside
