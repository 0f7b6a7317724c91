import Offside.Proofs.OpenLevels

/-!
This module contains how far a tokenizer has come after a schedule of calls: it is between two
lines, it has come to the end of the source, or it has given the error of a line.
-/

namespace Offside

def Item.tokens (items : List Item) : List Token :=
  items.filterMap Except.toOption

@[simp]
theorem Item.tokens_map_ok (tokens : List Token) : Item.tokens (tokens.map .ok) = tokens := by
  simp [Item.tokens, List.filterMap_map, Function.comp_def, Except.toOption]

@[simp]
theorem Item.tokens_append (lhs rhs : List Item) :
    Item.tokens (lhs ++ rhs) = Item.tokens lhs ++ Item.tokens rhs := List.filterMap_append

theorem Item.tokens_append_of_eq {given : List Item} {pending tokens : List Token}
    (h : given ++ pending.map .ok = tokens.map .ok) : Item.tokens given ++ pending = tokens := by
  have htokens := congrArg Item.tokens h
  rw [tokens_append, tokens_map_ok, tokens_map_ok] at htokens
  exact htokens

theorem Run.cursor_ofSource_of_error {source : String} {options : Options} {front back : List Line}
    {line : Line} {cursor : Cursor} {abort : Abort}
    (hlines : Line.ofText source.toList = front ++ line :: back)
    (hreached : Cursor.Reached options front cursor)
    (hstep : cursor.step options line = .error abort) :
    (ofSource source options).cursor = cursor := by
  unfold ofSource
  rw [hlines, ofLines_append_of_error hreached hstep]

namespace Tokenizer

open Cursor Run

/--
The stages of a tokenizer that gave the items `given` of some lines. What it gave and what it has
yet to give of the lines that it read are the tokens of these lines, and its open levels are those
after these lines, or the base level alone once it closed all blocks.
-/
inductive Stage (options : Options) (lines : List Line) (given : List Item)
    (tokenizer : Tokenizer) : Prop where
  | reading {front : List Line} :
    tokenizer.finished = false →
    front ++ tokenizer.lines = lines →
    Reached options front tokenizer.cursor →
    given ++ tokenizer.pending.map .ok = (contribution options front).map .ok →
    Stage options lines given tokenizer
  | closed {cursor : Cursor} :
    tokenizer.finished = true →
    Reached options lines cursor →
    given ++ tokenizer.pending.map .ok =
      (contribution options lines ++ cursor.closing options).map .ok →
    tokenizer.cursor.levels = .base →
    Stage options lines given tokenizer
  | failed {front back : List Line} {line : Line} {cursor : Cursor} {error : LexicalError} :
    tokenizer.finished = true →
    lines = front ++ line :: back →
    Reached options front cursor →
    cursor.step options line = .error (.rejected error) →
    given = (contribution options front).map .ok ++ [.error error] →
    tokenizer.pending = [] →
    tokenizer.cursor.levels = cursor.levels →
    Stage options lines given tokenizer

variable {options : Options} {source : String} {lines : List Line} {taken : Nat}
  {tokenizer : Tokenizer}

theorem map_fst_pending (tokenizer : Tokenizer) :
    (tokenizer.pending.map fun token => ((.ok token : Item), tokenizer.cursor.levels)).map
      Prod.fst = tokenizer.pending.map .ok := by
  simp [Function.comp_def]

theorem Serves.stage_of_reading {items : List (Item × Levels)}
    (h : tokenizer.Serves options lines items taken)
    (hitems : items = (ofLines options .start lines).outlook options)
    (hfinished : tokenizer.finished = false) :
    Stage options lines ((items.take taken).map Prod.fst) tokenizer := by
  rcases h.reads.place hfinished with ⟨front, hlines, hreached⟩
  rw [h.options_eq] at hreached
  apply Stage.reading hfinished hlines hreached
  have hrest := h.outlook_eq
  unfold outlook at hrest
  rw [hfinished, if_neg Bool.false_ne_true, h.options_eq] at hrest
  -- The items of the lines that were not read yet are the last ones on both sides.
  rw [← hlines, outlook_append hreached, ← List.take_append_drop taken items, ← hrest,
    ← List.append_assoc, List.append_cancel_right_eq] at hitems
  rw [← map_fst_pending, ← List.map_append, hitems, map_outlook_lines]
  rfl

theorem Serves.append_pending {stream : TokenStream} {items : List (Item × Levels)}
    (h : tokenizer.Serves options lines items taken) (hitems : stream.items = items.map Prod.fst)
    (hfinished : tokenizer.finished = true) :
    stream.items.take taken ++ tokenizer.pending.map .ok = stream.items := by
  have hrest := h.outlook_eq
  unfold outlook at hrest
  rw [hfinished, if_pos rfl, List.append_nil] at hrest
  rw [hitems, ← List.map_take, ← map_fst_pending, hrest, ← List.map_append, List.take_append_drop]

theorem Serves.stage_of_finished {stream : TokenStream} (hsize : source.utf8ByteSize ≤ 2 ^ 32 - 2)
    (hstream : TokenStream.ofSource source options = .ok stream)
    (hitems : stream.items = ((Run.ofSource source options).outlook options).map Prod.fst)
    (habort : (Run.ofSource source options).abort = stream.failure.map .rejected)
    (h : tokenizer.Serves options (Line.ofText source.toList)
      ((Run.ofSource source options).outlook options) taken)
    (hle : taken ≤ stream.items.length) (hfinished : tokenizer.finished = true) :
    Stage options (Line.ofText source.toList) (stream.items.take taken) tokenizer := by
  have hgiven := h.append_pending hitems hfinished
  have hlength := congrArg List.length hitems
  rw [List.length_map] at hlength
  rcases ofSource_eq_ok hstream with
    ⟨hnone, cursor, hreached, htokens⟩ | ⟨error, front, line, back, cursor, hsome, hlines, hreached,
      hstep, htokens⟩
  . apply Stage.closed hfinished hreached
    . rw [hgiven, TokenStream.items, hnone, htokens]
      apply List.append_nil
    . rw [hnone] at habort
      exact (h.closed hfinished fun _ => habort).2
  . have hall : stream.items = (contribution options front).map .ok ++ [.error error] := by
      rw [TokenStream.items, hsome, htokens]
      rfl
    rw [hall] at hgiven
    have hpending : tokenizer.pending = [] := by
      rcases List.eq_nil_or_concat tokenizer.pending with hnil | ⟨init, last, hlast⟩
      . exact hnil
      . -- What is pending is a token, and what comes last is not.
        rw [hlast, List.concat_eq_append, List.map_append, ← List.append_assoc] at hgiven
        have := List.append_inj' hgiven rfl
        simp at this
    rw [hpending, List.map_nil, List.append_nil] at hgiven
    rw [hsome] at habort
    have htaken : ((Run.ofSource source options).outlook options).length ≤ taken := by
      rw [← hlength, hall, ← hgiven, List.length_take]
      apply Nat.min_le_left
    rcases levelsAt_of_failed hsize habort htaken with ⟨_, _, _, -, -, -, hlevels⟩
    rw [hall, hgiven]
    apply Stage.failed hfinished hlines hreached hstep rfl hpending
    rw [h.levels_eq, hlevels, cursor_ofSource_of_error hlines hreached hstep]

theorem Serves.stage {stream : TokenStream} (hsize : source.utf8ByteSize ≤ 2 ^ 32 - 2)
    (hstream : TokenStream.ofSource source options = .ok stream)
    (hitems : stream.items = ((Run.ofSource source options).outlook options).map Prod.fst)
    (habort : (Run.ofSource source options).abort = stream.failure.map .rejected)
    (h : tokenizer.Serves options (Line.ofText source.toList)
      ((Run.ofSource source options).outlook options) taken)
    (hle : taken ≤ stream.items.length) :
    Stage options (Line.ofText source.toList) (stream.items.take taken) tokenizer := by
  cases hfinished : tokenizer.finished with
  | true => exact h.stage_of_finished hsize hstream hitems habort hle hfinished
  | false =>
    rw [hitems, ← List.map_take]
    exact h.stage_of_reading rfl hfinished

theorem Stage.step_of_error_mem {given : List Item} {error : LexicalError}
    (h : tokenizer.Stage options lines given) (hmem : .error error ∈ given) :
    ∃ front line back cursor, lines = front ++ line :: back ∧ Reached options front cursor ∧
      cursor.step options line = .error (.rejected error) := by
  have not_mem {pending tokens : List Token} (hgiven : given ++ pending.map .ok = tokens.map .ok) :
      .error error ∉ given := by
    intro hmem
    have := List.mem_append_left (pending.map .ok) hmem
    rw [hgiven] at this
    simp at this
  cases h with
  | reading _ _ _ hgiven => exact absurd hmem (not_mem hgiven)
  | closed _ _ hgiven _ => exact absurd hmem (not_mem hgiven)
  | @failed _ _ _ _ other _ hlines hreached hstep hgiven _ _ =>
    have heq : error = other := by simpa [hgiven] using hmem
    rw [← heq] at hstep
    exact ⟨_, _, _, _, hlines, hreached, hstep⟩

theorem exists_calls_stage (hsize : source.utf8ByteSize ≤ 2 ^ 32 - 2) (options : Options)
    (schedule : List Call) :
    ∃ answers tokenizer, (ofSource source options).calls schedule = .ok (answers, tokenizer) ∧
      Stage options (Line.ofText source.toList) (answers.flatMap Answer.toList) tokenizer := by
  rcases @Run.exists_ofSource_eq_ok options source hsize with
    ⟨stream, hstream, hitems, habort, -⟩
  rcases exists_calls_eq_ok hsize hitems schedule with ⟨tokenizer, hcalls, hserves⟩
  have hgiven := @Call.serve_prefix stream.items 0 schedule
  rw [List.drop_zero] at hgiven
  refine ⟨_, tokenizer, hcalls, ?_⟩
  rw [List.prefix_iff_eq_take.1 hgiven]
  exact hserves.stage hsize hstream hitems habort hgiven.length_le

end Tokenizer

end Offside
