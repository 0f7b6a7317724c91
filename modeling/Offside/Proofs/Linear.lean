import Offside.Proofs.OpenLevels

/-!
This module contains the number of items of a source. The tokens that close blocks are paid for by
those that open them, so that there are at most three more items for each line than characters.
-/

namespace Offside

theorem Scan.length_kinds_le (text : List Char) : (ofText text).kinds.length ≤ text.length := by
  unfold kinds
  induction text using ofText.induct with
  | case1 =>
    rw [ofText_nil]
    rfl
  | case2 c text fault hcut =>
    rw [ofText_cons_of_fault hcut]
    exact Nat.zero_le _
  | case3 c text lexeme rest hcut ih =>
    have hlength := Lexeme.cut_length hcut
    have hkind : (List.filterMap (·.kind) [lexeme]).length ≤ 1 := List.length_filterMap_le _ _
    rw [ofText_cons_of_cut hcut, ← List.singleton_append, List.filterMap_append,
      List.length_append, List.length_cons]
    omega

theorem Levels.length_kinds_add_le {levels after : Levels} {strict : Bool} {level : UInt32}
    {move : Move} (h : levels.enter strict level = .ok (move, after)) :
    move.kinds.length + after.above.length ≤ levels.above.length + 2 := by
  -- Only a line that opens a block adds something: its token and the block.
  cases changes_of_enter_eq_ok h with
  | stay => simp [Move.kinds]
  | indent =>
    unfold push Move.kinds
    simp only [List.length_cons, List.length_nil]
    omega
  | dedent =>
    have hle := (levels.closeAbove_prefix level).length_le
    rw [length_toList, length_toList] at hle
    unfold depth at hle ⊢
    unfold Move.kinds
    rw [List.length_replicate]
    omega

namespace Line

variable {line : Line} {strict : Bool} {levels : Levels} {outline : Outline}

theorem length_kinds_add_le (h : line.outline strict levels = .ok outline) :
    outline.kinds.length + outline.levels.above.length ≤
      levels.above.length + (line.text.length + 3) := by
  rcases entered_of_outline_eq_ok h with ⟨-, henter, -, hcontent⟩
  have hmove := Levels.length_kinds_add_le henter
  have hkinds := Scan.length_kinds_le (Text.body line.text)
  have hbody := congrArg List.length (Text.margin_append_body line.text)
  rw [← hcontent] at hkinds
  rw [List.length_append] at hbody
  unfold Outline.kinds
  split
  . omega
  . rw [List.length_append, List.length_append, List.length_singleton]
    omega

/--
What some lines may add to the items of a source: one item for each character, and for each line
that is not blank one that opens a block, one that closes it and the end of a statement.
-/
def allowance (lines : List Line) : Nat :=
  (lines.flatMap chars).length + 3 * lines.countP (!·.isBlank)

theorem allowance_append (front back : List Line) :
    allowance (front ++ back) = allowance front + allowance back := by
  unfold allowance
  rw [List.flatMap_append, List.length_append, List.countP_append]
  omega

theorem allowance_of_not_isBlank (h : line.isBlank = false) :
    line.text.length + 3 ≤ allowance [line] := by
  unfold allowance chars
  simp [h]

end Line

namespace Run

open Cursor

variable {options : Options} {front : List Line} {cursor : Cursor}

theorem length_contribution_add_le (hreached : Reached options front cursor)
    (hrange : Line.InRange front) :
    (contribution options front).length + cursor.levels.above.length ≤ Line.allowance front := by
  induction hreached with
  | start => exact Nat.zero_le _
  | step hreached hstep ih =>
    have hfront := ih hrange.of_append
    have hpast := hreached.past hrange.of_append
    rw [contribution_append_singleton hreached hstep, List.length_append, Line.allowance_append]
    rcases (step_cases hpast hrange hstep).2 with
      ⟨-, rfl, hlevels⟩ | ⟨outline, layoutLine, hblank, rfl, houtline, hshows, hlevels⟩
    . rw [hlevels, Option.toList_none, List.flatMap_nil, List.length_nil]
      omega
    . have hline := Line.length_kinds_add_le houtline
      have hallowance := Line.allowance_of_not_isBlank hblank
      have htokens := congrArg List.length (hshows.map_kind_tokens options.fileId)
      rw [List.length_map] at htokens
      rw [hlevels, Option.toList_some, List.flatMap_singleton]
      omega

theorem length_closing_le (cursor : Cursor) (options : Options) :
    (cursor.closing options).length ≤ cursor.levels.above.length + 1 := by
  unfold closing
  dsimp only
  split
  . rw [List.length_append, List.length_replicate, List.length_singleton]
  . rw [List.length_replicate]
    omega

theorem length_items_le {source : String} {stream : TokenStream}
    (hsize : source.utf8ByteSize ≤ 2 ^ 32 - 2)
    (hstream : TokenStream.ofSource source options = .ok stream) :
    stream.items.length ≤ Line.allowance (Line.ofText source.toList) + 1 := by
  have hrange := Line.inRange_ofSource hsize
  unfold TokenStream.items
  rcases ofSource_eq_ok hstream with
    ⟨hnone, cursor, hreached, htokens⟩ |
    ⟨error, front, line, back, cursor, hsome, hlines, hreached, -, htokens⟩
  . have hcontribution := length_contribution_add_le hreached hrange
    have hclosing := length_closing_le cursor options
    rw [hnone, htokens, List.length_append, List.length_map, List.length_append]
    simp only [Option.map_none, Option.toList_none, List.length_nil]
    omega
  . rw [hlines] at hrange ⊢
    have hcontribution := length_contribution_add_le hreached hrange.of_append
    rw [hsome, htokens, List.length_append, List.length_map, Line.allowance_append]
    simp only [Option.map_some, Option.toList_some, List.length_singleton]
    omega

end Run

namespace Tokenizer

/--
How a tokenizer obtains its next answer: as long as no token is pending and the end was not reached,
it reads on and tries again. The number tells how often it reads on.
-/
inductive Obtains : Tokenizer → Nat → Option Item → Tokenizer → Prop where
  | pending {tokenizer : Tokenizer} {token : Token} {pending : List Token} :
    tokenizer.pending = token :: pending →
    Obtains tokenizer 0 (some (.ok token)) { tokenizer with pending }
  | finished {tokenizer : Tokenizer} :
    tokenizer.pending = [] → tokenizer.finished = true →
    Obtains tokenizer 0 none tokenizer
  | failed {tokenizer : Tokenizer} {error : LexicalError} :
    tokenizer.pending = [] → tokenizer.finished = false →
    tokenizer.fill = .error (.rejected error) →
    Obtains tokenizer 1 (some (.error error)) { tokenizer with finished := true }
  | again {tokenizer filled after : Tokenizer} {fills : Nat} {item : Option Item} :
    tokenizer.pending = [] → tokenizer.finished = false →
    tokenizer.fill = .ok filled →
    Obtains filled fills item after →
    Obtains tokenizer (fills + 1) item after

variable {tokenizer filled after last : Tokenizer} {item : Option Item} {items : List Item}
  {fills : Nat}

theorem pending_or_finished_of_fill (h : tokenizer.fill = .ok filled) :
    filled.pending ≠ [] ∨ filled.finished = true := by
  by_cases hpending : filled.pending = []
  . exact .inr (finished_of_fill_go h hpending)
  . exact .inl hpending

theorem exists_obtains (h : tokenizer.next = .ok (item, after)) :
    ∃ fills, tokenizer.Obtains fills item after := by
  cases gives_of_next_eq_ok h with
  | pending hpending => exact ⟨0, .pending hpending⟩
  | finished hpending hfinished => exact ⟨0, .finished hpending hfinished⟩
  | failed hpending hfinished hfill => exact ⟨1, .failed hpending hfinished hfill⟩
  | filled hpending hfinished hfill hfilled =>
    exact ⟨1, .again hpending hfinished hfill (.pending hfilled)⟩
  | closed hpending hfinished hfill hfilled =>
    exact ⟨1, .again hpending hfinished hfill
      (.finished hfilled (finished_of_fill_go hfill hfilled))⟩

theorem Obtains.gives (h : tokenizer.Obtains fills item after) :
    fills ≤ 1 ∧ tokenizer.Gives item after := by
  cases h with
  | pending hpending => exact ⟨Nat.zero_le 1, .pending hpending⟩
  | finished hpending hfinished => exact ⟨Nat.zero_le 1, .finished hpending hfinished⟩
  | failed hpending hfinished hfill => exact ⟨Nat.le_refl 1, .failed hpending hfinished hfill⟩
  | again hpending hfinished hfill hobtains =>
    have hfilled := pending_or_finished_of_fill hfill
    cases hobtains with
    | pending htoken => exact ⟨Nat.le_refl 1, .filled hpending hfinished hfill htoken⟩
    | finished hnone => exact ⟨Nat.le_refl 1, .closed hpending hfinished hfill hnone⟩
    | failed hnone hreading => simp [hnone, hreading] at hfilled
    | again hnone hreading => simp [hnone, hreading] at hfilled

theorem fused_of_next_eq_none (h : tokenizer.next = .ok (none, after)) :
    after.next = .ok (none, after) := by
  have hpending : after.pending = [] := by
    cases gives_of_next_eq_ok h with
    | finished hpending => exact hpending
    | closed _ _ _ hfilled => exact hfilled
  exact (Gives.finished hpending (finished_of_next_eq_none h)).next_eq_ok

theorem drain_cases (h : tokenizer.drain = .ok (items, last)) :
    (items = [] ∧ tokenizer.next = .ok (none, last)) ∨
      ∃ item after rest, items = item :: rest ∧ tokenizer.next = .ok (some item, after) ∧
        after.drain = .ok (rest, last) := by
  rw [drain] at h
  split at h
  . contradiction
  next hnext =>
    rw [Except.ok.injEq, Prod.mk.injEq] at h
    rw [← h.2]
    exact .inl ⟨h.1.symm, hnext⟩
  next hnext =>
    split at h
    . contradiction
    next hdrain =>
      rw [Except.ok.injEq, Prod.mk.injEq] at h
      rw [← h.2]
      exact .inr ⟨_, _, _, h.1.symm, hnext, hdrain⟩

theorem fused_of_drain_eq_ok (h : tokenizer.drain = .ok (items, last)) :
    last.next = .ok (none, last) := by
  induction items generalizing tokenizer with
  | nil =>
    rcases drain_cases h with ⟨-, hnext⟩ | ⟨_, _, _, hnil, -⟩
    . exact fused_of_next_eq_none hnext
    . contradiction
  | cons item items ih =>
    rcases drain_cases h with ⟨hcons, -⟩ | ⟨_, after, rest, hcons, -, hdrain⟩
    . contradiction
    . rw [(List.cons.inj hcons).2] at ih
      exact ih hdrain

/--
A tokenizer reads on at most once for an answer, and then it has found a token or the end. If all is
taken from it, after whatever calls, then the items are at most as many as the characters of the
source, three for each line that is not blank and one more, and nothing is left.
-/
theorem drain_is_linear (source : String) (options : Options)
    (hsize : source.utf8ByteSize ≤ 2 ^ 32 - 2) (schedule : List Call) :
    ∃ answers tokenizer, (ofSource source options).calls schedule = .ok (answers, tokenizer) ∧
      (∃ fills item after, tokenizer.Obtains fills item after) ∧
      (∀ fills item after, tokenizer.Obtains fills item after →
        fills ≤ 1 ∧ tokenizer.next = .ok (item, after)) ∧
      (∀ filled, tokenizer.fill = .ok filled → filled.pending ≠ [] ∨ filled.finished = true) ∧
      ∃ items drained, tokenizer.drain = .ok (items, drained) ∧
        (answers.flatMap Answer.toList).length + items.length ≤
          source.toList.length +
            3 * (Line.ofText source.toList).countP (fun line => !line.isBlank) + 1 ∧
        ∀ later, ∃ nothing, drained.calls later = .ok (nothing, drained) ∧
          nothing.flatMap Answer.toList = [] := by
  have hrange := Line.inRange_ofSource hsize
  rcases @Run.exists_ofSource_eq_ok options source hsize with ⟨stream, hstream, hitems, -⟩
  rcases exists_calls_eq_ok hsize hitems schedule with ⟨tokenizer, hcalls, hserves⟩
  have hgiven := (@Call.serve_prefix stream.items 0 schedule).length_le
  have hbound := Run.length_items_le hsize hstream
  rcases hserves.next hrange with ⟨after, hnext, -⟩
  rcases hserves.drain hrange with ⟨drained, hdrain, -⟩
  rcases exists_obtains hnext with ⟨fills, hobtains⟩
  rw [List.map_drop, ← hitems] at hdrain
  unfold Line.allowance at hbound
  rw [Line.flatMap_chars_ofText] at hbound
  rw [List.drop_zero] at hgiven
  refine ⟨_, tokenizer, hcalls, ⟨fills, _, after, hobtains⟩, ?_, ?_, _, drained, hdrain, ?_, ?_⟩
  . intro fills item after h
    rcases h.gives with ⟨hle, hgives⟩
    exact ⟨hle, hgives.next_eq_ok⟩
  . intro filled hfill
    exact pending_or_finished_of_fill hfill
  . rw [List.length_drop]
    omega
  . intro later
    exact ⟨_, calls_of_next_eq_none (fused_of_drain_eq_ok hdrain) later,
      List.prefix_nil.1 (Call.serve_prefix 0 later)⟩

theorem drain_is_linear_two_blocks :
    "a\n\tb\n\t\tc\nd ?".utf8ByteSize ≤ 2 ^ 32 - 2 ∧
    ∃ answers tokenizer items drained,
      (ofSource "a\n\tb\n\t\tc\nd ?" {}).calls [.take 3] = .ok (answers, tokenizer) ∧
      tokenizer.drain = .ok (items, drained) ∧
      (answers.flatMap Answer.toList).length + items.length ≤ 25 := by
  have hsize : "a\n\tb\n\t\tc\nd ?".utf8ByteSize ≤ 2 ^ 32 - 2 := by decide
  rcases drain_is_linear "a\n\tb\n\t\tc\nd ?" {} hsize [.take 3] with
    ⟨answers, tokenizer, hcalls, -, -, -, items, drained, hdrain, hbound, -⟩
  exact ⟨hsize, answers, tokenizer, items, drained, hcalls, hdrain, hbound⟩

end Tokenizer

end Offside
