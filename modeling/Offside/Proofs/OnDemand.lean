import Offside.Proofs.Outlook

/-!
This module contains the agreement of the tokenizer that reads on demand with the run over the whole
source: each item that is asked for is the next item of the run, and the open levels are those of
the line that the item comes from.
-/

namespace Offside

namespace Tokenizer

open Cursor Run

/--
All items that are left to take, each with the levels that are open once it was taken.
-/
def outlook (tokenizer : Tokenizer) : List (Item × Levels) :=
  tokenizer.pending.map (fun token => (.ok token, tokenizer.cursor.levels)) ++
    if tokenizer.finished then
      []
    else
      (Run.ofLines tokenizer.options tokenizer.cursor tokenizer.lines).outlook tokenizer.options

inductive Gives (tokenizer : Tokenizer) : Option Item → Tokenizer → Prop where
  | pending {token : Token} {pending : List Token} :
    tokenizer.pending = token :: pending →
    Gives tokenizer (some (.ok token)) { tokenizer with pending }
  | finished :
    tokenizer.pending = [] → tokenizer.finished = true →
    Gives tokenizer none tokenizer
  | failed {error : LexicalError} :
    tokenizer.pending = [] → tokenizer.finished = false →
    tokenizer.fill = .error (.rejected error) →
    Gives tokenizer (some (.error error)) { tokenizer with finished := true }
  | filled {filled : Tokenizer} {token : Token} {pending : List Token} :
    tokenizer.pending = [] → tokenizer.finished = false →
    tokenizer.fill = .ok filled → filled.pending = token :: pending →
    Gives tokenizer (some (.ok token)) { filled with pending }
  | closed {filled : Tokenizer} :
    tokenizer.pending = [] → tokenizer.finished = false →
    tokenizer.fill = .ok filled → filled.pending = [] →
    Gives tokenizer none filled

theorem gives_of_next_eq_ok {tokenizer after : Tokenizer} {item : Option Item}
    (h : tokenizer.next = .ok (item, after)) : tokenizer.Gives item after := by
  unfold next at h
  split at h
  next token pending hpending =>
    simp only [Except.ok.injEq, Prod.mk.injEq] at h
    rw [← h.1, ← h.2]
    exact .pending hpending
  next hpending =>
    split at h
    next hfinished =>
      simp only [Except.ok.injEq, Prod.mk.injEq] at h
      rw [← h.1, ← h.2]
      exact .finished hpending hfinished
    next hfinished =>
      rw [Bool.not_eq_true] at hfinished
      split at h
      . contradiction
      next error hfill =>
        simp only [Except.ok.injEq, Prod.mk.injEq] at h
        rw [← h.1, ← h.2]
        exact .failed hpending hfinished hfill
      next filled hfill =>
        split at h
        next token pending hfilled =>
          simp only [Except.ok.injEq, Prod.mk.injEq] at h
          rw [← h.1, ← h.2]
          exact .filled hpending hfinished hfill hfilled
        next hfilled =>
          simp only [Except.ok.injEq, Prod.mk.injEq] at h
          rw [← h.1, ← h.2]
          exact .closed hpending hfinished hfill hfilled

theorem Gives.next_eq_ok {tokenizer after : Tokenizer} {item : Option Item}
    (h : tokenizer.Gives item after) : tokenizer.next = .ok (item, after) := by
  unfold next
  cases h with
  | pending hpending => rw [hpending]
  | finished hpending hfinished =>
    rw [hpending, hfinished]
    rfl
  | failed hpending hfinished hfill =>
    rw [hpending, hfinished, hfill]
    rfl
  | filled hpending hfinished hfill hfilled =>
    rw [hpending, hfinished, hfill]
    simp [hfilled]
  | closed hpending hfinished hfill hfilled =>
    rw [hpending, hfinished, hfill]
    simp [hfilled]

variable {lines : List Line} {tokenizer filled after : Tokenizer}

theorem finished_of_fill_go {cursor : Cursor} (h : fill.go tokenizer cursor lines = .ok filled)
    (hpending : filled.pending = []) : filled.finished = true := by
  induction lines generalizing cursor with
  | nil =>
    rw [fill.go, Except.ok.injEq] at h
    rw [← h]
  | cons line lines ih =>
    rw [fill.go] at h
    split at h
    . contradiction
    . split at h
      . exact ih h
      next hne =>
        rw [← Except.ok.inj h] at hpending
        exact absurd hpending hne

theorem finished_of_next_eq_none (h : tokenizer.next = .ok (none, after)) :
    after.finished = true := by
  cases gives_of_next_eq_ok h with
  | finished _ hfinished => exact hfinished
  | closed _ _ hfill hfilled => exact finished_of_fill_go hfill hfilled

theorem finished_of_next_eq_error {error : LexicalError}
    (h : tokenizer.next = .ok (some (.error error), after)) : after.finished = true := by
  cases gives_of_next_eq_ok h with
  | failed => rfl

/--
Whether a tokenizer that can read on is at a place in the given lines that reading them comes to,
and one that cannot has read all lines and closed all blocks, or has given the error of a line.
-/
structure Reads (lines : List Line) (tokenizer : Tokenizer) : Prop where
  place : tokenizer.finished = false →
    ∃ front, front ++ tokenizer.lines = lines ∧
      Reached tokenizer.options front tokenizer.cursor
  ended : tokenizer.finished = true →
    (tokenizer.lines = [] ∧ tokenizer.cursor.levels = .base) ∨
      (tokenizer.pending = [] ∧ (Run.ofLines tokenizer.options .start lines).abort ≠ none)

theorem Reads.of_pending_eq_cons {token : Token} {pending : List Token}
    (h : tokenizer.Reads lines) (hpending : tokenizer.pending = token :: pending) :
    ({ tokenizer with pending } : Tokenizer).Reads lines := by
  constructor
  . exact h.place
  . intro hfinished
    cases h.ended hfinished with
    | inl hclosed => exact .inl hclosed
    | inr hfailed =>
      rw [hpending] at hfailed
      exact absurd hfailed.1 (List.cons_ne_nil _ _)

theorem fill_go_cases {front back : List Line} {cursor : Cursor}
    (hrange : Line.InRange (front ++ back))
    (hreached : Reached tokenizer.options front cursor)
    (hfinished : tokenizer.finished = false) :
    (∃ error, fill.go tokenizer cursor back = .error (.rejected error) ∧
      (Run.ofLines tokenizer.options .start (front ++ back)).abort = some (.rejected error) ∧
      (Run.ofLines tokenizer.options cursor back).outlook tokenizer.options =
        [(.error error, cursor.levels)]) ∨
    ∃ filled, fill.go tokenizer cursor back = .ok filled ∧
      filled.options = tokenizer.options ∧
      filled.Reads (front ++ back) ∧
      filled.outlook =
        (Run.ofLines tokenizer.options cursor back).outlook tokenizer.options ∧
      (filled.pending = [] → filled.finished = true ∧ filled.cursor.levels = cursor.levels) := by
  induction back generalizing front cursor with
  | nil =>
    refine .inr ⟨_, rfl, rfl, ?_, ?_, ?_⟩
    . exact ⟨fun h => absurd h (by simp), fun _ => .inl ⟨rfl, rfl⟩⟩
    . simp [outlook, Run.ofLines, Run.outlook, Cursor.outlook]
    . intro hclosing
      exact ⟨rfl, (levels_eq_base_of_closing_eq_nil hclosing).symm⟩
  | cons line back ih =>
    rw [List.append_cons] at hrange ⊢
    have hfront := hrange.of_append
    rw [fill.go]
    cases hstep : cursor.step tokenizer.options line with
    | error abort =>
      have hpast := hreached.past hfront.of_append
      rcases (step_eq_error hpast hfront hstep).2 with ⟨error, rfl, -⟩
      refine .inl ⟨error, rfl, ?_, ?_⟩
      . rw [← List.append_cons, Run.ofLines_append_of_error hreached hstep]
      . rw [Run.ofLines_cons_of_error hstep]
        rfl
    | ok result =>
      rcases result with ⟨entry, next⟩
      rw [Run.outlook_ofLines_cons hstep, Run.outlook_eq_map hreached hfront hstep]
      dsimp
      split
      next htokens =>
        -- The line is skipped, so that the levels at the next place are still those at this one.
        have hlevels := levels_eq_of_tokens_eq_nil hreached hfront hstep htokens
        rw [htokens, List.map_nil, List.nil_append, ← hlevels]
        exact ih hrange (hreached.step hstep)
      next hne =>
        refine .inr ⟨_, rfl, rfl, ?_, ?_, ?_⟩
        . constructor
          . intro _
            exact ⟨front ++ [line], rfl, hreached.step hstep⟩
          . intro h
            rw [hfinished] at h
            contradiction
        . simp only [outlook, hfinished, Bool.false_eq_true, ↓reduceIte]
        . intro hnil
          exact absurd hnil hne

theorem next_eq_head? (hrange : Line.InRange lines) (hreads : tokenizer.Reads lines) :
    ∃ after, tokenizer.next = .ok (tokenizer.outlook.head?.map Prod.fst, after) ∧
      after.options = tokenizer.options ∧ after.Reads lines ∧
      after.outlook = tokenizer.outlook.tail ∧
      after.cursor.levels =
        (tokenizer.outlook.head?.map Prod.snd).getD tokenizer.cursor.levels := by
  unfold next
  split
  next token pending hpending =>
    refine ⟨{ tokenizer with pending }, ?_, rfl, ?_, ?_, ?_⟩
    . simp [outlook, hpending]
    . exact hreads.of_pending_eq_cons hpending
    . simp [outlook, hpending]
    . simp [outlook, hpending]
  next hpending =>
    cases hfinished : tokenizer.finished with
    | true =>
      have houtlook : tokenizer.outlook = [] := by simp [outlook, hpending, hfinished]
      rw [houtlook]
      exact ⟨tokenizer, rfl, rfl, hreads, houtlook, rfl⟩
    | false =>
      rcases hreads.place hfinished with ⟨front, rfl, hreached⟩
      have houtlook : tokenizer.outlook =
          (Run.ofLines tokenizer.options tokenizer.cursor tokenizer.lines).outlook
            tokenizer.options := by
        simp [outlook, hpending, hfinished]
      rw [if_neg Bool.false_ne_true, houtlook]
      unfold fill
      rcases fill_go_cases hrange hreached hfinished with
        ⟨error, hfill, habort, herror⟩ | ⟨filled, hfill, hoptions, hfilled, hrest, hended⟩
      . -- The levels are those before the lines that were skipped, and these have changed nothing.
        rw [hfill, herror]
        refine ⟨_, rfl, rfl, ?_, ?_, rfl⟩
        . refine ⟨fun h => absurd h (by simp), fun _ => .inr ⟨hpending, ?_⟩⟩
          rw [habort]
          apply Option.some_ne_none
        . simp [outlook, hpending]
      . rw [hfill, ← hrest]
        cases htokens : filled.pending with
        | nil =>
          rcases hended htokens with ⟨hdone, hlevels⟩
          have hnone : filled.outlook = [] := by simp [outlook, htokens, hdone]
          rw [hnone]
          simp only [htokens]
          exact ⟨filled, rfl, hoptions, hfilled, hnone, hlevels⟩
        | cons token pending =>
          simp only [htokens]
          refine ⟨{ filled with pending }, ?_, hoptions, ?_, ?_, ?_⟩
          . simp [outlook, htokens]
          . exact hfilled.of_pending_eq_cons htokens
          . simp [outlook, htokens]
          . simp [outlook, htokens]

structure Serves (options : Options) (lines : List Line) (items : List (Item × Levels))
    (taken : Nat) (tokenizer : Tokenizer) : Prop where
  options_eq : tokenizer.options = options
  reads : tokenizer.Reads lines
  outlook_eq : tokenizer.outlook = items.drop taken
  levels_eq : tokenizer.cursor.levels = levelsAt items taken

variable {options : Options} {items : List (Item × Levels)} {taken other : Nat}

theorem Serves.of_length_le (h : tokenizer.Serves options lines items taken)
    (htaken : items.length ≤ taken) (hother : items.length ≤ other) :
    tokenizer.Serves options lines items other := by
  constructor
  . exact h.options_eq
  . exact h.reads
  . rw [h.outlook_eq, List.drop_of_length_le htaken, List.drop_of_length_le hother]
  . rw [h.levels_eq]
    unfold levelsAt
    rw [List.take_of_length_le htaken, List.take_of_length_le hother]

theorem Serves.next (h : tokenizer.Serves options lines items taken) (hrange : Line.InRange lines) :
    ∃ after, tokenizer.next = .ok (items[taken]?.map Prod.fst, after) ∧
      after.Serves options lines items (taken + 1) := by
  rcases next_eq_head? hrange h.reads with
    ⟨after, hnext, hoptions, hreads, houtlook, hlevels⟩
  rw [h.outlook_eq, List.head?_drop] at hnext hlevels
  rw [h.outlook_eq, List.tail_drop] at houtlook
  refine ⟨after, hnext, hoptions.trans h.options_eq, hreads, houtlook, ?_⟩
  rw [hlevels, h.levels_eq, levelsAt_succ]

theorem Serves.take (h : tokenizer.Serves options lines items taken) (hrange : Line.InRange lines)
    (n : Nat) :
    ∃ after, tokenizer.take n = .ok (((items.drop taken).take n).map Prod.fst, after) ∧
      after.Serves options lines items (taken + n) := by
  induction n generalizing tokenizer taken with
  | zero => exact ⟨tokenizer, rfl, h⟩
  | succ n ih =>
    rcases h.next hrange with ⟨after, hnext, hafter⟩
    rw [Tokenizer.take, hnext]
    cases hitem : items[taken]? with
    | none =>
      have hlength := List.getElem?_eq_none_iff.1 hitem
      refine ⟨after, ?_, hafter.of_length_le (by omega) (by omega)⟩
      rw [List.drop_of_length_le hlength]
      rfl
    | some item =>
      rcases ih hafter with ⟨last, htake, hlast⟩
      rcases List.getElem?_eq_some_iff.1 hitem with ⟨hlt, rfl⟩
      refine ⟨last, ?_, ?_⟩
      . dsimp only [bind, Except.bind, Option.map_some]
        rw [htake, List.drop_eq_getElem_cons hlt]
        rfl
      . rw [Nat.add_comm n 1, ← Nat.add_assoc]
        exact hlast

theorem drain_of_next_eq_none {after : Tokenizer} (h : tokenizer.next = .ok (none, after)) :
    tokenizer.drain = .ok ([], after) := by
  rw [Tokenizer.drain]
  split
  next heq =>
    rw [h] at heq
    contradiction
  next heq =>
    rw [h, Except.ok.injEq, Prod.mk.injEq] at heq
    rw [heq.2]
  next heq =>
    rw [h] at heq
    simp at heq

theorem drain_of_next_eq_some {after last : Tokenizer} {item : Item} {rest : List Item}
    (h : tokenizer.next = .ok (some item, after)) (hrest : after.drain = .ok (rest, last)) :
    tokenizer.drain = .ok (item :: rest, last) := by
  rw [Tokenizer.drain]
  split
  next heq =>
    rw [h] at heq
    contradiction
  next heq =>
    rw [h] at heq
    simp at heq
  next heq =>
    rw [h, Except.ok.injEq, Prod.mk.injEq, Option.some.injEq] at heq
    rw [← heq.1, ← heq.2, hrest]

theorem Serves.drain (h : tokenizer.Serves options lines items taken)
    (hrange : Line.InRange lines) :
    ∃ after, tokenizer.drain = .ok ((items.drop taken).map Prod.fst, after) ∧
      after.Serves options lines items (taken + items.length) := by
  -- The induction is on the number of items that are left.
  induction hleft : items.length - taken generalizing tokenizer taken with
  | zero =>
    rcases h.next hrange with ⟨after, hnext, hafter⟩
    have hnone : items[taken]? = none := List.getElem?_eq_none_iff.2 (by omega)
    rw [hnone] at hnext
    refine ⟨after, ?_, hafter.of_length_le (by omega) (by omega)⟩
    rw [List.drop_of_length_le (by omega)]
    exact drain_of_next_eq_none hnext
  | succ left ih =>
    rcases h.next hrange with ⟨after, hnext, hafter⟩
    rcases ih hafter (by omega) with ⟨last, hdrain, hlast⟩
    have hlt : taken < items.length := by omega
    rw [List.getElem?_eq_getElem hlt] at hnext
    refine ⟨last, ?_, hlast.of_length_le (by omega) (by omega)⟩
    rw [List.drop_eq_getElem_cons hlt]
    exact drain_of_next_eq_some hnext hdrain

end Tokenizer

end Offside
