import Offside.Proofs.Stage
import Offside.Recorder

/-!
This module contains the agreement of the events that are told while tokens are taken with those of
the run over the whole source. What was told and what is yet to be told are always the same events.
-/

namespace Offside

def Run.events (run : Run) (options : Options) (taken : Nat) : List Event :=
  run.lines.filterMap (·.event?) ++
    match run.abort with
    | none => [.finished (taken + (run.tokens options).length) run.cursor.stop.line]
    | some abort => abort.event?.toList

def TokenStream.ofItems : List Item → TokenStream
  | [] => ⟨[], none⟩
  | .error error :: _ => ⟨[], some error⟩
  | .ok token :: items =>
    let stream := ofItems items
    { stream with tokens := token :: stream.tokens }

theorem TokenStream.ofItems_items (stream : TokenStream) : ofItems stream.items = stream := by
  rcases stream with ⟨tokens, failure⟩
  unfold items
  induction tokens with
  | nil => cases failure <;> rfl
  | cons token tokens ih =>
    rw [List.map_cons, List.cons_append, ofItems, ih]

namespace Run

variable {options : Options} {cursor next : Cursor} {line : Line} {back : List Line}
  {entry : Option LayoutLine}

theorem events_ofLines_cons (hstep : cursor.step options line = .ok (entry, next)) (taken : Nat) :
    (ofLines options cursor (line :: back)).events options taken =
      entry.toList.filterMap (·.event?) ++
        (ofLines options next back).events options
          (taken + (entry.toList.flatMap (·.tokens options.fileId)).length) := by
  rw [ofLines_cons_of_ok hstep]
  unfold events tokens
  cases (ofLines options next back).abort with
  | none =>
    simp only [List.filterMap_append, List.flatMap_append, List.append_assoc, List.length_append,
      Nat.add_assoc]
  | some abort => simp only [List.filterMap_append, List.append_assoc]

theorem trace_eq_ok {source : String} {stream : TokenStream}
    (habort : (ofSource source options).abort = stream.failure.map .rejected) :
    trace source options = .ok ((ofSource source options).events options 0) := by
  unfold trace ending events
  dsimp only
  rw [habort]
  cases stream.failure with
  | none =>
    rw [Nat.zero_add]
    rfl
  | some error => rfl

end Run

namespace Tokenizer

variable {tokenizer filled after : Tokenizer} {cursor : Cursor} {lines : List Line}

def left (tokenizer : Tokenizer) (taken : Nat) : List Event :=
  if tokenizer.finished then
    []
  else
    (Run.ofLines tokenizer.options tokenizer.cursor tokenizer.lines).events tokenizer.options
      (taken + tokenizer.pending.length)

theorem left_of_pending_eq_cons {token : Token} {pending : List Token}
    (h : tokenizer.pending = token :: pending) (taken : Nat) :
    ({ tokenizer with pending } : Tokenizer).left (taken + 1) = tokenizer.left taken := by
  unfold left
  rw [h, List.length_cons, Nat.add_assoc, Nat.add_comm 1]

end Tokenizer

namespace Recorder

open Run

variable {recorder after : Recorder} {lines : List Line}

def account (recorder : Recorder) : List Event :=
  recorder.events ++ recorder.tokenizer.left recorder.taken

theorem told_go_append (hfinished : recorder.tokenizer.finished = false) (cursor : Cursor)
    (lines : List Line) :
    (told.go recorder cursor lines ++
      match Tokenizer.fill.go recorder.tokenizer cursor lines with
      | .error _ => []
      | .ok filled => filled.left recorder.taken) =
    (ofLines recorder.tokenizer.options cursor lines).events recorder.tokenizer.options
      recorder.taken := by
  induction lines generalizing cursor with
  | nil => rfl
  | cons line lines ih =>
    rw [told.go, Tokenizer.fill.go]
    cases hstep : cursor.step recorder.tokenizer.options line with
    | error abort =>
      rw [ofLines_cons_of_error hstep]
      apply List.append_nil
    | ok result =>
      rcases result with ⟨entry, next⟩
      rw [events_ofLines_cons hstep]
      dsimp only
      cases entry.toList.flatMap (·.tokens recorder.tokenizer.options.fileId) with
      | nil =>
        rw [List.append_assoc]
        exact congrArg _ (ih next)
      | cons token tokens =>
        -- The tokens of this line are pending now, and the later lines are still to be told.
        unfold Tokenizer.left
        rw [hfinished, List.append_nil]
        rfl

theorem told_eq_go (hpending : recorder.tokenizer.pending = [])
    (hfinished : recorder.tokenizer.finished = false) :
    recorder.told = told.go recorder recorder.tokenizer.cursor recorder.tokenizer.lines := by
  unfold told
  rw [hpending, hfinished]
  rfl

theorem told_eq_nil
    (h : recorder.tokenizer.pending ≠ [] ∨ recorder.tokenizer.finished = true) :
    recorder.told = [] := by
  unfold told
  split
  . rfl
  next hpending =>
    rcases h with hne | hfinished
    . exact absurd hpending hne
    . exact if_pos hfinished

theorem told_append_of_reads (hpending : recorder.tokenizer.pending = [])
    (hfinished : recorder.tokenizer.finished = false) :
    (recorder.told ++
      match recorder.tokenizer.fill with
      | .error _ => []
      | .ok filled => filled.left recorder.taken) =
    recorder.tokenizer.left recorder.taken := by
  rw [told_eq_go hpending hfinished]
  unfold Tokenizer.fill
  rw [told_go_append hfinished]
  unfold Tokenizer.left
  rw [hfinished, hpending]
  rfl

theorem told_append {item : Option Item} {after : Tokenizer}
    (h : recorder.tokenizer.next = .ok (item, after)) :
    recorder.told ++ after.left (recorder.taken + (Item.tokens item.toList).length) =
      recorder.tokenizer.left recorder.taken := by
  cases Tokenizer.gives_of_next_eq_ok h with
  | pending hpending =>
    rw [told_eq_nil (.inl (by simp [hpending]))]
    exact Tokenizer.left_of_pending_eq_cons hpending _
  | finished _ hfinished =>
    rw [told_eq_nil (.inr hfinished)]
    rfl
  | failed hpending hfinished hfill =>
    rw [← told_append_of_reads hpending hfinished, hfill]
    rfl
  | filled hpending hfinished hfill hfilled =>
    rw [← told_append_of_reads hpending hfinished, hfill]
    exact congrArg _ (Tokenizer.left_of_pending_eq_cons hfilled _)
  | closed hpending hfinished hfill _ =>
    rw [← told_append_of_reads hpending hfinished, hfill]
    rfl

theorem next_eq_ok {item : Option Item} (h : recorder.next = .ok (item, after)) :
    recorder.tokenizer.next = .ok (item, after.tokenizer) ∧
      after.taken = recorder.taken + (Item.tokens item.toList).length ∧
      after.events = recorder.events ++ recorder.told := by
  refine ⟨next_tokenizer h, ?_⟩
  unfold next at h
  dsimp only at h
  split at h
  . contradiction
  next =>
    simp only [Except.ok.injEq, Prod.mk.injEq] at h
    rw [← h.1, ← h.2]
    exact ⟨rfl, rfl⟩
  next hnot _ =>
    simp only [Except.ok.injEq, Prod.mk.injEq] at h
    rw [h.1] at hnot
    rw [← h.2]
    refine ⟨?_, rfl⟩
    rcases item with _ | error | token
    . rfl
    . rfl
    . exact absurd rfl (hnot token)

theorem next_account {item : Option Item} (h : recorder.next = .ok (item, after)) :
    after.account = recorder.account := by
  rcases next_eq_ok h with ⟨hnext, htaken, hevents⟩
  unfold account
  rw [hevents, htaken, List.append_assoc, told_append hnext]

theorem exists_next_eq_ok {item : Option Item} {after : Tokenizer}
    (h : recorder.tokenizer.next = .ok (item, after)) :
    ∃ later : Recorder, recorder.next = .ok (item, later) ∧ later.tokenizer = after := by
  unfold next
  rw [h]
  rcases item with _ | error | token
  . exact ⟨_, rfl, rfl⟩
  . exact ⟨_, rfl, rfl⟩
  . exact ⟨_, rfl, rfl⟩

theorem collect_of_next_eq_ok {item : Option Item} (h : recorder.next = .ok (item, after)) :
    recorder.collect =
      match item with
      | none => .ok (⟨[], none⟩, after)
      | some (.error error) => .ok (⟨[], some error⟩, after)
      | some (.ok token) => after.collect.map fun (stream, last) =>
          ({ stream with tokens := token :: stream.tokens }, last) := by
  rw [collect]
  split
  next hnext =>
    rw [h] at hnext
    contradiction
  next hnext =>
    rw [h, Except.ok.injEq, Prod.mk.injEq] at hnext
    rcases hnext with ⟨rfl, rfl⟩
    rfl
  next hnext =>
    rw [h, Except.ok.injEq, Prod.mk.injEq] at hnext
    rcases hnext with ⟨rfl, rfl⟩
    rfl
  next hnext =>
    rw [h, Except.ok.injEq, Prod.mk.injEq] at hnext
    rcases hnext with ⟨rfl, rfl⟩
    dsimp only
    cases after.collect with
    | error cause => rfl
    | ok result => rfl

theorem events_eq_of_finished (h : recorder.tokenizer.finished = true) :
    recorder.events = recorder.account := by
  unfold account Tokenizer.left
  rw [if_pos h, List.append_nil]

variable {options : Options} {items : List (Item × Levels)} {taken : Nat}

theorem exists_collect_eq_ok (hrange : Line.InRange lines)
    (h : recorder.tokenizer.Serves options lines items taken) :
    ∃ last : Recorder,
      recorder.collect = .ok (.ofItems ((items.drop taken).map Prod.fst), last) ∧
      last.events = recorder.account := by
  -- The induction is on the number of items that are left.
  induction hleft : items.length - taken generalizing recorder taken with
  | zero =>
    rcases h.next hrange with ⟨after, hnext, -⟩
    rw [List.getElem?_eq_none (by omega), Option.map_none] at hnext
    rcases exists_next_eq_ok hnext with ⟨last, hlast, rfl⟩
    refine ⟨last, ?_, ?_⟩
    . rw [collect_of_next_eq_ok hlast, List.drop_of_length_le (by omega)]
      rfl
    . rw [events_eq_of_finished (Tokenizer.finished_of_next_eq_none hnext), next_account hlast]
  | succ left ih =>
    have hlt : taken < items.length := by omega
    rcases h.next hrange with ⟨after, hnext, hafter⟩
    rw [List.getElem?_eq_getElem hlt, Option.map_some] at hnext
    rw [List.drop_eq_getElem_cons hlt, List.map_cons]
    cases hitem : items[taken].1 with
    | error error =>
      rw [hitem] at hnext
      rcases exists_next_eq_ok hnext with ⟨last, hlast, rfl⟩
      refine ⟨last, collect_of_next_eq_ok hlast, ?_⟩
      rw [events_eq_of_finished (Tokenizer.finished_of_next_eq_error hnext), next_account hlast]
    | ok token =>
      rw [hitem] at hnext
      rcases exists_next_eq_ok hnext with ⟨later, hlater, rfl⟩
      rcases ih hafter (by omega) with ⟨last, hcollect, hevents⟩
      refine ⟨last, ?_, ?_⟩
      . rw [collect_of_next_eq_ok hlater, hcollect]
        rfl
      . rw [hevents, next_account hlater]

theorem exists_collect_ofSource {source : String} (hsize : source.utf8ByteSize ≤ 2 ^ 32 - 2)
    (options : Options) :
    ∃ stream last, TokenStream.ofSource source options = .ok stream ∧
      (ofSource source options).collect = .ok (stream, last) ∧
      last.events = (Run.ofSource source options).events options 0 ∧
      trace source options = .ok last.events := by
  rcases @Run.exists_ofSource_eq_ok options source hsize with
    ⟨stream, hstream, hitems, habort, -⟩
  have hserves : (ofSource source options).tokenizer.Serves options (Line.ofText source.toList)
      ((Run.ofSource source options).outlook options) 0 :=
    Tokenizer.serves_ofSource source options
  rcases exists_collect_eq_ok (Line.inRange_ofSource hsize) hserves with ⟨last, hcollect, hevents⟩
  rw [List.drop_zero, ← hitems, TokenStream.ofItems_items] at hcollect
  refine ⟨stream, last, hstream, hcollect, hevents, ?_⟩
  rw [hevents]
  exact trace_eq_ok habort

end Recorder

end Offside
