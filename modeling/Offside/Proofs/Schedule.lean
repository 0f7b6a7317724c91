import Offside.Proofs.OnDemand

/-!
This module contains schedules of calls on one tokenizer. Whatever the order of the calls, they cut
the items of the source into consecutive pieces.
-/

namespace Offside

inductive Call where
  | next
  | take (n : Nat)
  | drain
deriving DecidableEq, Repr

inductive Answer where
  | one (item : Option Item)
  | many (items : List Item)

def Answer.toList : Answer → List Item
  | .one item => item.toList
  | .many items => items

namespace Call

def share (items : List Item) (taken : Nat) : Call → Answer
  | .next => .one items[taken]?
  | .take n => .many ((items.drop taken).take n)
  | .drain => .many (items.drop taken)

/--
What the calls of a schedule give when `taken` of the items were given before.
-/
def serve (items : List Item) (taken : Nat) : List Call → List Answer
  | [] => []
  | call :: schedule =>
    let answer := call.share items taken
    answer :: serve items (taken + answer.toList.length) schedule

variable {items : List Item}

theorem share_prefix (taken : Nat) (call : Call) :
    (call.share items taken).toList <+: items.drop taken := by
  cases call with
  | next =>
    rw [share, ← List.head?_drop]
    cases items.drop taken <;> simp [Answer.toList]
  | take n => exact List.take_prefix n _
  | drain => exact List.prefix_refl _

theorem serve_prefix (taken : Nat) (schedule : List Call) :
    (serve items taken schedule).flatMap Answer.toList <+: items.drop taken := by
  induction schedule generalizing taken with
  | nil => simp [serve]
  | cons call schedule ih =>
    have hrest := ih (taken + (call.share items taken).toList.length)
    rcases share_prefix taken call with ⟨rest, hshare⟩
    rw [← List.drop_drop, ← hshare, List.drop_left] at hrest
    rw [serve, List.flatMap_cons, ← hshare, List.prefix_append_right_inj]
    exact hrest

theorem serve_replicate_next (taken n : Nat) :
    serve items taken (List.replicate n .next) =
      (List.range n).map fun k => .one items[taken + k]? := by
  induction n generalizing taken with
  | zero => rfl
  | succ n ih =>
    rw [List.replicate_succ, serve, ih, List.range_succ_eq_map, List.map_cons, List.map_map]
    dsimp only [share, Answer.toList, Nat.add_zero]
    congr 1
    apply List.map_congr_left
    intro k _
    cases hitem : items[taken]? with
    | some item => simp [Nat.add_assoc, Nat.add_comm 1 k]
    | none =>
      -- All items were given, so that this call does not count and the next one finds none either.
      have hlength := List.getElem?_eq_none_iff.1 hitem
      have hthis : items[taken + k]? = none := List.getElem?_eq_none_iff.2 (by omega)
      have hnext : items[taken + (k + 1)]? = none := List.getElem?_eq_none_iff.2 (by omega)
      simp [hthis, hnext]

end Call

namespace Tokenizer

def call (tokenizer : Tokenizer) : Call → Except Overflow (Answer × Tokenizer)
  | .next => tokenizer.next.map fun (item, tokenizer) => (.one item, tokenizer)
  | .take n => (tokenizer.take n).map fun (items, tokenizer) => (.many items, tokenizer)
  | .drain => tokenizer.drain.map fun (items, tokenizer) => (.many items, tokenizer)

def calls (tokenizer : Tokenizer) : List Call → Except Overflow (List Answer × Tokenizer)
  | [] => .ok ([], tokenizer)
  | call :: schedule => do
    let (answer, tokenizer) ← tokenizer.call call
    let (answers, tokenizer) ← calls tokenizer schedule
    return (answer :: answers, tokenizer)

variable {options : Options} {lines : List Line} {items : List (Item × Levels)} {taken : Nat}
  {tokenizer : Tokenizer}

theorem call_of_next_eq_none (h : tokenizer.next = .ok (none, tokenizer)) (call : Call) :
    tokenizer.call call = .ok (call.share [] 0, tokenizer) := by
  cases call with
  | next =>
    rw [Tokenizer.call, h]
    rfl
  | take n =>
    cases n with
    | zero => rfl
    | succ n =>
      rw [Tokenizer.call, take, h]
      rfl
  | drain =>
    rw [Tokenizer.call, drain_of_next_eq_none h]
    rfl

theorem calls_of_next_eq_none (h : tokenizer.next = .ok (none, tokenizer)) (schedule : List Call) :
    tokenizer.calls schedule = .ok (Call.serve [] 0 schedule, tokenizer) := by
  induction schedule with
  | nil => rfl
  | cons call schedule ih =>
    have hnil := List.prefix_nil.1 (@Call.share_prefix [] 0 call)
    rw [calls, call_of_next_eq_none h, Call.serve, hnil]
    dsimp only [bind, Except.bind]
    rw [ih]
    rfl

theorem Serves.call (h : tokenizer.Serves options lines items taken) (hrange : Line.InRange lines)
    (call : Call) :
    ∃ after, tokenizer.call call = .ok (call.share (items.map Prod.fst) taken, after) ∧
      after.Serves options lines items
        (taken + (call.share (items.map Prod.fst) taken).toList.length) := by
  cases call with
  | next =>
    rcases h.next hrange with ⟨after, hnext, hafter⟩
    refine ⟨after, ?_, ?_⟩
    . rw [Tokenizer.call, hnext, Call.share, List.getElem?_map]
      rfl
    . rw [Call.share, Answer.toList, List.getElem?_map]
      cases hitem : items[taken]? with
      | some item => exact hafter
      | none =>
        have hlength := List.getElem?_eq_none_iff.1 hitem
        exact hafter.of_length_le (by omega) hlength
  | take n =>
    rcases h.take hrange n with ⟨after, htake, hafter⟩
    refine ⟨after, ?_, ?_⟩
    . rw [Tokenizer.call, htake, Call.share, ← List.map_drop, ← List.map_take]
      rfl
    . simp only [Call.share, Answer.toList, List.length_take, List.length_drop, List.length_map]
      by_cases hle : n ≤ items.length - taken
      . rw [Nat.min_eq_left hle]
        exact hafter
      . exact hafter.of_length_le (by omega) (by omega)
  | drain =>
    rcases h.drain hrange with ⟨after, hdrain, hafter⟩
    refine ⟨after, ?_, ?_⟩
    . rw [Tokenizer.call, hdrain, Call.share, ← List.map_drop]
      rfl
    . simp only [Call.share, Answer.toList, List.length_drop, List.length_map]
      exact hafter.of_length_le (by omega) (by omega)

theorem Serves.calls (h : tokenizer.Serves options lines items taken) (hrange : Line.InRange lines)
    (schedule : List Call) :
    ∃ after, tokenizer.calls schedule =
        .ok (Call.serve (items.map Prod.fst) taken schedule, after) ∧
      after.Serves options lines items
        (taken +
          ((Call.serve (items.map Prod.fst) taken schedule).flatMap Answer.toList).length) := by
  induction schedule generalizing tokenizer taken with
  | nil => exact ⟨tokenizer, rfl, h⟩
  | cons call schedule ih =>
    rcases h.call hrange call with ⟨after, hcall, hafter⟩
    rcases ih hafter with ⟨last, hcalls, hlast⟩
    refine ⟨last, ?_, ?_⟩
    . rw [Tokenizer.calls, hcall]
      dsimp only [bind, Except.bind]
      rw [hcalls]
      rfl
    . rw [Call.serve, List.flatMap_cons, List.length_append, ← Nat.add_assoc]
      exact hlast

theorem serves_ofSource (source : String) (options : Options) :
    (ofSource source options).Serves options (Line.ofText source.toList)
      ((Run.ofSource source options).outlook options) 0 := by
  constructor
  . rfl
  . constructor
    . intro _
      exact ⟨[], rfl, .start⟩
    . intro h
      contradiction
  . rfl
  . rfl

theorem exists_calls_eq_ok {source : String} {options : Options}
    (hsize : source.utf8ByteSize ≤ 2 ^ 32 - 2) {stream : TokenStream}
    (hitems : stream.items = ((Run.ofSource source options).outlook options).map Prod.fst)
    (schedule : List Call) :
    ∃ tokenizer, (ofSource source options).calls schedule =
        .ok (Call.serve stream.items 0 schedule, tokenizer) ∧
      tokenizer.Serves options (Line.ofText source.toList)
        ((Run.ofSource source options).outlook options)
        ((Call.serve stream.items 0 schedule).flatMap Answer.toList).length := by
  have hrange := Line.inRange_ofSource hsize
  rcases (serves_ofSource source options).calls hrange schedule with ⟨tokenizer, hcalls, hserves⟩
  rw [← hitems] at hcalls hserves
  rw [Nat.zero_add] at hserves
  exact ⟨tokenizer, hcalls, hserves⟩

/--
Calls on a tokenizer give the items of the token stream one after the other and then nothing more.
The open levels are those of the line that the last item comes from, also if further tokens of this
line were not taken yet.
-/
theorem calls_eq_serve (source : String) (options : Options)
    (hsize : source.utf8ByteSize ≤ 2 ^ 32 - 2) (schedule : List Call) :
    ∃ stream answers tokenizer,
      TokenStream.ofSource source options = .ok stream ∧
      (tokenize source options =
        match stream.failure with
        | none => .ok stream.tokens
        | some error => .error (.rejected error)) ∧
      (ofSource source options).calls schedule = .ok (answers, tokenizer) ∧
      answers = Call.serve stream.items 0 schedule ∧
      answers.flatMap Answer.toList <+: stream.items ∧
      (∀ n, schedule = List.replicate n .next →
        answers = (List.range n).map fun k => .one stream.items[k]?) ∧
      (∀ front back, Line.ofText source.toList = front ++ back →
        Run.contribution options front <+: stream.tokens) ∧
      Run.OpenOnce options (Line.ofText source.toList) stream
        (answers.flatMap Answer.toList).length tokenizer.openLevels := by
  rcases @Run.exists_ofSource_eq_ok options source hsize with
    ⟨stream, hstream, hitems, habort, htokenize⟩
  rcases exists_calls_eq_ok hsize hitems schedule with ⟨tokenizer, hcalls, hserves⟩
  have hgiven := @Call.serve_prefix stream.items 0 schedule
  rw [List.drop_zero] at hgiven
  refine ⟨stream, _, tokenizer, hstream, htokenize, hcalls, rfl, hgiven, ?_, ?_, ?_⟩
  . rintro n rfl
    rw [Call.serve_replicate_next]
    simp only [Nat.zero_add]
  . intro front back hlines
    apply List.IsPrefix.trans (Run.contribution_prefix options front back)
    rw [← hlines]
    apply Run.contribution_prefix_tokens hstream
  . unfold openLevels
    rw [hserves.levels_eq]
    apply Run.openOnce_levelsAt hsize habort hitems hgiven.length_le

theorem calls_eq_serve_next_take_drain :
    "a\n\tb\n".utf8ByteSize ≤ 2 ^ 32 - 2 ∧
    ∃ stream answers tokenizer,
      TokenStream.ofSource "a\n\tb\n" {} = .ok stream ∧
      (ofSource "a\n\tb\n" {}).calls [.next, .take 2, .drain] = .ok (answers, tokenizer) ∧
      answers = Call.serve stream.items 0 [.next, .take 2, .drain] ∧
      Run.OpenOnce {} (Line.ofText "a\n\tb\n".toList) stream
        (answers.flatMap Answer.toList).length tokenizer.openLevels := by
  have hsize : "a\n\tb\n".utf8ByteSize ≤ 2 ^ 32 - 2 := by decide
  rcases calls_eq_serve "a\n\tb\n" {} hsize [.next, .take 2, .drain] with
    ⟨stream, answers, tokenizer, hstream, -, hcalls, hanswers, -, -, -, hlevels⟩
  exact ⟨hsize, stream, answers, tokenizer, hstream, hcalls, hanswers, hlevels⟩

end Tokenizer

end Offside
