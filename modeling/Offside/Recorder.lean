import Offside.Tokenizer
import Offside.Trace

/-!
This module contains the tokenizer that tells its events while it reads on demand. It tells a line
when it reads it, which is before the tokens of the line are taken.
-/

namespace Offside

structure Recorder where
  tokenizer : Tokenizer
  taken : Nat
  events : List Event
deriving DecidableEq, Repr

def Abort.event? : Abort → Option Event
  | .rejected error => some (.aborted error.line error.column error.kind)
  | .overflow _ => none

namespace Recorder

def ofSource (source : String) (options : Options) : Recorder :=
  ⟨.ofSource source options, 0, []⟩

/--
The events of the next call. There are none unless it reads lines, up to the first that adds tokens.
-/
def told (recorder : Recorder) : List Event :=
  match recorder.tokenizer.pending with
  | _ :: _ => []
  | [] =>
    if recorder.tokenizer.finished then
      []
    else
      go recorder.tokenizer.cursor recorder.tokenizer.lines
where
  /--
  The events of reading the given lines, which follow the cursor. At the end of the source the
  tokens that close it were not taken yet.
  -/
  go (cursor : Cursor) : List Line → List Event
    | [] =>
      let closing := cursor.closing recorder.tokenizer.options
      [.finished (recorder.taken + closing.length) cursor.stop.line]
    | line :: lines =>
      match cursor.step recorder.tokenizer.options line with
      | .error abort => abort.event?.toList
      | .ok (layoutLine, next) =>
        layoutLine.toList.filterMap (·.event?) ++
          match layoutLine.toList.flatMap (·.tokens recorder.tokenizer.options.fileId) with
          | [] => go next lines
          | _ => []

def next (recorder : Recorder) : Except Overflow (Option Item × Recorder) :=
  let events := recorder.events ++ recorder.told
  match recorder.tokenizer.next with
  | .error cause => .error cause
  | .ok (some (.ok token), tokenizer) =>
    .ok (some (.ok token), ⟨tokenizer, recorder.taken + 1, events⟩)
  | .ok (item, tokenizer) => .ok (item, ⟨tokenizer, recorder.taken, events⟩)

theorem next_tokenizer {recorder after : Recorder} {item : Option Item}
    (h : recorder.next = .ok (item, after)) :
    recorder.tokenizer.next = .ok (item, after.tokenizer) := by
  unfold next at h
  dsimp only at h
  split at h
  . contradiction
  next hnext =>
    simp only [Except.ok.injEq, Prod.mk.injEq] at h
    rw [hnext, ← h.1, ← h.2]
  next hnext =>
    simp only [Except.ok.injEq, Prod.mk.injEq] at h
    rw [hnext, ← h.1, ← h.2]

def collect (recorder : Recorder) : Except Overflow (TokenStream × Recorder) :=
  match _h : recorder.next with
  | .error cause => .error cause
  | .ok (none, after) => .ok (⟨[], none⟩, after)
  | .ok (some (.error error), after) => .ok (⟨[], some error⟩, after)
  | .ok (some (.ok token), after) =>
    match collect after with
    | .error cause => .error cause
    | .ok (stream, last) => .ok ({ stream with tokens := token :: stream.tokens }, last)
termination_by (recorder.tokenizer.unread, recorder.tokenizer.pending.length)
decreasing_by exact Tokenizer.next_lt (next_tokenizer ‹_›)

end Recorder

end Offside
