import Offside.Run

/-!
This module contains the tokenizer that reads a source on demand. It reads no line before all tokens
of the lines before it were taken.
-/

namespace Offside

abbrev Item := Except LexicalError Token

structure Tokenizer where
  options : Options
  lines : List Line
  cursor : Cursor
  pending : List Token
  finished : Bool
deriving DecidableEq, Repr

namespace Tokenizer

def ofSource (source : String) (options : Options) : Tokenizer :=
  ⟨options, Line.ofText source.toList, .start, [], false⟩

def openLevels (tokenizer : Tokenizer) : List UInt32 :=
  tokenizer.cursor.levels.toList

/--
Read lines up to the first that adds tokens. If there is none, close all blocks.
-/
def fill (tokenizer : Tokenizer) : Except Abort Tokenizer :=
  go tokenizer.cursor tokenizer.lines
where
  go (cursor : Cursor) : List Line → Except Abort Tokenizer
    | [] =>
      .ok { tokenizer with
        lines := []
        cursor := { cursor with levels := .base }
        pending := cursor.closing tokenizer.options
        finished := true }
    | line :: lines =>
      match cursor.step tokenizer.options line with
      | .error abort => .error abort
      | .ok (layoutLine, next) =>
        match layoutLine.toList.flatMap (·.tokens tokenizer.options.fileId) with
        | [] => go next lines
        | tokens => .ok { tokenizer with lines, cursor := next, pending := tokens }

/--
The next item, if there is one. After an error, as after the end of the source, there is none.
-/
def next (tokenizer : Tokenizer) : Except Overflow (Option Item × Tokenizer) :=
  match tokenizer.pending with
  | token :: pending => .ok (some (.ok token), { tokenizer with pending })
  | [] =>
    if tokenizer.finished then
      .ok (none, tokenizer)
    else
      match tokenizer.fill with
      | .error (.overflow cause) => .error cause
      | .error (.rejected error) => .ok (some (.error error), { tokenizer with finished := true })
      | .ok filled =>
        match filled.pending with
        | token :: pending => .ok (some (.ok token), { filled with pending })
        | [] => .ok (none, filled)

def take (tokenizer : Tokenizer) : Nat → Except Overflow (List Item × Tokenizer)
  | 0 => .ok ([], tokenizer)
  | n + 1 => do
    match ← tokenizer.next with
    | (none, tokenizer) => return ([], tokenizer)
    | (some item, tokenizer) =>
      let (items, tokenizer) ← take tokenizer n
      return (item :: items, tokenizer)

def unread (tokenizer : Tokenizer) : Nat :=
  if tokenizer.finished then 0 else tokenizer.lines.length + 1

theorem fill_go_unread {tokenizer filled : Tokenizer} {cursor : Cursor} {lines : List Line}
    (hfinished : tokenizer.finished = false)
    (h : fill.go tokenizer cursor lines = .ok filled) : filled.unread ≤ lines.length := by
  induction lines generalizing cursor with
  | nil =>
    simp only [fill.go, Except.ok.injEq] at h
    simp [← h, unread]
  | cons line lines ih =>
    simp only [fill.go] at h
    split at h
    . simp at h
    . split at h
      . have := ih h
        simp only [List.length_cons]
        omega
      . simp only [Except.ok.injEq] at h
        simp [← h, unread, hfinished]

theorem next_lt {tokenizer after : Tokenizer} {item : Item}
    (h : tokenizer.next = .ok (some item, after)) :
    Prod.Lex (· < ·) (· < ·) (after.unread, after.pending.length)
      (tokenizer.unread, tokenizer.pending.length) := by
  simp only [next] at h
  split at h
  next token pending hpending =>
    simp only [Except.ok.injEq, Prod.mk.injEq] at h
    rw [← h.2, hpending]
    exact Prod.Lex.right _ (by simp)
  next =>
    split at h
    . simp at h
    next hfinished =>
      rw [Bool.not_eq_true] at hfinished
      have hunread : tokenizer.unread = tokenizer.lines.length + 1 := by simp [unread, hfinished]
      rw [hunread]
      apply Prod.Lex.left
      split at h
      . simp at h
      . simp only [Except.ok.injEq, Prod.mk.injEq] at h
        simp [← h.2, unread]
      next filled hfill =>
        have := fill_go_unread hfinished hfill
        split at h
        . simp only [Except.ok.injEq, Prod.mk.injEq] at h
          rw [← h.2]
          exact Nat.lt_succ_of_le this
        . simp at h

def drain (tokenizer : Tokenizer) : Except Overflow (List Item × Tokenizer) :=
  match _h : tokenizer.next with
  | .error cause => .error cause
  | .ok (none, after) => .ok ([], after)
  | .ok (some item, after) =>
    match drain after with
    | .error cause => .error cause
    | .ok (items, last) => .ok (item :: items, last)
termination_by (tokenizer.unread, tokenizer.pending.length)
decreasing_by exact next_lt ‹_›

end Tokenizer

end Offside
