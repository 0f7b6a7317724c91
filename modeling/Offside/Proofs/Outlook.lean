import Offside.Proofs.Contribution
import Offside.Tokenizer

/-!
This module contains the items of a source in the order in which they can be taken, together with
the levels that are open once each of them was taken.
-/

namespace Offside

def TokenStream.items (stream : TokenStream) : List Item :=
  stream.tokens.map .ok ++ (stream.failure.map .error).toList

def LayoutLine.outlook (line : LayoutLine) (fileId : UInt32) : List (Item × Levels) :=
  (line.tokens fileId).map fun token => (.ok token, line.levels)

def Cursor.outlook (cursor : Cursor) (options : Options) : Option Abort → List (Item × Levels)
  | none => (cursor.closing options).map fun token => (.ok token, .base)
  | some (.rejected error) => [(.error error, cursor.levels)]
  | some (.overflow _) => []

def Run.outlook (run : Run) (options : Options) : List (Item × Levels) :=
  run.lines.flatMap (·.outlook options.fileId) ++ run.cursor.outlook options run.abort

namespace Run

open Cursor

variable {options : Options} {front back : List Line} {line : Line} {cursor next : Cursor}
  {entry : Option LayoutLine}

theorem outlook_eq_map (hreached : Reached options front cursor)
    (hrange : Line.InRange (front ++ [line]))
    (hstep : cursor.step options line = .ok (entry, next)) :
    entry.toList.flatMap (·.outlook options.fileId) =
      (entry.toList.flatMap (·.tokens options.fileId)).map
        fun token => (.ok token, next.levels) := by
  have hpast := hreached.past hrange.of_append
  rcases (step_cases hpast hrange hstep).2 with
    ⟨-, rfl, -⟩ | ⟨outline, layoutLine, -, rfl, -, hshows, hlevels⟩
  . rfl
  . have heq : layoutLine.levels = next.levels := hshows.levels_eq.trans hlevels.symm
    simp [LayoutLine.outlook, heq]

theorem outlook_ofLines_cons (hstep : cursor.step options line = .ok (entry, next)) :
    (ofLines options cursor (line :: back)).outlook options =
      entry.toList.flatMap (·.outlook options.fileId) ++
        (ofLines options next back).outlook options := by
  rw [ofLines_cons_of_ok hstep]
  simp only [outlook, List.flatMap_append, List.append_assoc]

theorem map_outlook_lines (run : Run) (fileId : UInt32) :
    (run.lines.flatMap (·.outlook fileId)).map Prod.fst =
      (run.lines.flatMap (·.tokens fileId)).map .ok := by
  simp [List.map_flatMap, LayoutLine.outlook, Function.comp_def]

theorem length_outlook_lines (run : Run) (fileId : UInt32) :
    (run.lines.flatMap (·.outlook fileId)).length =
      (run.lines.flatMap (·.tokens fileId)).length := by
  have h := congrArg List.length (run.map_outlook_lines fileId)
  rw [List.length_map, List.length_map] at h
  exact h

theorem exists_ofSource_eq_ok {source : String} (hsize : source.utf8ByteSize ≤ 2 ^ 32 - 2) :
    ∃ stream, TokenStream.ofSource source options = .ok stream ∧
      stream.items = ((ofSource source options).outlook options).map Prod.fst ∧
      (ofSource source options).abort = stream.failure.map .rejected ∧
      tokenize source options =
        match stream.failure with
        | none => .ok stream.tokens
        | some error => .error (.rejected error) := by
  unfold TokenStream.ofSource tokenize
  dsimp
  unfold outlook
  rw [List.map_append, map_outlook_lines]
  cases habort : (ofSource source options).abort with
  | none =>
    refine ⟨_, rfl, ?_, rfl, rfl⟩
    simp [TokenStream.items, tokens, habort, Cursor.outlook, Function.comp_def]
  | some abort =>
    rcases rejected_of_abort_eq_some hsize habort with ⟨error, rfl⟩
    refine ⟨_, rfl, ?_, rfl, rfl⟩
    simp [TokenStream.items, tokens, habort, Cursor.outlook]

def levelsAt (items : List (Item × Levels)) (taken : Nat) : Levels :=
  ((items.take taken).getLast?.map Prod.snd).getD .base

variable {items before mid after : List (Item × Levels)} {levels : Levels} {taken : Nat}

theorem levelsAt_succ : levelsAt items (taken + 1) =
    (items[taken]?.map Prod.snd).getD (levelsAt items taken) := by
  unfold levelsAt
  rw [List.take_add_one]
  cases items[taken]? with
  | none => simp
  | some item => simp

theorem levelsAt_append (hlevels : ∀ item ∈ mid, item.2 = levels)
    (hbefore : before.length < taken) (hmid : taken ≤ before.length + mid.length) :
    levelsAt (before ++ mid ++ after) taken = levels := by
  have hlt : taken - 1 - before.length < mid.length := by omega
  have hitem : (before ++ mid ++ after)[taken - 1]? = some mid[taken - 1 - before.length] := by
    rw [List.append_assoc, List.getElem?_append_right (by omega),
      List.getElem?_append_left hlt, List.getElem?_eq_getElem hlt]
  unfold levelsAt
  rw [List.getLast?_take, if_neg (by omega), hitem]
  exact hlevels _ (List.getElem_mem hlt)

end Run

namespace Cursor

theorem levels_eq_base_of_closing_eq_nil {cursor : Cursor} {options : Options}
    (h : cursor.closing options = []) : cursor.levels = .base := by
  have habove : cursor.levels.above = [] := by
    unfold closing at h
    dsimp at h
    split at h
    . simp at h
    . simpa using h
  rcases cursor with ⟨_, _, _, ⟨above, nested⟩⟩
  dsimp at habove
  subst habove
  rfl

end Cursor

namespace Run

open Cursor

variable {options : Options} {front back : List Line} {line : Line} {cursor : Cursor}

theorem getLast?_outlook_lines (hreached : Reached options front cursor)
    (hrange : Line.InRange (front ++ back)) :
    (((ofLines options cursor back).lines.flatMap (·.outlook options.fileId)).getLast?.map
      Prod.snd).getD cursor.levels = (ofLines options cursor back).cursor.levels := by
  induction back generalizing front cursor with
  | nil => rfl
  | cons line back ih =>
    rw [List.append_cons] at hrange
    have hfront := hrange.of_append
    cases hstep : cursor.step options line with
    | error abort =>
      rw [ofLines_cons_of_error hstep]
      rfl
    | ok result =>
      rcases result with ⟨entry, next⟩
      have hrest := ih (hreached.step hstep) hrange
      have hentry := outlook_eq_map hreached hfront hstep
      simp only [ofLines_cons_of_ok hstep, List.flatMap_append, hentry]
      rw [← hrest, List.getLast?_append]
      cases List.getLast? _ with
      | some last => rfl
      | none =>
        cases htokens : (entry.toList.flatMap (·.tokens options.fileId)).getLast? with
        | some token => simp [htokens]
        | none =>
          -- Neither this line nor the later ones have tokens, so that the levels never change.
          rw [List.getLast?_eq_none_iff] at htokens
          simp [htokens, levels_eq_of_tokens_eq_nil hreached hfront hstep htokens]

theorem exists_step_of_contribution_lt
    (h : (contribution options front).length < (contribution options (front ++ [line])).length) :
    ∃ entry cursor next, Reached options front cursor ∧
      cursor.step options line = .ok (entry, next) := by
  rcases ofLines_start_cases options front with
    ⟨-, hreached⟩ | ⟨mid, failing, rest, abort, hfront, -, hreached, herror⟩
  . cases hstep : (ofLines options .start front).cursor.step options line with
    | ok result => exact ⟨result.1, _, result.2, hreached, hstep⟩
    | error abort =>
      rw [contribution_append_of_error hreached hstep] at h
      omega
  . -- A line before this one could not be read, and nothing after it contributes.
    generalize (ofLines options .start front).cursor = cursor at hreached herror
    rw [hfront, List.append_assoc, List.cons_append, contribution_append_of_error hreached herror,
      contribution_append_of_error hreached herror] at h
    omega

theorem contribution_prefix (options : Options) (front back : List Line) :
    contribution options front <+: contribution options (front ++ back) := by
  rcases ofLines_start_cases options front with
    ⟨-, hreached⟩ | ⟨mid, failing, rest, abort, hfront, -, hreached, herror⟩
  . rw [contribution_append hreached]
    apply List.prefix_append
  . generalize (ofLines options .start front).cursor = cursor at hreached herror
    have heq : contribution options (front ++ back) = contribution options front := by
      rw [hfront, List.append_assoc, List.cons_append, contribution_append_of_error hreached herror,
        contribution_append_of_error hreached herror]
    exact ⟨[], by rw [List.append_nil, heq]⟩

theorem contribution_prefix_tokens {source : String} {stream : TokenStream}
    (h : TokenStream.ofSource source options = .ok stream) :
    contribution options (Line.ofText source.toList) <+: stream.tokens := by
  have htokens : contribution options (Line.ofText source.toList) <+:
      (ofSource source options).tokens options := by
    unfold tokens contribution ofSource
    dsimp
    split
    . apply List.prefix_append
    . apply List.prefix_refl
  unfold TokenStream.ofSource at h
  dsimp at h
  split at h
  . rw [Except.ok.injEq] at h
    rw [← h]
    exact htokens
  . rw [Except.ok.injEq] at h
    rw [← h]
    exact htokens
  . contradiction

theorem outlook_append (hreached : Reached options front cursor) (back : List Line) :
    (ofLines options .start (front ++ back)).outlook options =
      (ofLines options .start front).lines.flatMap (·.outlook options.fileId) ++
        (ofLines options cursor back).outlook options := by
  unfold outlook
  rw [hreached.ofLines_append, List.flatMap_append, List.append_assoc]

/--
What the open levels are once `taken` items of a source were taken: after a token that a line
contributes, those that come of the lines up to this one; after the error, those that come of the
lines before it; and at the end of the source, the base level alone.
-/
structure OpenOnce (options : Options) (lines : List Line) (stream : TokenStream) (taken : Nat)
    (openLevels : List UInt32) : Prop where
  start : taken = 0 → openLevels = [0]
  token : ∀ front line back, lines = front ++ line :: back →
    (contribution options front).length < taken →
    taken ≤ (contribution options (front ++ [line])).length →
    (Line.levelsAfter options.singleStep (front ++ [line])).map Levels.toList = .ok openLevels
  ended : stream.failure = none →
    (contribution options lines).length < taken ∨ stream.items.length ≤ taken →
    openLevels = [0]
  failed : ∀ error, stream.failure = some error → stream.items.length ≤ taken →
    ∃ front line back, lines = front ++ line :: back ∧ error.line.toNat = front.length + 1 ∧
      (Line.levelsAfter options.singleStep front).map Levels.toList = .ok openLevels

variable {source : String} {stream : TokenStream} {taken : Nat}

theorem levelsAt_of_token {lines : List Line} (hrange : Line.InRange lines)
    (hlines : lines = front ++ line :: back)
    (hlt : (contribution options front).length < taken)
    (hle : taken ≤ (contribution options (front ++ [line])).length) :
    Line.levelsAfter options.singleStep (front ++ [line]) =
      .ok (levelsAt ((ofLines options .start lines).outlook options) taken) := by
  subst hlines
  rw [List.append_cons] at hrange
  have hfront := hrange.of_append
  rcases exists_step_of_contribution_lt (Nat.lt_of_lt_of_le hlt hle) with
    ⟨entry, cursor, next, hreached, hstep⟩
  have hentry := outlook_eq_map hreached hfront hstep
  have hlength := length_outlook_lines (ofLines options .start front) options.fileId
  rw [contribution_append_singleton hreached hstep, List.length_append] at hle
  unfold contribution at hlt hle
  rw [(hreached.step hstep).levelsAfter_eq hfront, outlook_append hreached,
    outlook_ofLines_cons hstep, hentry, ← List.append_assoc]
  rw [@levelsAt_append _ _ _ next.levels]
  . intro item hitem
    rw [List.mem_map] at hitem
    rcases hitem with ⟨token, -, rfl⟩
    rfl
  . omega
  . rw [List.length_map]
    omega

theorem levelsAt_of_ended (hsize : source.utf8ByteSize ≤ 2 ^ 32 - 2)
    (habort : (ofSource source options).abort = none)
    (hle : taken ≤ ((ofSource source options).outlook options).length)
    (htaken : (contribution options (Line.ofText source.toList)).length < taken ∨
      ((ofSource source options).outlook options).length ≤ taken) :
    levelsAt ((ofSource source options).outlook options) taken = .base := by
  have hcontribution : (contribution options (Line.ofText source.toList)).length =
      ((ofSource source options).lines.flatMap (·.outlook options.fileId)).length :=
    (length_outlook_lines (ofSource source options) options.fileId).symm
  have hlast := getLast?_outlook_lines (.start : Reached options [] .start)
    (Line.inRange_ofSource hsize)
  change _ = (ofSource source options).cursor.levels at hlast
  unfold outlook at hle htaken ⊢
  rw [habort] at hle htaken ⊢
  dsimp only [Cursor.outlook] at hle htaken ⊢
  rw [List.length_append, List.length_map] at hle htaken
  rw [hcontribution] at htaken
  by_cases hlt : ((ofSource source options).lines.flatMap (·.outlook options.fileId)).length < taken
  . rw [← List.append_nil (_ ++ _)]
    apply levelsAt_append
    . intro item hitem
      rw [List.mem_map] at hitem
      rcases hitem with ⟨token, -, rfl⟩
      rfl
    . exact hlt
    . rw [List.length_map]
      exact hle
  . -- Nothing closes at the end, so that the last line was already at the base level.
    have hclosing : (ofSource source options).cursor.closing options = [] := by
      rw [← List.length_eq_zero_iff]
      omega
    rw [hclosing, List.length_nil] at htaken
    rw [hclosing, List.map_nil, List.append_nil]
    unfold levelsAt
    rw [List.take_of_length_le (by omega)]
    exact hlast.trans (levels_eq_base_of_closing_eq_nil hclosing)

theorem levelsAt_of_failed (hsize : source.utf8ByteSize ≤ 2 ^ 32 - 2) {error : LexicalError}
    (habort : (ofSource source options).abort = some (.rejected error))
    (htaken : ((ofSource source options).outlook options).length ≤ taken) :
    ∃ front line back, Line.ofText source.toList = front ++ line :: back ∧
      error.line.toNat = front.length + 1 ∧
      Reached options front (ofSource source options).cursor ∧
      levelsAt ((ofSource source options).outlook options) taken =
        (ofSource source options).cursor.levels := by
  have hrange := Line.inRange_ofSource hsize
  rcases ofSource_cases source options with
    ⟨hnone, -⟩ | ⟨front, line, back, abort, hlines, habort', hreached, hstep⟩
  . rw [habort] at hnone
    contradiction
  . rw [habort, Option.some.injEq] at habort'
    subst habort'
    rw [hlines, List.append_cons] at hrange
    have hpast := hreached.past hrange.of_append.of_append
    rcases (step_eq_error hpast hrange.of_append hstep).2 with ⟨error', herror, hline, -⟩
    rw [Abort.rejected.injEq] at herror
    subst herror
    refine ⟨front, line, back, hlines, hline, hreached, ?_⟩
    unfold levelsAt
    rw [List.take_of_length_le htaken]
    simp [outlook, habort, Cursor.outlook]

theorem openOnce_levelsAt (hsize : source.utf8ByteSize ≤ 2 ^ 32 - 2)
    (habort : (ofSource source options).abort = stream.failure.map .rejected)
    (hitems : stream.items = ((ofSource source options).outlook options).map Prod.fst)
    (hle : taken ≤ stream.items.length) :
    OpenOnce options (Line.ofText source.toList) stream taken
      (levelsAt ((ofSource source options).outlook options) taken).toList := by
  have hrange := Line.inRange_ofSource hsize
  have hlength := congrArg List.length hitems
  rw [List.length_map] at hlength
  constructor
  . rintro rfl
    rfl
  . intro front line back hlines hlt hle
    rw [levelsAt_of_token hrange hlines hlt hle]
    rfl
  . intro hfailure htaken
    rw [hfailure] at habort
    rw [hlength] at hle htaken
    rw [levelsAt_of_ended hsize habort hle htaken]
    rfl
  . intro error hfailure htaken
    rw [hfailure] at habort
    rw [hlength] at htaken
    rcases levelsAt_of_failed hsize habort htaken with
      ⟨front, line, back, hlines, hline, hreached, hlevels⟩
    rw [hlines] at hrange
    refine ⟨front, line, back, hlines, hline, ?_⟩
    rw [hreached.levelsAfter_eq hrange.of_append, hlevels]
    rfl

end Run

end Offside
