import Offside.Proofs.Atomicity
import Offside.Proofs.Recorder

/-!
This module contains what the events of a source tell. There is one event for each line that changes
the open levels, it agrees with the layout tokens of this line, and from all of them the open levels
can be told again. One event more tells how the source ends.
-/

namespace Offside

structure Event.LoggedAs (event : Event) (verbosity message : String)
    (fields : List (String × FieldValue)) : Prop where
  verbosity_eq : event.verbosity.text = verbosity
  message_eq : event.message = message
  fields_eq : event.fields = fields

/--
Whether an event, if there is one, reports what the line of the given number does to the open
levels, in agreement with the kinds of the tokens of the line.
-/
inductive Reports (number : Nat) (kinds : List TokenKind) (before after : List UInt32) :
    Option Event → Prop where
  | stay :
    kinds.count .indent = 0 → kinds.count .dedent = 0 →
    after = before →
    Reports number kinds before after none
  | indent {line level : UInt32} :
    kinds.count .indent = 1 → kinds.count .dedent = 0 →
    line.toNat = number →
    after = before ++ [level] →
    (Event.indent line level after.length).LoggedAs "TRACE" "indent"
      [("line", .number number), ("level", .number level.toNat),
        ("depth", .number after.length)] →
    Reports number kinds before after (some (.indent line level after.length))
  | dedent {line level : UInt32} {closed : List UInt32} :
    kinds.count .indent = 0 → kinds.count .dedent = closed.length →
    line.toNat = number →
    before = after ++ closed → closed ≠ [] → after.getLast? = some level →
    (Event.dedent line level closed.length).LoggedAs "TRACE" "dedent"
      [("line", .number number), ("level", .number level.toNat),
        ("closed", .number closed.length)] →
    Reports number kinds before after (some (.dedent line level closed.length))

/--
Whether the events report of the given lines at the start of a source, in their order.
-/
inductive Chronicle (options : Options) : List Line → List Event → Prop where
  | nil : Chronicle options [] []
  | line {front : List Line} {line : Line} {events : List Event} {event? : Option Event}
    {own : List Token} :
    Chronicle options front events →
    Run.contribution options (front ++ [line]) = Run.contribution options front ++ own →
    Reports (front.length + 1) (own.map (·.kind)) (Run.openLevels options front)
      (Run.openLevels options (front ++ [line])) event? →
    Chronicle options (front ++ [line]) (events ++ event?.toList)

/--
The open levels after an event, told by the event and the open levels before it. There are none if
the event does not agree with them.
-/
def Event.replay (openLevels : List UInt32) : Event → Option (List UInt32)
  | .indent _ level depth =>
    let opened := openLevels ++ [level]
    if opened.length = depth then some opened else none
  | .dedent _ level closed =>
    let remaining := openLevels.take (openLevels.length - closed)
    if remaining.getLast? = some level then some remaining else none
  | .finished _ _ | .aborted _ _ _ => none

theorem Reports.replay {number : Nat} {kinds : List TokenKind} {before after : List UInt32}
    {event? : Option Event} (h : Reports number kinds before after event?) :
    event?.toList.foldlM Event.replay before = some after := by
  cases h with
  | stay _ _ hafter =>
    rw [hafter]
    rfl
  | indent _ _ _ hafter _ => simp [Event.replay, hafter]
  | dedent _ _ _ hbefore _ hlast _ => simp [Event.replay, hbefore, hlast]

namespace Chronicle

variable {options : Options} {lines : List Line} {events : List Event}

theorem replay (h : Chronicle options lines events) :
    events.foldlM Event.replay [0] = some (Run.openLevels options lines) := by
  induction h with
  | nil => rfl
  | line _ _ hreports ih =>
    rw [List.foldlM_append, ih]
    exact hreports.replay

theorem verbosity (h : Chronicle options lines events) :
    ∀ event ∈ events, event.verbosity = .trace := by
  induction h with
  | nil => simp
  | line _ _ hreports ih =>
    rw [List.forall_mem_append]
    refine ⟨ih, ?_⟩
    cases hreports with
    | stay => simp
    | indent => simp [Event.verbosity]
    | dedent => simp [Event.verbosity]

end Chronicle

namespace LayoutLine

variable {layoutLine : LayoutLine} {line : Line} {outline : Outline} {levels : Levels}
  {strict : Bool} {number : Nat}

theorem Shows.reports (h : layoutLine.Shows outline number)
    (houtline : line.outline strict levels = .ok outline) :
    Reports number outline.kinds levels.toList outline.levels.toList layoutLine.event? := by
  have henter := (Line.entered_of_outline_eq_ok houtline).2.1
  have hindent : outline.kinds.count .indent = outline.move.kinds.count .indent :=
    Line.count_kinds_of_isLayout rfl (by simp) houtline
  have hdedent : outline.kinds.count .dedent = outline.move.kinds.count .dedent :=
    Line.count_kinds_of_isLayout rfl (by simp) houtline
  unfold event?
  rw [h.move_eq, h.levels_eq]
  cases hmove : outline.move with
  | stay =>
    rw [hmove] at henter hindent hdedent
    refine .stay hindent hdedent ?_
    rw [Levels.eq_of_enter_stay henter]
  | indent =>
    rw [hmove] at henter hindent hdedent
    have hafter := Levels.toList_of_enter_indent henter
    dsimp only
    rw [← Levels.length_toList]
    apply Reports.indent hindent hdedent h.line_eq hafter
    rw [← h.line_eq]
    exact ⟨rfl, rfl, rfl⟩
  | dedent closed =>
    rw [hmove] at henter hindent hdedent
    rcases Levels.toList_of_enter_dedent henter with ⟨popped, hbefore, rfl⟩
    rw [Move.kinds, List.count_replicate_self] at hdedent
    rw [Move.kinds, List.count_replicate] at hindent
    refine .dedent hindent hdedent h.line_eq hbefore ?_ ?_ ?_
    . rintro rfl
      exact (Levels.entered_of_enter_eq_ok henter).move_ne_dedent_zero rfl
    . apply Levels.getLast?_toList
    . rw [← h.line_eq]
      exact ⟨rfl, rfl, rfl⟩

theorem filterMap_event? (entry : Option LayoutLine) :
    entry.toList.filterMap (·.event?) = (entry.bind (·.event?)).toList := by
  cases entry with
  | none => rfl
  | some layoutLine =>
    rw [Option.toList_some, List.filterMap_cons, Option.bind_some]
    cases layoutLine.event? with
    | none => rfl
    | some event => rfl

end LayoutLine

namespace Cursor

variable {options : Options} {front : List Line} {cursor : Cursor}

theorem Reached.chronicle (h : Reached options front cursor) (hrange : Line.InRange front) :
    Chronicle options front
      ((Run.ofLines options .start front).lines.filterMap (·.event?)) := by
  induction h with
  | start => exact .nil
  | @step front line entry cursor next hreached hstep ih =>
    have hpast := hreached.past hrange.of_append
    rw [Run.lines_append_singleton hreached hstep, List.filterMap_append,
      LayoutLine.filterMap_event?]
    apply Chronicle.line (ih hrange.of_append) (Run.contribution_append_singleton hreached hstep)
    rw [Run.openLevels_eq_toList hreached, Run.openLevels_eq_toList (hreached.step hstep)]
    rcases (step_cases hpast hrange hstep).2 with
      ⟨-, rfl, hlevels⟩ | ⟨outline, layoutLine, -, rfl, houtline, hshows, hlevels⟩
    . rw [hlevels]
      exact .stay rfl rfl rfl
    . rw [hlevels, Option.toList_some, List.flatMap_singleton, hshows.map_kind_tokens]
      exact hshows.reports houtline

theorem Reached.line_stop {text : List Char} (h : Reached options (Line.ofText text) cursor)
    (hrange : Line.InRange (Line.ofText text)) :
    cursor.stop.line.toNat = max 1 (Text.lineCount text) := by
  rw [← Line.length_ofText]
  rcases h.stop_after hrange (List.append_nil _).symm with
    ⟨hnil, hstop⟩ | ⟨init, last, hlines, hafter⟩
  . rw [hnil, hstop]
    rfl
  . have hbetween := Line.between_of_ofText hlines
    rw [hafter.line_eq, List.count_append, Line.count_feed_flatMap_chars hbetween.ended,
      List.count_eq_zero.2 hbetween.no_feed, hlines, List.length_append, List.length_singleton]
    omega

end Cursor

inductive LexicalErrorKind.IsCalled : LexicalErrorKind → String → Prop where
  | invalidIndentation : IsCalled .invalidIndentation "invalid indentation"
  | inconsistentDedent : IsCalled .inconsistentDedent "inconsistent dedent"
  | invalidToken : IsCalled .invalidToken "invalid token"

theorem LexicalErrorKind.isCalled_text (kind : LexicalErrorKind) : kind.IsCalled kind.text := by
  cases kind with
  | invalidIndentation => exact .invalidIndentation
  | inconsistentDedent => exact .inconsistentDedent
  | invalidToken => exact .invalidToken

inductive Ends (source : String) (stream : TokenStream) : Event → Prop where
  | finished {lines : UInt32} :
    stream.failure = none →
    lines.toNat = max 1 (Text.lineCount source.toList) →
    (Event.finished stream.tokens.length lines).LoggedAs "DEBUG" "tokenized source unit"
      [("tokens", .number stream.tokens.length),
        ("lines", .number (max 1 (Text.lineCount source.toList)))] →
    Ends source stream (.finished stream.tokens.length lines)
  | aborted {error : LexicalError} {name : String} :
    stream.failure = some error →
    error.kind.IsCalled name →
    (Event.aborted error.line error.column error.kind).LoggedAs "DEBUG" "tokenization aborted"
      [("line", .number error.line.toNat), ("column", .number error.column.toNat),
        ("kind", .text name)] →
    Ends source stream (.aborted error.line error.column error.kind)

/--
Whether a tokenizer that gave all tokens of the lines `scanned` has come to what is last: it closes
its open levels at the end of the source, or it gives the error of the next line and keeps them.
-/
inductive Tokenizer.Halts (options : Options) (stream : TokenStream) (scanned rest : List Line)
    (tokenizer : Tokenizer) : Prop where
  | atEnd {closing : List Token} :
    stream.failure = none → rest = [] →
    stream.tokens = Run.contribution options scanned ++ closing →
    closing.map (·.kind) = List.replicate (tokenizer.openLevels.length - 1) .dedent ++
      (if options.markEnd then [.eof] else []) →
    Halts options stream scanned rest tokenizer
  | atError {error : LexicalError} {after : Tokenizer} :
    stream.failure = some error → error.line.toNat = scanned.length + 1 →
    stream.tokens = Run.contribution options scanned →
    tokenizer.next = .ok (some (.error error), after) →
    after.openLevels = tokenizer.openLevels →
    Halts options stream scanned rest tokenizer

namespace Run

open Cursor

variable {source : String} {options : Options} {stream : TokenStream}

theorem exists_ending (hsize : source.utf8ByteSize ≤ 2 ^ 32 - 2)
    (hstream : TokenStream.ofSource source options = .ok stream) :
    ∃ ending, (ofSource source options).events options 0 =
        (ofSource source options).lines.filterMap (·.event?) ++ [ending] ∧
      ending.verbosity = .debug ∧ Ends source stream ending := by
  rcases @exists_ofSource_eq_ok options source hsize with ⟨stream', hstream', -, habort, -⟩
  rw [hstream, Except.ok.injEq] at hstream'
  rw [← hstream'] at habort
  have htokens := tokens_of_ofSource_eq_ok hstream
  unfold events
  rw [habort, Nat.zero_add, ← htokens]
  cases hfailure : stream.failure with
  | none =>
    rw [hfailure] at habort
    rcases ofSource_cases source options with ⟨-, hreached⟩ | ⟨_, _, _, _, -, hsome, -⟩
    . have hstop := hreached.line_stop (Line.inRange_ofSource hsize)
      refine ⟨_, rfl, rfl, .finished hfailure hstop ?_⟩
      rw [← hstop]
      exact ⟨rfl, rfl, rfl⟩
    . rw [habort] at hsome
      contradiction
  | some error =>
    exact ⟨_, rfl, rfl, .aborted hfailure error.kind.isCalled_text ⟨rfl, rfl, rfl⟩⟩

end Run

namespace Tokenizer

open Cursor Run

variable {source : String} {options : Options} {stream : TokenStream}

theorem exists_take_contribution (hsize : source.utf8ByteSize ≤ 2 ^ 32 - 2) (options : Options) :
    ∃ tokenizer, (ofSource source options).take
        (contribution options (Line.ofText source.toList)).length =
          .ok ((contribution options (Line.ofText source.toList)).map .ok, tokenizer) ∧
      tokenizer.cursor.levels = (Run.ofSource source options).cursor.levels := by
  have hrange := Line.inRange_ofSource hsize
  have hlast := getLast?_outlook_lines (.start : Reached options [] .start) hrange
  have htokens : ((Run.ofSource source options).lines.flatMap (·.outlook options.fileId)).map
      Prod.fst = (contribution options (Line.ofText source.toList)).map .ok :=
    map_outlook_lines _ _
  have hlength : ((Run.ofSource source options).lines.flatMap (·.outlook options.fileId)).length =
      (contribution options (Line.ofText source.toList)).length := length_outlook_lines _ _
  rcases (serves_ofSource source options).take hrange
    (contribution options (Line.ofText source.toList)).length with ⟨tokenizer, htake, hserves⟩
  have hlevels := hserves.levels_eq
  unfold levelsAt at hlevels
  unfold Run.outlook at htake hlevels
  rw [List.drop_zero, List.take_left' hlength, htokens] at htake
  rw [Nat.zero_add, List.take_left' hlength] at hlevels
  exact ⟨tokenizer, htake, hlevels.trans hlast⟩

theorem halts_of_failure_eq_none {tokenizer : Tokenizer} {cursor : Cursor}
    (hlevels : tokenizer.cursor.levels = cursor.levels) (hfailure : stream.failure = none)
    (htokens : stream.tokens =
      contribution options (Line.ofText source.toList) ++ cursor.closing options) :
    tokenizer.Halts options stream (Line.ofText source.toList) [] := by
  refine .atEnd hfailure rfl htokens ?_
  rw [length_openLevels, hlevels]
  exact cursor.map_kind_closing options

theorem halts_of_failure_eq_some {tokenizer : Tokenizer} {error : LexicalError}
    {front back : List Line} {line : Line} {cursor : Cursor}
    (hsize : source.utf8ByteSize ≤ 2 ^ 32 - 2)
    (hstream : TokenStream.ofSource source options = .ok stream)
    (hlines : Line.ofText source.toList = front ++ line :: back)
    (hreached : Reached options front cursor)
    (hstep : cursor.step options line = .error (.rejected error))
    (htake : (ofSource source options).take (contribution options front).length =
      .ok ((contribution options front).map .ok, tokenizer))
    (hfailure : stream.failure = some error)
    (htokens : stream.tokens = contribution options front) :
    tokenizer.Halts options stream front (line :: back) := by
  have hrange := Line.inRange_ofSource hsize
  rw [hlines, List.append_cons] at hrange
  rcases (hreached.breaks_of_step_eq_error hrange.of_append hstep).2 with ⟨error', herror, hline, -⟩
  rw [← Abort.rejected.inj herror] at hline
  rcases exists_take_next_eq_error hsize hstream hfailure with ⟨before, after, hbefore, hnext, -⟩
  rw [htokens, htake, Except.ok.injEq, Prod.mk.injEq] at hbefore
  rw [← hbefore.2] at hnext
  exact .atError hfailure hline htokens hnext (fused_of_next_eq_error hnext).1

theorem exists_halts (hsize : source.utf8ByteSize ≤ 2 ^ 32 - 2)
    (hstream : TokenStream.ofSource source options = .ok stream) :
    ∃ (scanned rest : List Line) (cursor : Cursor) (tokenizer : Tokenizer),
      Line.ofText source.toList = scanned ++ rest ∧
      Reached options scanned cursor ∧
      (Run.ofSource source options).lines = (ofLines options .start scanned).lines ∧
      (ofSource source options).take (contribution options scanned).length =
        .ok ((contribution options scanned).map .ok, tokenizer) ∧
      tokenizer.cursor.levels = cursor.levels ∧
      tokenizer.Halts options stream scanned rest := by
  rcases exists_take_contribution hsize options with ⟨tokenizer, htake, hlevels⟩
  rcases ofSource_eq_ok hstream with
    ⟨hfailure, cursor, hreached, htokens⟩ | ⟨error, front, line, back, cursor, hfailure, hlines,
      hreached, hstep, htokens⟩
  . have hcursor : (Run.ofSource source options).cursor = cursor :=
      (abort_eq_none_of_reached hreached).2
    rw [hcursor] at hlevels
    exact ⟨_, [], cursor, tokenizer, (List.append_nil _).symm, hreached, rfl, htake, hlevels,
      halts_of_failure_eq_none hlevels hfailure htokens⟩
  . have hrun : (Run.ofSource source options).lines = (ofLines options .start front).lines := by
      rw [Run.ofSource, hlines, ofLines_append_of_error hreached hstep]
    rw [hlines, contribution_append_of_error hreached hstep] at htake
    rw [cursor_ofSource_of_error hlines hreached hstep] at hlevels
    exact ⟨front, line :: back, cursor, tokenizer, hlines, hreached, hrun, htake, hlevels,
      halts_of_failure_eq_some hsize hstream hlines hreached hstep htake hfailure htokens⟩

end Tokenizer

/--
The events that are told while all tokens of a source are taken. First comes an event for each line
that changes the open levels. From these events the open levels can be told as they are before the
source ends or at its error. The last event tells how many tokens and lines there are, or the error.
-/
theorem events_account_for_tokens (source : String) (options : Options)
    (hsize : source.utf8ByteSize ≤ 2 ^ 32 - 2) :
    ∃ stream recorder steps ending scanned rest tokenizer,
      TokenStream.ofSource source options = .ok stream ∧
      (Recorder.ofSource source options).collect = .ok (stream, recorder) ∧
      trace source options = .ok recorder.events ∧
      recorder.events = steps ++ [ending] ∧
      (∀ event ∈ steps, event.verbosity = .trace) ∧
      ending.verbosity = .debug ∧
      Line.ofText source.toList = scanned ++ rest ∧
      Chronicle options scanned steps ∧
      Ends source stream ending ∧
      (Tokenizer.ofSource source options).take (Run.contribution options scanned).length =
        .ok ((Run.contribution options scanned).map .ok, tokenizer) ∧
      tokenizer.Halts options stream scanned rest ∧
      steps.foldlM Event.replay [0] = some tokenizer.openLevels := by
  have hrange := Line.inRange_ofSource hsize
  rcases Recorder.exists_collect_ofSource hsize options with
    ⟨stream, recorder, hstream, hcollect, hevents, htrace⟩
  rcases Run.exists_ending hsize hstream with ⟨ending, hending, hdebug, hends⟩
  rcases Tokenizer.exists_halts hsize hstream with
    ⟨scanned, rest, cursor, tokenizer, hlines, hreached, hrun, htake, hlevels, hhalts⟩
  rw [hending, hrun] at hevents
  rw [hlines] at hrange
  have hchronicle := hreached.chronicle hrange.of_append
  have hreplay := hchronicle.replay
  rw [← (Tokenizer.openLevels_of_reached hreached hrange.of_append hlevels).2.1] at hreplay
  exact ⟨stream, recorder, _, ending, scanned, rest, tokenizer, hstream, hcollect, htrace, hevents,
    hchronicle.verbosity, hdebug, hlines, hchronicle, hends, htake, hhalts, hreplay⟩

theorem events_account_for_tokens_comment_and_error :
    "a\n\tb\n# c\n\t$\n".utf8ByteSize ≤ 2 ^ 32 - 2 ∧
    ∃ stream recorder scanned,
      (Recorder.ofSource "a\n\tb\n# c\n\t$\n" {}).collect = .ok (stream, recorder) ∧
      recorder.events = [.indent 2 1 2, .dedent 3 0 1, .aborted 4 2 .invalidToken] ∧
      recorder.events.map (fun event => (event.verbosity.text, event.message, event.fields)) =
        [("TRACE", "indent", [("line", .number 2), ("level", .number 1), ("depth", .number 2)]),
          ("TRACE", "dedent", [("line", .number 3), ("level", .number 0), ("closed", .number 1)]),
          ("DEBUG", "tokenization aborted",
            [("line", .number 4), ("column", .number 2), ("kind", .text "invalid token")])] ∧
      Chronicle {} scanned [.indent 2 1 2, .dedent 3 0 1] ∧
      Ends "a\n\tb\n# c\n\t$\n" stream (.aborted 4 2 .invalidToken) := by
  have hsize : "a\n\tb\n# c\n\t$\n".utf8ByteSize ≤ 2 ^ 32 - 2 := by decide
  have hevents : (trace "a\n\tb\n# c\n\t$\n" {}).toOption =
      some [.indent 2 1 2, .dedent 3 0 1, .aborted 4 2 .invalidToken] := by decide +kernel
  rcases events_account_for_tokens "a\n\tb\n# c\n\t$\n" {} hsize with
    ⟨stream, recorder, steps, ending, scanned, _, _, -, hcollect, htrace, hrecorder, -, -, -,
      hchronicle, hends, -⟩
  rw [htrace] at hevents
  have heq : recorder.events = [.indent 2 1 2, .dedent 3 0 1, .aborted 4 2 .invalidToken] :=
    Option.some.inj hevents
  rcases List.append_inj' (hrecorder.symm.trans heq : steps ++ [ending] =
    [.indent 2 1 2, .dedent 3 0 1] ++ [.aborted 4 2 .invalidToken]) rfl with ⟨rfl, hending⟩
  rw [List.singleton_inj.1 hending] at hends
  refine ⟨hsize, stream, recorder, scanned, hcollect, heq, ?_, hchronicle, hends⟩
  rw [heq]
  rfl

end Offside
