import Offside.Proofs.Acceptance
import Offside.Proofs.OpenLevels
import Offside.Proofs.Spans

/-!
This module contains the atomicity of failures. A line with an error leaves nothing behind: the
tokens and the open levels are those of the lines before it.
-/

namespace Offside

namespace Run

variable {options : Options} {front back : List Line} {text : List Char} {token : Token}

theorem line_le_of_mem_contribution (hrange : Line.InRange (Line.ofText text))
    (hlines : Line.ofText text = front ++ back) (hmem : token ∈ contribution options front) :
    token.span.start.line.toNat ≤ front.length ∧ token.span.stop.line.toNat ≤ front.length := by
  rcases exists_mark_of_mem_contribution hrange hlines hmem with
    ⟨before, own, after, mark, rfl, hbetween, hmark, hat⟩
  rcases hmark.exists_after with ⟨rest, hrest⟩
  have hfeed := hbetween.no_feed
  rw [hrest, List.mem_append, List.mem_append, not_or, not_or] at hfeed
  have hcount := Line.count_feed_flatMap_chars hbetween.ended
  rw [hat.start_after.line_eq, hat.stop_after.line_eq, List.length_append, List.length_cons]
  unfold Mark.behind
  simp only [List.count_append, hcount, List.count_eq_zero.2 hfeed.1.1,
    List.count_eq_zero.2 hfeed.1.2]
  omega

end Run

namespace Tokenizer

variable {tokenizer after : Tokenizer} {error : LexicalError}

theorem fused_of_next_eq_error (h : tokenizer.next = .ok (some (.error error), after)) :
    after.openLevels = tokenizer.openLevels ∧ after.next = .ok (none, after) := by
  cases gives_of_next_eq_ok h with
  | failed hpending =>
    refine ⟨rfl, Gives.next_eq_ok ?_⟩
    exact .finished hpending rfl

theorem calls_replicate_of_next_eq_none (h : tokenizer.next = .ok (none, tokenizer)) (n : Nat) :
    tokenizer.calls (List.replicate n .next) = .ok (List.replicate n (.one none), tokenizer) := by
  rw [calls_of_next_eq_none h, Call.serve_replicate_next]
  simp only [List.getElem?_nil, List.map_const', List.length_range]

theorem length_openLevels (tokenizer : Tokenizer) :
    tokenizer.openLevels.length - 1 = tokenizer.cursor.levels.above.length := by
  rw [length_openLevels_eq, Nat.add_sub_cancel]

theorem exists_take_next_eq_error {source : String} {options : Options} {stream : TokenStream}
    (hsize : source.utf8ByteSize ≤ 2 ^ 32 - 2)
    (hstream : TokenStream.ofSource source options = .ok stream)
    (hfailure : stream.failure = some error) :
    ∃ before after,
      (ofSource source options).take stream.tokens.length = .ok (stream.tokens.map .ok, before) ∧
      before.next = .ok (some (.error error), after) ∧
      after.cursor.levels = (Run.ofSource source options).cursor.levels := by
  have hrange := Line.inRange_ofSource hsize
  rcases @Run.exists_ofSource_eq_ok options source hsize with
    ⟨stream', hstream', hitems, habort, -⟩
  rw [hstream, Except.ok.injEq] at hstream'
  subst hstream'
  rw [TokenStream.items, hfailure] at hitems
  rw [hfailure] at habort
  have hlength := congrArg List.length hitems
  simp only [List.length_append, List.length_map, Option.map_some, Option.toList_some,
    List.length_singleton] at hlength
  rcases (serves_ofSource source options).take hrange stream.tokens.length with
    ⟨before, htake, hbefore⟩
  rcases hbefore.next hrange with ⟨after, hnext, hafter⟩
  rw [List.drop_zero, List.map_take, ← hitems, ← List.length_map (Except.ok : Token → Item),
    List.take_left] at htake
  rw [← List.getElem?_map, ← hitems, Nat.zero_add, ← List.length_map (Except.ok : Token → Item),
    List.getElem?_append_right (Nat.le_refl _), Nat.sub_self] at hnext
  refine ⟨before, after, ?_, hnext, ?_⟩
  . rw [List.length_map] at htake
    exact htake
  . rcases Run.levelsAt_of_failed hsize habort (Nat.le_of_eq hlength.symm) with
      ⟨_, _, _, -, -, -, hlevels⟩
    rw [hafter.levels_eq, Nat.zero_add, hlevels]

/--
An error leaves no trace of its line, whatever the line breaks. The source up to this line is
tokenized to the same tokens and those that close the blocks that the tokenizer has open then, and
these are the blocks that were open before the line.
-/
theorem failure_leaves_line_out (source : String) (options : Options)
    (hsize : source.utf8ByteSize ≤ 2 ^ 32 - 2) (stream : TokenStream) (error : LexicalError)
    (hstream : TokenStream.ofSource source options = .ok stream)
    (hfailure : stream.failure = some error) :
    ∃ front line back before after closing,
      Line.ofText source.toList = front ++ line :: back ∧
      error.line.toNat = front.length + 1 ∧
      Line.Breaks options.singleStep front line error.kind ∧
      (ofSource source options).take stream.tokens.length = .ok (stream.tokens.map .ok, before) ∧
      before.next = .ok (some (.error error), after) ∧
      TokenStream.ofSource (String.ofList (front.flatMap Line.chars)) options =
        .ok ⟨stream.tokens ++ closing, none⟩ ∧
      tokenize (String.ofList (front.flatMap Line.chars)) options =
        .ok (stream.tokens ++ closing) ∧
      closing.map (·.kind) = List.replicate (after.openLevels.length - 1) .dedent ++
        (if options.markEnd then [.eof] else []) ∧
      (∀ token ∈ stream.tokens,
        token.span.start.line < error.line ∧ token.span.stop.line < error.line) ∧
      after.openLevels = before.openLevels ∧
      after.openLevels = Run.openLevels options front ∧
      ∀ n, after.calls (List.replicate n .next) = .ok (List.replicate n (.one none), after) := by
  have hrange := Line.inRange_ofSource hsize
  rcases exists_take_next_eq_error hsize hstream hfailure with
    ⟨before, after, htake, hnext, hlevels⟩
  rcases fused_of_next_eq_error hnext with ⟨hopen, hfused⟩
  rcases Run.ofSource_eq_ok hstream with
    ⟨hnone, -⟩ | ⟨error', front, line, back, cursor, hsome, hlines, hreached, hstep, htokens⟩
  . rw [hfailure] at hnone
    contradiction
  . rw [hfailure, Option.some.injEq] at hsome
    rw [← hsome] at hstep
    have hfront := hrange
    rw [hlines, List.append_cons] at hfront
    rcases (hreached.breaks_of_step_eq_error hfront.of_append hstep).2 with
      ⟨error'', herror, hline, hbreaks⟩
    rw [← Abort.rejected.inj herror] at hline hbreaks
    -- The run ends at the cursor before the line.
    have hcursor : (Run.ofSource source options).cursor = cursor := by
      unfold Run.ofSource
      rw [hlines, Run.ofLines_append_of_error hreached hstep]
    rw [hcursor] at hlevels
    have hcut : Line.ofText (String.ofList (front.flatMap Line.chars)).toList = front ++ [] := by
      have hended := (Line.between_of_ofText hlines).ended
      rw [String.toList_ofList, Line.ofText_flatMap_chars hended, List.append_nil]
    have hsource : TokenStream.ofSource (String.ofList (front.flatMap Line.chars)) options =
        .ok ⟨stream.tokens ++ cursor.closing options, none⟩ := by
      rw [htokens]
      apply Run.ofSource_of_reached hreached hcut rfl
    refine ⟨front, line, back, before, after, cursor.closing options, hlines, hline, hbreaks, htake,
      hnext, hsource, Run.tokenize_of_ofSource hsource, ?_, ?_, hopen, ?_,
      calls_replicate_of_next_eq_none hfused⟩
    . rw [length_openLevels, hlevels]
      exact cursor.map_kind_closing options
    . intro token hmem
      rw [htokens] at hmem
      have := Run.line_le_of_mem_contribution hrange hlines hmem
      rw [UInt32.lt_iff_toNat_lt, UInt32.lt_iff_toNat_lt]
      omega
    . exact (openLevels_of_reached hreached hfront.of_append.of_append hlevels).2.1

theorem failure_leaves_line_out_question_mark :
    "a\n\tb\nc ?\n".utf8ByteSize ≤ 2 ^ 32 - 2 ∧
    ∃ stream error, TokenStream.ofSource "a\n\tb\nc ?\n" {} = .ok stream ∧
      stream.failure = some error ∧
      ∃ before after,
        (ofSource "a\n\tb\nc ?\n" {}).take stream.tokens.length =
          .ok (stream.tokens.map .ok, before) ∧
        before.next = .ok (some (.error error), after) ∧
        after.openLevels = before.openLevels := by
  have hsize : "a\n\tb\nc ?\n".utf8ByteSize ≤ 2 ^ 32 - 2 := by decide
  have hfails : (TokenStream.ofSource "a\n\tb\nc ?\n" {}).toOption.bind (·.failure) =
      some ⟨.invalidToken, 3, 3, "unexpected character '?'"⟩ := by decide +kernel
  cases hstream : TokenStream.ofSource "a\n\tb\nc ?\n" {} with
  | error cause =>
    rw [hstream] at hfails
    contradiction
  | ok stream =>
    rw [hstream] at hfails
    have hfailure : stream.failure = some _ := hfails
    rcases failure_leaves_line_out _ {} hsize stream _ hstream hfailure with
      ⟨_, _, _, before, after, _, -, -, -, htake, hnext, -, -, -, -, hopen, -, -⟩
    exact ⟨hsize, stream, _, rfl, hfailure, before, after, htake, hnext, hopen⟩

end Tokenizer

end Offside
