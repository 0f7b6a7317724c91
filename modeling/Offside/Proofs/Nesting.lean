import Offside.Proofs.Atomicity
import Offside.Proofs.Image
import Offside.Proofs.Stage

/-!
This module contains the blocks that tokens leave open. At any time they are as many as there are
levels above the base level, if tokens that were read and not taken yet are counted as well.
-/

namespace Offside

/--
Whether a list of kinds leaves `depth` blocks open and nowhere closes a block that it did not open.
-/
structure Nests (kinds : List TokenKind) (depth : Nat) : Prop where
  prefix_le : ∀ front, front <+: kinds → front.count .dedent ≤ front.count .indent
  total_eq : kinds.count .indent = kinds.count .dedent + depth

variable {kinds : List TokenKind} {depth : Nat}

theorem Laid.nests (h : Laid 0 (kinds ++ List.replicate depth .dedent)) : Nests kinds depth := by
  constructor
  . intro front hfront
    have hle := h.count_take_le front.length
    rw [← List.prefix_iff_eq_take.1 (hfront.trans (List.prefix_append kinds _)),
      Nat.zero_add] at hle
    exact hle
  . have htotal := h.count_eq
    rw [List.count_append, List.count_append, List.count_replicate_self] at htotal
    simp [List.count_replicate] at htotal
    omega

theorem Nests.append_eof (h : Nests kinds depth) : Nests (kinds ++ [.eof]) depth := by
  have htotal : (kinds ++ [TokenKind.eof]).count .indent =
      (kinds ++ [TokenKind.eof]).count .dedent + depth := by
    simpa using h.total_eq
  constructor
  . intro front hfront
    rw [List.prefix_concat_iff] at hfront
    rcases hfront with rfl | hfront
    . rw [htotal]
      apply Nat.le_add_right
    . exact h.prefix_le front hfront
  . exact htotal

namespace Run

open Cursor

variable {options : Options} {front : List Line} {cursor : Cursor}

theorem laid_contribution_append (hreached : Reached options front cursor)
    (hrange : Line.InRange front) (hkinds : Laid cursor.levels.above.length kinds) :
    Laid 0 ((contribution options front).map (·.kind) ++ kinds) := by
  induction hreached generalizing kinds with
  | start => exact hkinds
  | step hreached hstep ih =>
    have hpast := hreached.past hrange.of_append
    rw [contribution_append_singleton hreached hstep, List.map_append, List.append_assoc]
    apply ih hrange.of_append
    rcases (step_cases hpast hrange hstep).2 with
      ⟨-, rfl, hlevels⟩ | ⟨outline, layoutLine, -, rfl, houtline, hshows, hlevels⟩
    . rw [← hlevels]
      exact hkinds
    . rw [hlevels] at hkinds
      rw [Option.toList_some, List.flatMap_singleton, hshows.map_kind_tokens]
      apply Line.laid_of_outline_eq_ok houtline hkinds

theorem nests_contribution (hreached : Reached options front cursor)
    (hrange : Line.InRange front) :
    Nests ((contribution options front).map (·.kind)) cursor.levels.above.length := by
  apply Laid.nests
  apply laid_contribution_append hreached hrange (laid_replicate _)

theorem nests_contribution_closing (hreached : Reached options front cursor)
    (hrange : Line.InRange front) :
    Nests ((contribution options front ++ cursor.closing options).map (·.kind)) 0 := by
  have hclosed : Nests ((contribution options front).map (·.kind) ++
      List.replicate cursor.levels.above.length .dedent) 0 := by
    apply Laid.nests
    rw [List.replicate_zero, List.append_nil]
    apply laid_contribution_append hreached hrange (laid_replicate _)
  rw [List.map_append, map_kind_closing, ← List.append_assoc]
  split
  . exact hclosed.append_eof
  . rw [List.append_nil]
    exact hclosed

theorem nests_of_failure_eq_none {source : String} {stream : TokenStream}
    (hsize : source.utf8ByteSize ≤ 2 ^ 32 - 2)
    (hstream : TokenStream.ofSource source options = .ok stream) (hfailure : stream.failure = none) :
    Nests (stream.tokens.map (·.kind)) 0 := by
  rcases ofSource_eq_ok hstream with
    ⟨-, cursor, hreached, htokens⟩ | ⟨error, _, _, _, _, hsome, -⟩
  . rw [htokens]
    apply nests_contribution_closing hreached (Line.inRange_ofSource hsize)
  . rw [hfailure] at hsome
    contradiction

theorem nests_of_failure_eq_some {source : String} {stream : TokenStream} {error : LexicalError}
    (hsize : source.utf8ByteSize ≤ 2 ^ 32 - 2)
    (hstream : TokenStream.ofSource source options = .ok stream)
    (hfailure : stream.failure = some error) :
    Nests (stream.tokens.map (·.kind)) (ofSource source options).cursor.levels.above.length := by
  rcases ofSource_eq_ok hstream with
    ⟨hnone, -⟩ | ⟨_, front, line, back, cursor, -, hlines, hreached, hstep, htokens⟩
  . rw [hfailure] at hnone
    contradiction
  . have hrange := Line.inRange_ofSource hsize
    rw [hlines] at hrange
    rw [htokens, cursor_ofSource_of_error hlines hreached hstep]
    apply nests_contribution hreached hrange.of_append

end Run

namespace Tokenizer

variable {options : Options} {lines : List Line} {given : List Item} {tokenizer : Tokenizer}

theorem Stage.nests (h : tokenizer.Stage options lines given) (hrange : Line.InRange lines) :
    Nests ((Item.tokens given ++ tokenizer.pending).map (·.kind))
      tokenizer.cursor.levels.above.length := by
  cases h with
  | @reading front _ hlines hreached hgiven =>
    rw [← hlines] at hrange
    rw [Item.tokens_append_of_eq hgiven]
    apply Run.nests_contribution hreached hrange.of_append
  | closed _ hreached hgiven hlevels =>
    rw [Item.tokens_append_of_eq hgiven, hlevels]
    apply Run.nests_contribution_closing hreached hrange
  | @failed front _ _ _ _ _ hlines hreached _ hgiven hpending hlevels =>
    have htokens : Item.tokens given = Run.contribution options front := by
      rw [hgiven, Item.tokens_append, Item.tokens_map_ok]
      apply List.append_nil
    rw [hlines] at hrange
    rw [htokens, hpending, List.append_nil, hlevels]
    apply Run.nests_contribution hreached hrange.of_append

/--
At any time the blocks that tokens leave open are as many as the open levels above the base level.
In particular the tokens of a source without an error close all blocks that they open.
-/
theorem openLevels_count_blocks (source : String) (options : Options)
    (hsize : source.utf8ByteSize ≤ 2 ^ 32 - 2) :
    (∀ schedule, ∃ answers tokenizer depth,
      (ofSource source options).calls schedule = .ok (answers, tokenizer) ∧
      tokenizer.openLevels.length = depth + 1 ∧
      Nests ((Item.tokens (answers.flatMap Answer.toList) ++ tokenizer.pending).map (·.kind))
        depth) ∧
    ∃ stream, TokenStream.ofSource source options = .ok stream ∧
      (stream.failure = none → Nests (stream.tokens.map (·.kind)) 0) ∧
      ∀ error, stream.failure = some error → ∃ before after depth,
        (ofSource source options).take stream.tokens.length = .ok (stream.tokens.map .ok, before) ∧
        before.next = .ok (some (.error error), after) ∧
        after.openLevels.length = depth + 1 ∧
        Nests (stream.tokens.map (·.kind)) depth := by
  have hrange := Line.inRange_ofSource hsize
  rcases @Run.exists_ofSource_eq_ok options source hsize with ⟨stream, hstream, -⟩
  refine ⟨?_, stream, hstream, Run.nests_of_failure_eq_none hsize hstream, ?_⟩
  . intro schedule
    rcases exists_calls_stage hsize options schedule with ⟨answers, tokenizer, hcalls, hstage⟩
    exact ⟨answers, tokenizer, _, hcalls, tokenizer.length_openLevels_eq, hstage.nests hrange⟩
  . intro error hfailure
    rcases exists_take_next_eq_error hsize hstream hfailure with
      ⟨before, after, htake, hnext, hlevels⟩
    refine ⟨before, after, _, htake, hnext, after.length_openLevels_eq, ?_⟩
    rw [hlevels]
    apply Run.nests_of_failure_eq_some hsize hstream hfailure

theorem openLevels_count_blocks_error_inside :
    "a\n\tb\n\t?\n".utf8ByteSize ≤ 2 ^ 32 - 2 ∧
    ∃ stream error before after depth,
      TokenStream.ofSource "a\n\tb\n\t?\n" {} = .ok stream ∧
      stream.failure = some error ∧
      (ofSource "a\n\tb\n\t?\n" {}).take stream.tokens.length =
        .ok (stream.tokens.map .ok, before) ∧
      before.next = .ok (some (.error error), after) ∧
      after.openLevels.length = depth + 1 ∧
      Nests (stream.tokens.map (·.kind)) depth := by
  have hsize : "a\n\tb\n\t?\n".utf8ByteSize ≤ 2 ^ 32 - 2 := by decide
  have hfails : (TokenStream.ofSource "a\n\tb\n\t?\n" {}).toOption.bind (·.failure) =
      some ⟨.invalidToken, 3, 2, "unexpected character '?'"⟩ := by decide +kernel
  rcases openLevels_count_blocks "a\n\tb\n\t?\n" {} hsize with ⟨-, stream, hstream, -, hfailed⟩
  rw [hstream] at hfails
  rcases hfailed _ hfails with ⟨before, after, depth, htake, hnext, hlength, hnests⟩
  exact ⟨hsize, stream, _, before, after, depth, hstream, hfails, htake, hnext, hlength, hnests⟩

end Tokenizer

end Offside
