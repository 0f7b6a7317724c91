import Offside.Proofs.Spans
import Offside.Proofs.Tiling

/-!
This module contains the coverage of sources. The tokens of a source stand in the order of its text,
and those that the text spells tile it up to the first line with an error.
-/

namespace Offside

def contentOf (tokens : List Token) : List Token :=
  tokens.filter (!·.kind.isLayout)

theorem contentOf_append (front back : List Token) :
    contentOf (front ++ back) = contentOf front ++ contentOf back := List.filter_append front back

theorem contentOf_eq_nil {tokens : List Token} (h : ∀ token ∈ tokens, token.kind.isLayout = true) :
    contentOf tokens = [] := by
  unfold contentOf
  rw [List.filter_eq_nil_iff]
  intro token hmem
  simp [h token hmem]

theorem contentOf_eq_self {tokens : List Token}
    (h : ∀ token ∈ tokens, token.kind.isLayout = false) : contentOf tokens = tokens := by
  unfold contentOf
  rw [List.filter_eq_self]
  intro token hmem
  simp [h token hmem]

theorem holders_contentOf {tokens : List Token} {offset : Nat}
    (h : ∀ token ∈ tokens, token.kind.isLayout = true → token.span.isEmpty = true) :
    holders (contentOf tokens) offset = holders tokens offset := by
  unfold holders contentOf
  rw [List.countP_filter]
  apply List.countP_congr
  intro token hmem
  cases hlayout : token.kind.isLayout with
  | false => simp
  | true =>
    have hempty := h token hmem hlayout
    unfold Span.isEmpty Span.length at hempty
    rw [beq_iff_eq] at hempty
    simp [Span.holds]
    omega

theorem Tiles.held_or_free_of_contentOf {tokens : List Token} {rest text front back : List Char}
    {c : Char} (h : Tiles rest [] text (contentOf tokens))
    (hempty : ∀ token ∈ tokens, token.kind.isLayout = true → token.span.isEmpty = true)
    (hsplit : text = front ++ c :: back) :
    holders tokens (Text.byteSize front) = 1 ∨
      (holders tokens (Text.byteSize front) = 0 ∧ Free tokens [] front c) := by
  -- No character belongs to the tokens that are left out.
  have hcases := h.held_or_free hsplit
  unfold Free at hcases ⊢
  simp only [holders_contentOf hempty] at hcases
  exact hcases

namespace Line

variable {front back : List Line} {line : Line}

theorem Between.skipped_ending (h : Between front line back) (rest : List Char) :
    Text.Skipped rest line.ending := by
  apply Text.skipped_of_forall
  have := h.ending_mem
  simp only [List.mem_cons, List.not_mem_nil, or_false] at this
  rcases this with heq | heq | heq | heq <;> simp [heq, Text.isBlank]

theorem Between.skipped_comment (h : Between front line back) {comment : List Char}
    (hcomment : '\n' ∉ comment) :
    Text.Skipped (back.flatMap chars) ('#' :: (comment ++ line.ending)) := by
  -- A comment that reaches the ending of its line takes up the carriage return in it.
  have := h.ending_mem
  simp only [List.mem_cons, List.not_mem_nil, or_false] at this
  -- The part of the ending before the line feed, and the line feed if there is one.
  have skipped (turn feed : List Char) (hturn : '\n' ∉ turn) (hending : line.ending = turn ++ feed)
      (hfeed : feed = ['\n'] ∨ feed = [] ∧ back = []) :
      Text.Skipped (back.flatMap chars) ('#' :: (comment ++ line.ending)) := by
    rw [hending, ← List.append_assoc]
    apply Text.Skipped.comment
    . simp [hcomment, hturn]
    . rcases hfeed with rfl | ⟨rfl, rfl⟩ <;> simp
    . rcases hfeed with rfl | ⟨rfl, -⟩
      . exact .blank (.inr rfl) .nil
      . exact .nil
  have hlast := h.feed_or_last
  rcases this with heq | heq | heq | heq
  . exact skipped [] [] (by simp) heq (.inr ⟨rfl, by simpa [heq] using hlast⟩)
  . exact skipped ['\r'] [] (by simp) heq (.inr ⟨rfl, by simpa [heq] using hlast⟩)
  . exact skipped [] ['\n'] (by simp) heq (.inl rfl)
  . exact skipped ['\r'] ['\n'] (by simp) heq (.inl rfl)

end Line

namespace Lexeme

theorem skipped_of_cut {c : Char} {text rest : List Char} {lexeme : Lexeme}
    (h : cut c text = .ok (lexeme, rest)) (hkind : lexeme.kind = none) :
    (∀ d ∈ lexeme.text, Text.isBlank d = true) ∨
      ∃ comment, lexeme.text = '#' :: comment ∧ ('\n' ∉ text → rest = []) := by
  unfold cut at h
  split at h
  next hblank =>
    rw [Except.ok.injEq, Prod.mk.injEq] at h
    rw [← h.1]
    left
    rw [cutRun, List.forall_mem_cons]
    exact ⟨hblank, List.all_eq_true.1 List.all_takeWhile⟩
  split at h
  next hsign =>
    rw [Except.ok.injEq, Prod.mk.injEq] at h
    rw [← h.1, ← h.2]
    right
    refine ⟨text.takeWhile (· != '\n'), by rw [cutRun, hsign], ?_⟩
    intro hfeed
    rw [cutRun, List.dropWhile_eq_nil_iff]
    intro d hmem
    rw [bne_iff_ne]
    rintro rfl
    exact hfeed hmem
  -- All other lexemes are tokens.
  split at h
  . rw [Except.ok.injEq, Prod.mk.injEq] at h
    rw [← h.1] at hkind
    contradiction
  split at h
  next hdigit =>
    rcases kind_eq_of_cutInt hdigit h with ⟨value, hvalue, -⟩
    rw [hkind] at hvalue
    contradiction
  split at h
  . rcases kind_eq_of_cutString h with ⟨body, hbody, -⟩
    rw [hkind] at hbody
    contradiction
  split at h
  next hcut =>
    rw [Except.ok.injEq] at h
    rcases kind_eq_of_cutSymbol? hcut with ⟨symbol, hsymbol, -⟩
    rw [h, hkind] at hsymbol
    contradiction
  . contradiction

end Lexeme

theorem Line.Between.tiles {front back : List Line} {line : Line} {fileId : UInt32}
    {before text : List Char} {tokens : List Token} (h : Line.Between front line back)
    (hfault : (Scan.ofText text).fault = none) (hfeed : '\n' ∉ text)
    (hat : List.Forall₂ (Token.At fileId) tokens (Scan.marks before (Scan.ofText text).lexemes)) :
    Tiles (back.flatMap Line.chars) before (text ++ line.ending) tokens := by
  induction text using Scan.ofText.induct generalizing before tokens with
  | case1 =>
    rw [Scan.ofText_nil] at hat
    cases hat
    exact .last (h.skipped_ending _)
  | case2 c text fault hcut =>
    rw [Scan.ofText_cons_of_fault hcut] at hfault
    contradiction
  | case3 c text lexeme rest hcut ih =>
    rw [Scan.ofText_cons_of_cut hcut] at hat hfault
    rcases Lexeme.cut_eq_cons hcut with ⟨tail, htail, rfl⟩
    rcases lexeme with ⟨kind, body⟩
    dsimp only at htail hat
    rw [← List.cons_append, ← htail] at hfeed ⊢
    rw [List.mem_append, not_or] at hfeed
    rw [List.append_assoc]
    cases kind with
    | none =>
      rw [Scan.marks] at hat
      rcases Lexeme.skipped_of_cut hcut rfl with hblank | ⟨comment, hcomment, hrest⟩
      . apply Tiles.skip
        . apply Text.skipped_of_forall
          intro d hmem
          exact .inl (hblank d hmem)
        . exact ih hfault hfeed.2 hat
      . dsimp only at hcomment
        rw [htail, List.mem_cons, not_or] at hfeed
        have hnil := hrest (by simp [hfeed.1.2, hfeed.2])
        rw [hnil, Scan.ofText_nil] at hat
        cases hat
        rw [htail, List.cons.injEq] at hcomment
        rw [hnil, htail, hcomment.1, List.cons_append, List.nil_append]
        exact .last (h.skipped_comment hfeed.1.2)
    | some kind =>
      rw [Scan.marks] at hat
      cases hat with
      | @cons token _ tokens _ hhead hrest =>
        have hstart := hhead.start_after
        have hstop := hhead.stop_after
        rw [← List.append_nil before] at hstart hstop hrest
        exact .token .nil hstart hstop (ih hfault hfeed.2 hrest)

variable {options : Options} {fileId : UInt32} {front back : List Line} {line : Line}

theorem Text.skipped_of_isIndent {text : List Char} (h : ∀ c ∈ text, Text.isIndent c = true)
    (rest : List Char) : Text.Skipped rest text := by
  apply Text.skipped_of_forall
  intro c hmem
  have := h c hmem
  simp only [Text.isIndent, Bool.or_eq_true, beq_iff_eq] at this
  left
  rcases this with rfl | rfl <;> rfl

namespace LayoutLine

variable {layoutLine : LayoutLine}

theorem contentOf_tokens {front text : List Char} (h : layoutLine.Stands fileId front text) :
    contentOf (layoutLine.tokens fileId) = layoutLine.content := by
  have hopening : contentOf (layoutLine.opening fileId) = [] := by
    apply contentOf_eq_nil
    intro token hmem
    rcases (mem_opening hmem).1 with hkind | hkind <;> rw [hkind] <;> rfl
  have hcontent : contentOf layoutLine.content = layoutLine.content := by
    apply contentOf_eq_self
    intro token hmem
    rcases exists_mem_of_forall₂ h.content_at hmem with ⟨mark, hmark, hat⟩
    rcases Scan.exists_of_mem_marks hmark with ⟨_, _, -, -, -, hlayout, -⟩
    rw [hat.kind_eq]
    exact hlayout
  unfold tokens
  split
  next hempty =>
    rw [hopening, List.isEmpty_iff.1 hempty]
  . rw [contentOf_append, contentOf_append, hopening, hcontent, List.nil_append]
    apply List.append_nil

theorem Stands.tiles (h : layoutLine.Stands fileId (front.flatMap Line.chars) line.text)
    (hbetween : Line.Between front line back)
    (hfault : (Scan.ofText (Text.body line.text)).fault = none) :
    Tiles (back.flatMap Line.chars) (front.flatMap Line.chars) line.chars layoutLine.content := by
  have hfeed := hbetween.no_feed
  unfold Line.chars
  rw [← Text.margin_append_body line.text, List.mem_append, not_or] at hfeed
  rw [← Text.margin_append_body line.text, List.append_assoc]
  apply Tiles.skip
  . exact Text.skipped_of_isIndent (List.all_eq_true.1 List.all_takeWhile) _
  . exact hbetween.tiles hfault hfeed.2 h.content_at

theorem Stands.offset_bounds {token : Token}
    (h : layoutLine.Stands fileId (front.flatMap Line.chars) line.text)
    (hblank : line.isBlank = false) (hmem : token ∈ layoutLine.tokens fileId) :
    Text.byteSize (front.flatMap Line.chars) ≤ token.span.start.offset.toNat ∧
      token.span.stop.offset.toNat ≤ layoutLine.stop.offset.toNat := by
  rcases h.exists_mark hblank hmem with ⟨mark, hmark, hat⟩
  rcases hmark.exists_after with ⟨after, htext⟩
  rw [hat.start_after.offset_eq, hat.stop_after.offset_eq, h.stop_after.offset_eq, htext]
  unfold Mark.behind
  simp only [Text.byteSize_append]
  omega

theorem Stands.pairwise_precedes
    (h : layoutLine.Stands fileId (front.flatMap Line.chars) line.text)
    (hbetween : Line.Between front line back) (hblank : line.isBlank = false)
    (hfault : (Scan.ofText (Text.body line.text)).fault = none) :
    (layoutLine.tokens fileId).Pairwise Token.Precedes := by
  have hfeed := hbetween.no_feed
  rw [← Text.margin_append_body line.text, List.mem_append, not_or] at hfeed
  have htiles := hbetween.tiles hfault hfeed.2 h.content_at
  have hopening : (layoutLine.opening fileId).Pairwise Token.Precedes :=
    Token.pairwise_precedes_of_point fun token hmem => (mem_opening hmem).2
  have hbounds := fun token => @Stands.offset_bounds fileId front line layoutLine token h hblank
  unfold tokens at hbounds ⊢
  split at hbounds
  next hempty =>
    rw [if_pos hempty]
    exact hopening
  next hempty =>
    rw [if_neg hempty, List.pairwise_append, List.pairwise_append]
    refine ⟨⟨hopening, htiles.pairwise_precedes, ?_⟩, List.pairwise_singleton _ _, ?_⟩
    . intro lhs hlhs rhs hrhs
      unfold Token.Precedes
      rw [(mem_opening hlhs).2, UInt64.le_iff_toNat_le]
      have := htiles.le_start rhs hrhs
      rw [← h.origin_after.offset_eq] at this
      exact this
    . intro lhs hlhs rhs hrhs
      rw [List.mem_singleton] at hrhs
      unfold Token.Precedes
      rw [hrhs, UInt64.le_iff_toNat_le]
      exact (hbounds lhs (List.mem_append_left _ hlhs)).2

end LayoutLine

structure Cursor.Ordered (cursor : Cursor) (front : List Line) (tokens : List Token) : Prop where
  pairwise : tokens.Pairwise Token.Precedes
  le_stop : ∀ token ∈ tokens, token.span.stop.offset.toNat ≤ cursor.stop.offset.toNat
  stop_le : cursor.stop.offset.toNat ≤ Text.byteSize (front.flatMap Line.chars)

namespace Run

open Cursor

variable {cursor : Cursor} {text : List Char}

theorem tiles_contribution (hreached : Reached options front cursor) (hrange : Line.InRange front)
    (hlines : Line.ofText text = front ++ back) :
    Tiles (back.flatMap Line.chars) [] (front.flatMap Line.chars)
      (contentOf (contribution options front)) := by
  induction hreached generalizing back with
  | start => exact .last .nil
  | @step front line entry cursor next hreached hstep ih =>
    rw [List.append_assoc, List.singleton_append] at hlines
    have hpast := hreached.past hrange.of_append
    have hbetween := Line.between_of_ofText hlines
    rw [contribution_append_singleton hreached hstep, contentOf_append, List.flatMap_append,
      List.flatMap_singleton]
    apply Tiles.append (ih hrange.of_append hlines)
    rw [List.nil_append]
    rcases (step_stands hpast hrange hbetween hstep).2 with
      ⟨hblank, rfl, -⟩ | ⟨_, layoutLine, -, rfl, houtline, -, -, hstands⟩
    . apply Tiles.last
      apply Text.Skipped.append _ (hbetween.skipped_ending _)
      exact Text.skipped_of_isIndent (List.all_eq_true.1 hblank) _
    . rw [Option.toList_some, List.flatMap_singleton, LayoutLine.contentOf_tokens hstands]
      exact hstands.tiles hbetween (Line.entered_of_outline_eq_ok houtline).2.2.1

theorem ordered_contribution (hreached : Reached options front cursor)
    (hrange : Line.InRange front) (hlines : Line.ofText text = front ++ back) :
    cursor.Ordered front (contribution options front) := by
  induction hreached generalizing back with
  | start => exact ⟨.nil, by simp [contribution, ofLines], Nat.le_refl 0⟩
  | @step front line entry cursor next hreached hstep ih =>
    rw [List.append_assoc, List.singleton_append] at hlines
    have hpast := hreached.past hrange.of_append
    have hbetween := Line.between_of_ofText hlines
    have hfront := ih hrange.of_append hlines
    rcases step_stands hpast hrange hbetween hstep with ⟨hafter, hcases⟩
    have hoffset := hafter.offset_eq
    have hstop := hfront.stop_le
    rw [Text.byteSize_append] at hoffset
    rw [contribution_append_singleton hreached hstep]
    constructor
    . rw [List.pairwise_append]
      rcases hcases with ⟨-, rfl, -⟩ | ⟨_, layoutLine, hblank, rfl, houtline, -, -, hstands⟩
      . exact ⟨hfront.pairwise, .nil, by simp⟩
      . rw [Option.toList_some, List.flatMap_singleton]
        have hfault := (Line.entered_of_outline_eq_ok houtline).2.2.1
        refine ⟨hfront.pairwise, hstands.pairwise_precedes hbetween hblank hfault, ?_⟩
        -- The tokens of earlier lines end before this line, those of this line start in it.
        intro lhs hlhs rhs hrhs
        have := hfront.le_stop lhs hlhs
        have := (hstands.offset_bounds hblank hrhs).1
        unfold Token.Precedes
        rw [UInt64.le_iff_toNat_le]
        omega
    . intro token hmem
      rw [List.mem_append] at hmem
      cases hmem with
      | inl hmem =>
        have := hfront.le_stop token hmem
        omega
      | inr hmem =>
        rcases hcases with ⟨-, rfl, -⟩ | ⟨_, layoutLine, hblank, rfl, -, -, -, hstands⟩
        . contradiction
        . rw [Option.toList_some, List.flatMap_singleton] at hmem
          have := (hstands.offset_bounds hblank hmem).2
          rw [hstands.stop_after.offset_eq, Text.byteSize_append] at this
          omega
    . rw [hoffset, List.flatMap_append, List.flatMap_singleton, Text.byteSize_append]
      have := Line.byteSize_text_le line
      omega

theorem contentOf_closing (cursor : Cursor) (options : Options) :
    contentOf (cursor.closing options) = [] := by
  apply contentOf_eq_nil
  intro token hmem
  rcases (mem_closing hmem).1 with hkind | hkind <;> rw [hkind] <;> rfl

theorem pairwise_precedes_closing {tokens : List Token} (h : cursor.Ordered front tokens)
    (options : Options) : (tokens ++ cursor.closing options).Pairwise Token.Precedes := by
  rw [List.pairwise_append]
  refine ⟨h.pairwise, ?_, ?_⟩
  . apply Token.pairwise_precedes_of_point
    intro token hmem
    exact (mem_closing hmem).2
  . intro lhs hlhs rhs hrhs
    unfold Token.Precedes
    rw [(mem_closing hrhs).2, UInt64.le_iff_toNat_le]
    exact h.le_stop lhs hlhs

theorem isEmpty_of_isLayout {source : String} {stream : TokenStream} {token : Token}
    (hsize : source.utf8ByteSize ≤ 2 ^ 32 - 2)
    (hstream : TokenStream.ofSource source options = .ok stream) (hmem : token ∈ stream.tokens)
    (hlayout : token.kind.isLayout = true) : token.span.isEmpty = true := by
  have hrange := Line.inRange_ofSource hsize
  rcases exists_closing hstream with ⟨closing, htokens, hclosing⟩
  rw [htokens, List.mem_append] at hmem
  cases hmem with
  | inl hmem =>
    rcases exists_exact_of_mem_contribution hrange hmem with ⟨_, _, _, -, hexact⟩
    exact hexact.isEmpty_iff.2 hlayout
  | inr hmem =>
    rcases hclosing token hmem with ⟨cursor, hreached, hmem⟩
    rcases exists_exact_of_mem_closing hrange hreached hmem with ⟨_, _, _, -, hexact⟩
    exact hexact.isEmpty_iff.2 hlayout

end Run

/--
No text of a source is lost, told twice or out of order. The lines before the first error are tiled
by the tokens that they spell, with nothing but blanks, line feeds and comments in between.
-/
theorem tokens_cover (source : String) (options : Options)
    (hsize : source.utf8ByteSize ≤ 2 ^ 32 - 2) :
    ∃ stream scanned rest, TokenStream.ofSource source options = .ok stream ∧
      Line.ofText source.toList = scanned ++ rest ∧
      source.toList = scanned.flatMap Line.chars ++ rest.flatMap Line.chars ∧
      (stream.failure = none → rest = []) ∧
      (∀ error, stream.failure = some error →
        rest ≠ [] ∧ error.line.toNat = scanned.length + 1) ∧
      stream.tokens.Pairwise Token.Precedes ∧
      Tiles (rest.flatMap Line.chars) [] (scanned.flatMap Line.chars) (contentOf stream.tokens) ∧
      ∀ front c back, scanned.flatMap Line.chars = front ++ c :: back →
        holders stream.tokens (Text.byteSize front) = 1 ∨
          (holders stream.tokens (Text.byteSize front) = 0 ∧
            Tiles.Free stream.tokens [] front c) := by
  have hrange := Line.inRange_ofSource hsize
  rcases @Run.exists_ofSource_eq_ok options source hsize with ⟨stream, hstream, -⟩
  have hempty := fun token hmem => @Run.isEmpty_of_isLayout options source stream token hsize
    hstream hmem
  have htext := Line.flatMap_chars_ofText source.toList
  rcases Run.ofSource_eq_ok hstream with
    ⟨hnone, cursor, hreached, htokens⟩ | ⟨error, front, line, back, cursor, hsome, hlines, hreached,
      hstep, htokens⟩
  . have htiles := Run.tiles_contribution hreached hrange (List.append_nil _).symm
    have hcontent : contentOf stream.tokens =
        contentOf (Run.contribution options (Line.ofText source.toList)) := by
      rw [htokens, contentOf_append, Run.contentOf_closing, List.append_nil]
    rw [← hcontent] at htiles
    refine ⟨stream, Line.ofText source.toList, [], hstream, (List.append_nil _).symm, ?_,
      fun _ => rfl, ?_, ?_, htiles, fun _ _ _ => htiles.held_or_free_of_contentOf hempty⟩
    . rw [htext, List.flatMap_nil, List.append_nil]
    . intro error hsome
      rw [hnone] at hsome
      contradiction
    . rw [htokens]
      apply Run.pairwise_precedes_closing
      exact Run.ordered_contribution hreached hrange (List.append_nil _).symm
  . have hinit := hrange
    rw [hlines, List.append_cons] at hinit
    have hpast := hreached.past hinit.of_append.of_append
    rcases (Cursor.step_eq_error hpast hinit.of_append hstep).2 with ⟨error', herror, hline, -⟩
    have htiles := Run.tiles_contribution hreached hinit.of_append.of_append hlines
    rw [← htokens] at htiles
    refine ⟨stream, front, line :: back, hstream, hlines, ?_, ?_, ?_, ?_, htiles,
      fun _ _ _ => htiles.held_or_free_of_contentOf hempty⟩
    . rw [← List.flatMap_append, ← hlines, htext]
    . intro hnone
      rw [hsome] at hnone
      contradiction
    . intro error'' hsome'
      rw [hsome, Option.some.injEq] at hsome'
      rw [← hsome', Abort.rejected.inj herror]
      exact ⟨List.cons_ne_nil line back, hline⟩
    . rw [htokens]
      exact (Run.ordered_contribution hreached hinit.of_append.of_append hlines).pairwise

theorem tokens_cover_comment_and_error :
    "a # b\r\n\"#\" $\n".utf8ByteSize ≤ 2 ^ 32 - 2 ∧
    ∃ (stream : TokenStream) (scanned rest : List Line),
      TokenStream.ofSource "a # b\r\n\"#\" $\n" {} = .ok stream ∧
      "a # b\r\n\"#\" $\n".toList = scanned.flatMap Line.chars ++ rest.flatMap Line.chars ∧
      Tiles (rest.flatMap Line.chars) [] (scanned.flatMap Line.chars)
        (contentOf stream.tokens) := by
  have hsize : "a # b\r\n\"#\" $\n".utf8ByteSize ≤ 2 ^ 32 - 2 := by decide
  rcases tokens_cover "a # b\r\n\"#\" $\n" {} hsize with
    ⟨stream, scanned, rest, hstream, -, htext, -, -, -, htiles, -⟩
  exact ⟨hsize, stream, scanned, rest, hstream, htext, htiles⟩

end Offside
