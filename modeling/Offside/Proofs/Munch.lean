import Offside.Proofs.Coverage
import Offside.Proofs.Invisible
import Offside.Proofs.Origin
import Offside.Proofs.Pattern

/-!
This module contains maximal munch. The tokens of a text are those of the only way to cut the text
into gaps and longest beginnings that denote tokens, and a text that cannot be cut so has none.
-/

namespace Offside

/--
Whether a text that stands behind `before` consists of the tokens that marks tell of and gaps around
them. A gap holds blanks and comments, and a token is the longest beginning of what is left that
matches a pattern.
-/
inductive Munches : List Char → List Char → List Mark → Prop where
  | last {before gap : List Char} :
    Text.Skipped [] gap → '\n' ∉ gap →
    Munches before gap []
  | token {before gap body rest : List Char} {kind : TokenKind} {marks : List Mark} :
    Text.Skipped (body ++ rest) gap → '\n' ∉ gap →
    Pattern.Longest body (body ++ rest) → Text.Denotes body kind →
    Munches (before ++ gap ++ body) rest marks →
    Munches before (gap ++ body ++ rest) (⟨kind, before ++ gap, body⟩ :: marks)

theorem Text.Denotes.no_feed {body : List Char} {kind : TokenKind} (h : Denotes body kind) :
    '\n' ∉ body := by
  intro hmem
  rcases h.forms with hword | ⟨-, hdigits⟩ | ⟨inner, rfl, hinner⟩ | ⟨sign, rfl⟩
  . cases body with
    | nil => contradiction
    | cons c tail =>
      rw [List.mem_cons] at hmem
      rcases hmem with rfl | hmem
      . exact absurd hword.1 (by decide)
      . exact absurd (hword.2 _ hmem) (by decide)
  . exact absurd (hdigits _ hmem) (by decide)
  . simp only [List.mem_cons, List.mem_append, List.not_mem_nil, or_false] at hmem
    rcases hmem with heq | hmem | heq
    . contradiction
    . exact (hinner _ hmem).2 rfl
    . contradiction
  . revert hmem
    cases sign <;> decide

theorem Text.Skipped.isBlank {c : Char} {rest gap : List Char} (h : Skipped (c :: rest) gap)
    (hfeed : '\n' ∉ gap) (hc : c ≠ '\n') : ∀ d ∈ gap, Text.isBlank d = true := by
  -- A comment in the gap would go on through the token.
  induction h with
  | nil => simp
  | @blank d text hd _ ih =>
    rw [List.mem_cons, not_or] at hfeed
    rw [List.forall_mem_cons]
    exact ⟨hd.resolve_right (Ne.symm hfeed.1), ih hfeed.2⟩
  | @comment remark text _ hend _ _ =>
    simp only [List.mem_cons, List.mem_append, not_or] at hfeed
    cases text with
    | nil => exact absurd (hend c rfl) hc
    | cons d text =>
      have hd : d = '\n' := hend d rfl
      rw [hd] at hfeed
      exact absurd List.mem_cons_self hfeed.2.2

theorem Text.Skipped.isBlank_of_denotes {body rest gap : List Char} {kind : TokenKind}
    (h : Skipped (body ++ rest) gap) (hfeed : '\n' ∉ gap) (hdenotes : Denotes body kind) :
    ∀ d ∈ gap, Text.isBlank d = true := by
  have hfeed' := hdenotes.no_feed
  rcases hdenotes.exists_matches with ⟨pattern, hmatches⟩
  rcases List.exists_cons_of_ne_nil hmatches.ne_nil with ⟨c, tail, rfl⟩
  rw [List.mem_cons, not_or] at hfeed'
  exact h.isBlank hfeed (Ne.symm hfeed'.1)

theorem Lexeme.rest_eq_nil_of_cut_comment {text rest : List Char} {lexeme : Lexeme}
    (h : cut '#' text = .ok (lexeme, rest)) (hfeed : '\n' ∉ rest) : rest = [] ∧ '\n' ∉ text := by
  rw [cut_number_sign, Except.ok.injEq, cutRun, Prod.mk.injEq] at h
  have hnil : text.dropWhile (· != '\n') = [] := by
    cases hrest : text.dropWhile (· != '\n') with
    | nil => rfl
    | cons d tail =>
      have hd := not_accept_of_dropWhile_eq_cons hrest
      rw [bne_eq_false_iff_eq] at hd
      rw [← h.2, hrest, hd] at hfeed
      exact absurd List.mem_cons_self hfeed
  refine ⟨h.2.symm.trans hnil, ?_⟩
  intro hmem
  rw [List.dropWhile_eq_nil_iff] at hnil
  exact absurd (hnil _ hmem) (by decide)

namespace Scan

variable {before gap text : List Char}

theorem marks_eq_nil {lexemes : List Lexeme} (h : lexemes.filterMap (·.kind) = []) :
    marks before lexemes = [] := by
  induction lexemes generalizing before with
  | nil => rfl
  | cons lexeme lexemes ih =>
    rcases lexeme with ⟨kind, text⟩
    cases kind with
    | none =>
      rw [marks]
      exact ih h
    | some kind => contradiction

/--
Whether `front`, which stands behind `before`, is cut off in front of `back` into the tokens that
marks tell of and gaps.
-/
structure CutsOff (before front back : List Char) (marks : List Mark) : Prop where
  fault_eq : (ofText (front ++ back)).fault = (ofText back).fault
  marks_eq : Scan.marks before (ofText (front ++ back)).lexemes =
    marks ++ Scan.marks (before ++ front) (ofText back).lexemes
  covered_eq : covered (ofText (front ++ back)).lexemes = front ++ covered (ofText back).lexemes

theorem cutsOff_nil (before back : List Char) : CutsOff before [] back [] := by
  constructor
  . rfl
  . rw [List.append_nil]
    rfl
  . rfl

theorem cutsOff_of_cut {c : Char} {tail back : List Char} {kind : Option TokenKind}
    (h : Lexeme.cut c (tail ++ back) = .ok (⟨kind, c :: tail⟩, back)) :
    CutsOff before (c :: tail) back (marks before [⟨kind, c :: tail⟩]) := by
  constructor
  . rw [List.cons_append, ofText_cons_of_cut h]
  . rw [List.cons_append, ofText_cons_of_cut h]
    cases kind <;> rfl
  . rw [List.cons_append, ofText_cons_of_cut h, covered_cons]

theorem cutsOff_of_longest {body back : List Char} {kind : TokenKind}
    (hlongest : Pattern.Longest body (body ++ back)) (hdenotes : Text.Denotes body kind) :
    CutsOff before body back [⟨kind, before, body⟩] := by
  rcases hlongest.exists_matches with ⟨pattern, hmatches⟩
  rcases List.exists_cons_of_ne_nil hmatches.ne_nil with ⟨c, tail, rfl⟩
  exact cutsOff_of_cut (Lexeme.cut_of_longest hlongest hdenotes)

theorem CutsOff.append {front front' back : List Char} {marks marks' : List Mark}
    (h : CutsOff before front (front' ++ back) marks)
    (h' : CutsOff (before ++ front) front' back marks') :
    CutsOff before (front ++ front') back (marks ++ marks') := by
  constructor
  . rw [List.append_assoc, h.fault_eq, h'.fault_eq]
  . rw [List.append_assoc, h.marks_eq, h'.marks_eq, List.append_assoc, List.append_assoc]
  . rw [List.append_assoc, h.covered_eq, h'.covered_eq, List.append_assoc]

theorem cutsOff_blanks (hgap : ∀ d ∈ gap, Text.isBlank d = true) (back : List Char) :
    CutsOff before gap back [] := by
  -- All blanks at the start of a text are cut off at once.
  have run (before text : List Char) : CutsOff before (text.takeWhile Text.isBlank)
      (text.dropWhile Text.isBlank) [] := by
    cases text with
    | nil => apply cutsOff_nil
    | cons c text =>
      cases hblank : Text.isBlank c with
      | false =>
        rw [List.takeWhile_cons_of_neg (by simp [hblank])]
        apply cutsOff_nil
      | true =>
        rw [List.takeWhile_cons_of_pos hblank, List.dropWhile_cons_of_pos hblank]
        apply @cutsOff_of_cut before c _ _ none
        rw [List.takeWhile_append_dropWhile, Lexeme.cut_of_isBlank hblank, Lexeme.cutRun]
  have hback := run (before ++ gap) back
  have hboth := run before (gap ++ back)
  rw [List.takeWhile_append_of_pos hgap, List.dropWhile_append_of_pos hgap] at hboth
  have hsplit := List.takeWhile_append_dropWhile (p := Text.isBlank) (l := back)
  generalize back.takeWhile Text.isBlank = blanks at hback hboth hsplit
  generalize back.dropWhile Text.isBlank = rest at hback hboth hsplit
  rw [← hsplit]
  constructor
  . rw [← List.append_assoc, hboth.fault_eq, hback.fault_eq]
  . rw [← List.append_assoc, hboth.marks_eq, hback.marks_eq, List.append_assoc]
    rfl
  . rw [← List.append_assoc, hboth.covered_eq, hback.covered_eq, List.append_assoc]

end Scan

namespace Munches

variable {before gap text : List Char} {marks : List Mark}

theorem no_feed (h : Munches before text marks) : '\n' ∉ text := by
  induction h with
  | last _ hfeed => exact hfeed
  | token _ hfeed _ hdenotes _ ih =>
    simp only [List.mem_append, not_or]
    exact ⟨⟨hfeed, hdenotes.no_feed⟩, ih⟩

theorem skip (hgap : ∀ d ∈ gap, Text.isBlank d = true) (h : Munches (before ++ gap) text marks) :
    Munches before (gap ++ text) marks := by
  have hfeed : '\n' ∉ gap := fun hmem => absurd (hgap _ hmem) (by decide)
  have skipped (rest : List Char) : Text.Skipped rest gap :=
    Text.skipped_of_forall fun d hmem => .inl (hgap d hmem)
  cases h with
  | last hskipped hfeed' =>
    apply Munches.last
    . exact (skipped _).append hskipped
    . rw [List.mem_append, not_or]
      exact ⟨hfeed, hfeed'⟩
  | @token _ inner body rest kind marks hskipped hfeed' hlongest hdenotes hrest =>
    rw [List.append_assoc before] at hrest ⊢
    rw [← List.append_assoc gap, ← List.append_assoc gap]
    apply Munches.token _ _ hlongest hdenotes hrest
    . exact (skipped _).append hskipped
    . rw [List.mem_append, not_or]
      exact ⟨hfeed, hfeed'⟩

theorem ofText_eq (h : Munches before text marks) :
    (Scan.ofText text).fault = none ∧ Scan.marks before (Scan.ofText text).lexemes = marks := by
  induction h with
  | last hskipped hfeed =>
    rcases Scan.ofText_of_skipped hskipped hfeed with ⟨hfault, hkinds⟩
    exact ⟨hfault, Scan.marks_eq_nil hkinds⟩
  | @token before gap body rest kind marks hskipped hfeed hlongest hdenotes _ ih =>
    have hgap := @Scan.cutsOff_blanks before gap (hskipped.isBlank_of_denotes hfeed hdenotes)
    have hcut := (hgap _).append (Scan.cutsOff_of_longest hlongest hdenotes)
    rw [hcut.fault_eq, hcut.marks_eq, ← List.append_assoc, ih.2]
    exact ⟨ih.1, rfl⟩

theorem of_ofText (h : (Scan.ofText text).fault = none) :
    Munches before text (Scan.marks before (Scan.ofText text).lexemes) := by
  induction text using Scan.ofText.induct generalizing before with
  | case1 =>
    rw [Scan.ofText_nil]
    exact .last .nil List.not_mem_nil
  | case2 c text fault hcut =>
    rw [Scan.ofText_cons_of_fault hcut] at h
    contradiction
  | case3 c text lexeme rest hcut ih =>
    rw [Scan.ofText_cons_of_cut hcut] at h ⊢
    rcases Lexeme.cut_eq_cons hcut with ⟨tail, htail, rfl⟩
    rcases lexeme with ⟨kind, body⟩
    dsimp only at htail h ⊢
    rw [← List.cons_append, ← htail]
    cases kind with
    | none =>
      rw [Scan.marks]
      have hrest := @ih (before ++ body) h
      rcases Lexeme.skipped_of_cut hcut rfl with hblank | ⟨remark, hremark, -⟩
      . exact hrest.skip hblank
      . dsimp only at hremark
        rw [htail, List.cons.injEq] at hremark
        rw [hremark.1] at hcut htail
        rcases Lexeme.rest_eq_nil_of_cut_comment hcut hrest.no_feed with ⟨rfl, hfeed⟩
        rw [List.append_nil] at hfeed
        rw [Scan.ofText_nil, htail, List.cons_append]
        apply Munches.last
        . exact .comment hfeed (by simp) .nil
        . simp [hfeed]
    | some kind =>
      rw [Scan.marks]
      have hlongest := Lexeme.longest_of_cut hcut rfl
      dsimp only at hlongest
      rw [← List.cons_append, ← htail] at hlongest
      have htoken := @Munches.token before [] body rest kind _ .nil List.not_mem_nil hlongest
        (Lexeme.denotes_of_cut hcut rfl) (ih h)
      rw [List.append_nil] at htoken
      exact htoken

end Munches

/--
The tokens of a text are exactly those of its only decomposition by maximal munch, in their places
behind the origin, and a text without a decomposition is not accepted. This holds for each origin
from which all positions fit their words. A text with a line feed is not accepted from any origin.
-/
theorem Scan.tokens_are_longest (text : List Char) :
    (∀ marks marks', Munches [] text marks → Munches [] text marks' → marks = marks') ∧
      (∀ origin fileId, (ofText text).FitsAt origin →
        (∀ marks, Munches [] text marks →
          ∃ tokens, List.Forall₂ (Token.Marked origin fileId) tokens marks) ∧
        ∀ tokens, (ofText text).tokens origin fileId = .ok tokens ↔
          ∃ marks, Munches [] text marks ∧
            List.Forall₂ (Token.Marked origin fileId) tokens marks) ∧
      ('\n' ∈ text → ∀ origin fileId tokens, (ofText text).tokens origin fileId ≠ .ok tokens) := by
  refine ⟨?_, ?_, ?_⟩
  . intro marks marks' hmarks hmarks'
    rw [← hmarks.ofText_eq.2, ← hmarks'.ofText_eq.2]
  . intro origin fileId hfits
    have exists_tokens (marks : List Mark) (hmarks : Munches [] text marks) :
        ∃ tokens, (ofText text).tokens origin fileId = .ok tokens ∧
          List.Forall₂ (Token.Marked origin fileId) tokens marks := by
      rw [← hmarks.ofText_eq.2]
      exact hfits.tokens_eq_ok fileId hmarks.ofText_eq.1
    refine ⟨?_, ?_⟩
    . intro marks hmarks
      rcases exists_tokens marks hmarks with ⟨tokens, -, hmarked⟩
      exact ⟨tokens, hmarked⟩
    . intro tokens
      constructor
      . intro htokens
        have hmunches := @Munches.of_ofText [] text (fault_eq_none_of_go_eq_ok fileId htokens)
        rcases exists_tokens _ hmunches with ⟨tokens', htokens', hmarked⟩
        rw [htokens, Except.ok.injEq] at htokens'
        rw [htokens']
        exact ⟨_, hmunches, hmarked⟩
      . rintro ⟨marks, hmarks, hmarked⟩
        rcases exists_tokens marks hmarks with ⟨tokens', htokens', hmarked'⟩
        have hunique : Relator.LeftUnique (Token.Marked origin fileId) :=
          fun _ _ _ => Token.Marked.unique
        rw [htokens', List.left_unique_forall₂' hunique hmarked' hmarked]
  . intro hfeed origin fileId tokens htokens
    exact (@Munches.of_ofText [] text (fault_eq_none_of_go_eq_ok fileId htokens)).no_feed hfeed

theorem Scan.tokens_are_longest_last_column :
    (ofText "a== #".toList).FitsAt ⟨3, 4294967292, 0⟩ ∧
      ∃ tokens, (ofText "a== #".toList).tokens ⟨3, 4294967292, 0⟩ 7 = .ok tokens ∧
        List.Forall₂ (Token.Marked ⟨3, 4294967292, 0⟩ 7) tokens
          [⟨.ident "a", [], ['a']⟩, ⟨.symbol .equal, ['a'], ['=', '=']⟩] := by
  have hfault : (ofText "a== #".toList).fault = none := by decide +kernel
  have hmarks : marks [] (ofText "a== #".toList).lexemes =
      [⟨.ident "a", [], ['a']⟩, ⟨.symbol .equal, ['a'], ['=', '=']⟩] := by
    decide +kernel
  have hfits : (ofText "a== #".toList).FitsAt ⟨3, 4294967292, 0⟩ := by
    constructor
    . rw [hmarks]
      simp only [List.forall_mem_cons]
      exact ⟨⟨by decide, by decide⟩, ⟨by decide, by decide⟩, by simp⟩
    . exact absurd hfault
  have hmunches := @Munches.of_ofText [] _ hfault
  rw [hmarks] at hmunches
  rcases (tokens_are_longest "a== #".toList).2.1 _ 7 hfits with ⟨hexists, hiff⟩
  rcases hexists _ hmunches with ⟨tokens, hmarked⟩
  exact ⟨hfits, tokens, (hiff tokens).2 ⟨_, hmunches, hmarked⟩, hmarked⟩

end Offside
