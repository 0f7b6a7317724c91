import Offside.Proofs.Causality
import Offside.Proofs.Tiling

/-!
This module contains the lines that change nothing: blank lines, and lines without tokens at the
level of the line before. If such a line is put into a source then all that follows is shifted by
this line.
-/

namespace Offside

namespace Text

/--
Whether a text is a blank line, or a line at the given level that holds blanks and a comment only.
-/
inductive Invisible (level : Nat) : List Char → Prop where
  | blank {text : List Char} :
    (∀ c ∈ text, isIndent c = true) →
    Invisible level text
  | remark {front rest : List Char} :
    IsMargin level front → Skipped [] rest → '\n' ∉ rest →
    (∀ c ∈ rest.head?, isIndent c = false) →
    Invisible level (front ++ rest)

variable {level : Nat} {text rest : List Char}

theorem mem_head?_of_mem_head?_dropLast {c : Char} (h : c ∈ text.dropLast.head?) :
    c ∈ text.head? := by
  rw [List.head?_dropLast] at h
  split at h
  . exact h
  . contradiction

theorem Skipped.dropLast (h : Skipped [] text) : Skipped [] text.dropLast := by
  induction h with
  | nil => exact .nil
  | @blank c text hc htext ih =>
    cases text with
    | nil => exact .nil
    | cons d text => exact .blank hc ih
  | @comment body text hbody hend htext ih =>
    cases text with
    | nil =>
      rw [List.append_nil]
      cases body with
      | nil => exact .nil
      | cons c body =>
        have hinit : '\n' ∉ (c :: body).dropLast := fun hmem => hbody (List.dropLast_subset _ hmem)
        rw [List.dropLast_cons_cons, ← List.append_nil (c :: body).dropLast]
        exact .comment hinit (by simp) .nil
    | cons c text =>
      rw [← List.cons_append, List.dropLast_append_of_ne_nil (List.cons_ne_nil c text)]
      apply Skipped.comment hbody _ ih
      intro d hd
      rw [List.append_nil] at hd hend
      exact hend d (mem_head?_of_mem_head?_dropLast hd)

theorem Skipped.dropWhile_isBlank (h : Skipped rest text) :
    Skipped rest (text.dropWhile isBlank) := by
  induction h with
  | nil => exact .nil
  | @blank c text hc htext ih =>
    rw [List.dropWhile_cons]
    split
    . exact ih
    . exact .blank hc htext
  | comment hbody hend htext ih =>
    rw [List.dropWhile_cons_of_neg (by decide)]
    exact .comment hbody hend htext

theorem Invisible.no_feed (h : Invisible level text) : '\n' ∉ text := by
  intro hmem
  cases h with
  | blank hindent => exact absurd (hindent _ hmem) (by decide)
  | remark hfront _ hfeed _ =>
    rw [List.mem_append] at hmem
    cases hmem with
    | inl hmem => exact absurd (hfront.isIndent _ hmem) (by decide)
    | inr hmem => exact hfeed hmem

theorem Invisible.dropLast (h : Invisible level text) : Invisible level text.dropLast := by
  cases h with
  | blank hindent => exact .blank fun c hmem => hindent c (List.dropLast_subset _ hmem)
  | @remark front rest hfront hskipped hfeed hrest =>
    cases rest with
    | nil =>
      rw [List.append_nil]
      exact .blank fun c hmem => hfront.isIndent c (List.dropLast_subset _ hmem)
    | cons c rest =>
      rw [List.dropLast_append_of_ne_nil (List.cons_ne_nil c rest)]
      apply Invisible.remark hfront hskipped.dropLast
      . exact fun hmem => hfeed (List.dropLast_subset _ hmem)
      . exact fun d hd => hrest d (mem_head?_of_mem_head?_dropLast hd)

theorem Invisible.ofBody (h : Invisible level text) (feed : List Char) :
    Invisible level (Line.ofBody text feed).text := by
  unfold Line.ofBody
  split
  . exact h.dropLast
  . exact h

end Text

theorem Lexeme.cut_of_skipped {c : Char} {text : List Char} (h : Text.Skipped [] (c :: text))
    (hfeed : '\n' ∉ c :: text) :
    ∃ run rest, cut c text = .ok (⟨none, run⟩, rest) ∧ Text.Skipped [] rest ∧ '\n' ∉ rest := by
  rw [List.mem_cons, not_or] at hfeed
  cases h with
  | blank hc hrest =>
    have hblank := hc.resolve_right (Ne.symm hfeed.1)
    refine ⟨_, _, by rw [cut, if_pos hblank, cutRun], hrest.dropWhile_isBlank, ?_⟩
    exact fun hmem => hfeed.2 ((List.dropWhile_sublist _).subset hmem)
  | comment _ _ _ =>
    -- The comment goes up to the end, as there is no line feed.
    refine ⟨_, _, by rw [cut, if_neg (by decide), if_pos rfl, cutRun], ?_⟩
    rw [List.dropWhile_eq_nil_iff.2]
    . exact ⟨.nil, List.not_mem_nil⟩
    . intro d hmem
      rw [bne_iff_ne]
      rintro rfl
      exact hfeed.2 hmem

theorem Scan.ofText_of_skipped {text : List Char} (h : Text.Skipped [] text) (hfeed : '\n' ∉ text) :
    (ofText text).fault = none ∧ (ofText text).kinds = [] := by
  induction text using ofText.induct with
  | case1 =>
    rw [ofText_nil]
    exact ⟨rfl, rfl⟩
  | case2 c text fault hcut =>
    rcases Lexeme.cut_of_skipped h hfeed with ⟨run, rest, hcut', -⟩
    rw [hcut] at hcut'
    contradiction
  | case3 c text lexeme rest hcut ih =>
    rcases Lexeme.cut_of_skipped h hfeed with ⟨run, rest, hcut', hrest, hfeed'⟩
    rw [hcut, Except.ok.injEq, Prod.mk.injEq] at hcut'
    rcases hcut' with ⟨rfl, rfl⟩
    rw [ofText_cons_of_cut hcut]
    exact ih hrest hfeed'

namespace Cursor

variable {options : Options} {front : List Line} {line : Line} {cursor : Cursor}

theorem step_of_invisible (hreached : Reached options front cursor)
    (hrange : Line.InRange (front ++ [line]))
    (h : Text.Invisible (lastLevel (Line.history front)) line.text) :
    ∃ entry next, cursor.step options line = .ok (entry, next) ∧
      entry.toList.flatMap (·.tokens options.fileId) = [] ∧ next.levels = cursor.levels := by
  have hpast := hreached.past hrange.of_append
  cases hblank : line.isBlank with
  | true =>
    rcases step_of_isBlank hpast hrange hblank with ⟨next, hstep, -, hlevels⟩
    exact ⟨none, next, hstep, rfl, hlevels⟩
  | false =>
    rcases line with ⟨text, ending⟩
    cases h with
    | blank hindent =>
      rw [Line.isBlank, List.all_eq_true.2 hindent] at hblank
      contradiction
    | remark hfront hskipped hfeed hrest =>
      rcases Scan.ofText_of_skipped hskipped hfeed with ⟨hfault, hkinds⟩
      have htop := Levels.top_eq_lastLevel (hreached.openAfter hrange.of_append)
      have henter : cursor.levels.enter options.singleStep
          (lastLevel (Line.history front)).toUInt32 = .ok (.stay, cursor.levels) := by
        rw [← htop, Nat.toUInt32_eq, UInt32.ofNat_toNat, Levels.enter, if_pos rfl]
      have houtline := @Line.outline_of_isMargin _ _ _ _ _ _ _ ending hfront hrest henter hfault
      rcases step_of_outline_eq_ok hpast hrange hblank houtline with
        ⟨layoutLine, next, hstep, hshows, -, hlevels⟩
      refine ⟨some layoutLine, next, hstep, ?_, hlevels⟩
      have htokens := hshows.map_kind_tokens options.fileId
      rw [Outline.kinds, hkinds, List.isEmpty_nil, if_pos rfl, Move.kinds, List.map_eq_nil_iff]
        at htokens
      rw [Option.toList_some, List.flatMap_singleton, htokens]

end Cursor

theorem Line.ofText_append_line {line : String} (hfeed : '\n' ∉ line.toList) (second : String) :
    ofText (line ++ "\n" ++ second).toList =
      ofBody line.toList ['\n'] :: ofText second.toList := by
  rw [String.toList_append, String.toList_append, List.append_assoc]
  show ofText (line.toList ++ '\n' :: second.toList) = _
  rw [ofText_append_feed hfeed]

theorem Token.map_kind_eq_of_shifted {lines bytes : Int} {tokens tokens' : List Token}
    (h : List.Forall₂ (Shifted lines bytes) tokens tokens') :
    tokens'.map (·.kind) = tokens.map (·.kind) := by
  induction h with
  | nil => rfl
  | cons htoken _ ih => rw [List.map_cons, List.map_cons, htoken.kind_eq, ih]

namespace Run

open Cursor

variable {options : Options} {front back : List Line} {line : Line} {cursor next : Cursor}

theorem shifted_past_line (hpast : cursor.Past front) (hnext : next.Past (front ++ [line]))
    (hrange : Line.InRange (front ++ back)) (hrange' : Line.InRange ((front ++ [line]) ++ back))
    (hlevels : next.levels = cursor.levels) :
    ∃ failure failure', (ofLines options cursor back).abort = failure.map .rejected ∧
      (ofLines options next back).abort = failure'.map .rejected ∧
      ((ofLines options next back).tokens options).map (·.kind) =
        ((ofLines options cursor back).tokens options).map (·.kind) ∧
      (back ≠ [] → List.Forall₂ (Token.Shifted 1 (Text.byteSize line.chars))
        ((ofLines options cursor back).tokens options)
        ((ofLines options next back).tokens options)) ∧
      Option.Rel (LexicalError.Shifted 1) failure failure' := by
  cases back with
  | nil =>
    -- The tokens that close the source move to the end of the line.
    have hclosing := next.map_kind_closing options
    rw [hlevels, ← map_kind_closing] at hclosing
    exact ⟨none, none, rfl, rfl, hclosing, fun hne => absurd rfl hne, .none⟩
  | cons first back =>
    rcases @shifted_ofLines options _ _ _ _ _ 1 (Text.byteSize line.chars) hpast hnext hrange
        hrange' (by simp) (by simp) hlevels (fun hnil => absurd hnil (List.cons_ne_nil first back))
      with ⟨htokens, failure, failure', habort, habort', hfailure⟩
    exact ⟨failure, failure', habort, habort', Token.map_kind_eq_of_shifted htokens,
      fun _ => htokens, hfailure⟩

end Run

open Run Cursor in
/--
A blank line, or a line without tokens at the level of the last line before that is not blank, can
be put into a source. The kinds of the tokens stay the same, and so do the tokens of the lines
before it and an error in them. The tokens and the error of the lines after it are shifted by one
line and by its bytes.
-/
theorem invisible_line_shifts (options : Options) (first second line : String)
    (hwhole : IsWhole first)
    (h : Text.Invisible (lastLevel (Line.history (Line.ofText first.toList))) line.toList)
    (hsize : (first ++ (line ++ "\n" ++ second)).utf8ByteSize ≤ 2 ^ 32 - 2) :
    ∃ stream, TokenStream.ofSource first options = .ok stream ∧
      (stream.failure ≠ none → TokenStream.ofSource (first ++ second) options = .ok stream ∧
        TokenStream.ofSource (first ++ (line ++ "\n" ++ second)) options = .ok stream) ∧
      (stream.failure = none → ∃ own closing rest rest' failure failure',
        Splits options first second own closing rest failure ∧
        Splits options first (line ++ "\n" ++ second) own closing rest' failure' ∧
        rest'.map (·.kind) = rest.map (·.kind) ∧
        (second ≠ "" → List.Forall₂ (Token.Shifted 1 (line.utf8ByteSize + 1)) rest rest') ∧
        Option.Rel (LexicalError.Shifted 1) failure failure') := by
  have hsizes : (first ++ second).utf8ByteSize ≤ 2 ^ 32 - 2 ∧
      first.utf8ByteSize ≤ 2 ^ 32 - 2 := by
    simp only [String.utf8ByteSize_append] at hsize ⊢
    omega
  rcases @exists_ofSource_eq_ok options first hsizes.2 with ⟨stream, hstream, -⟩
  refine ⟨stream, hstream, ?_, ?_⟩
  . intro hfailure
    exact ⟨ofSource_append_of_failure hwhole hstream hfailure second,
      ofSource_append_of_failure hwhole hstream hfailure (line ++ "\n" ++ second)⟩
  . intro hnone
    rcases reached_of_failure_eq_none hstream hnone with ⟨cursor, hreached, -⟩
    have hrange := inRange_append hwhole hsizes.1
    have hrange' := inRange_append hwhole hsize
    have hlines := Line.ofText_append_line h.no_feed second
    rw [hlines, List.append_cons] at hrange'
    rcases step_of_invisible hreached hrange'.of_append (h.ofBody ['\n']) with
      ⟨entry, next, hstep, hentry, hlevels⟩
    rcases @shifted_past_line options _ _ _ _ _ (hreached.past hrange.of_append)
        ((hreached.step hstep).past hrange'.of_append) hrange hrange' hlevels with
      ⟨failure, failure', habort, habort', hkinds, htokens, hfailure⟩
    have hbytes : (Text.byteSize (Line.ofBody line.toList ['\n']).chars : Int) =
        line.utf8ByteSize + 1 := by
      rw [Line.chars_ofBody, Text.byteSize_append, Text.byteSize_toList]
      rfl
    rw [hbytes] at htokens
    refine ⟨_, _, _, _, failure, failure', splits_of_reached hwhole hreached habort, ?_, hkinds,
      fun hsecond => htokens (Line.ofSource_ne_nil hsecond), hfailure⟩
    -- The line adds no tokens to those of the lines after it.
    have htail : (ofLines options cursor
        (Line.ofBody line.toList ['\n'] :: Line.ofText second.toList)).tokens options =
        (ofLines options next (Line.ofText second.toList)).tokens options := by
      rw [tokens_ofLines_cons hstep, hentry, List.nil_append]
    rw [← hlines] at htail
    rw [← htail]
    apply splits_of_reached hwhole hreached
    rw [hlines, ofLines_cons_of_ok hstep]
    exact habort'

theorem invisible_line_shifts_comment :
    IsWhole "a\n\tb\n" ∧
    Text.Invisible (lastLevel (Line.history (Line.ofText "a\n\tb\n".toList)))
      "  \r# c".toList ∧
    ("a\n\tb\n" ++ ("  \r# c" ++ "\n" ++ "d ?")).utf8ByteSize ≤ 2 ^ 32 - 2 ∧
    ∃ stream, TokenStream.ofSource "a\n\tb\n" {} = .ok stream ∧
      stream.failure = none ∧ ∃ own closing rest rest' failure failure',
        Splits {} "a\n\tb\n" "d ?" own closing rest failure ∧
        Splits {} "a\n\tb\n" ("  \r# c" ++ "\n" ++ "d ?") own closing rest' failure' ∧
        rest'.map (·.kind) = rest.map (·.kind) ∧
        List.Forall₂ (Token.Shifted 1 7) rest rest' ∧
        Option.Rel (LexicalError.Shifted 1) failure failure' := by
  have hwhole : IsWhole "a\n\tb\n" := .inr (by decide)
  have hinvisible : Text.Invisible (lastLevel (Line.history (Line.ofText "a\n\tb\n".toList)))
      "  \r# c".toList := by
    have hskipped : Text.Skipped [] ['\r', '#', ' ', 'c'] :=
      .blank (.inl rfl) (@Text.Skipped.comment [] [' ', 'c'] [] (by decide) (by simp) .nil)
    exact @Text.Invisible.remark 1 [' ', ' '] ['\r', '#', ' ', 'c'] (.inr rfl) hskipped (by decide)
      (by simp [Text.isIndent])
  have hsize : ("a\n\tb\n" ++ ("  \r# c" ++ "\n" ++ "d ?")).utf8ByteSize ≤ 2 ^ 32 - 2 := by
    decide
  have hok : (TokenStream.ofSource "a\n\tb\n" {}).toOption.map (·.failure) = some none := by
    decide +kernel
  rcases invisible_line_shifts {} "a\n\tb\n" "d ?" "  \r# c" hwhole hinvisible hsize with
    ⟨stream, hstream, -, hsplits⟩
  rw [hstream] at hok
  have hnone : stream.failure = none := Option.some.inj hok
  rcases hsplits hnone with
    ⟨own, closing, rest, rest', failure, failure', hsplit, hsplit', hkinds, htokens, hfailure⟩
  exact ⟨hwhole, hinvisible, hsize, stream, hstream, hnone, own, closing, rest, rest', failure,
    failure', hsplit, hsplit', hkinds, htokens (by decide), hfailure⟩

end Offside
