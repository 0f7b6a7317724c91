import Offside.Proofs.Print

/-!
This module contains the round trip of kinds through the source that they are printed as. Before a
line is read the open levels are the numbers from 0 to the number of open blocks.
-/

namespace Offside

namespace Scan

variable {kind : TokenKind} {run : List TokenKind} {text rest : List Char}

theorem exists_text_eq_cons (hlayout : kind.isLayout = false) (hspelled : kind.WellSpelled) :
    ∃ c tail, kind.text.toList = c :: tail ∧ Text.isBlank c = false := by
  rcases Lexeme.cut_text hlayout hspelled Text.parted_nil with ⟨c, tail, htext, hcut⟩
  refine ⟨c, tail, htext, ?_⟩
  -- Blanks are cut off as a lexeme without a kind.
  rw [Bool.eq_false_iff]
  intro hblank
  rw [Lexeme.cut, if_pos hblank, Except.ok.injEq, Prod.mk.injEq, Lexeme.cutRun, Lexeme.mk.injEq]
    at hcut
  exact absurd hcut.1.1 (by simp)

theorem ofText_text_append (hlayout : kind.isLayout = false) (hspelled : kind.WellSpelled)
    (hrest : Text.Parted rest) :
    ofText (kind.text.toList ++ rest) =
      ⟨⟨some kind, kind.text.toList⟩ :: (ofText rest).lexemes, (ofText rest).fault⟩ := by
  rcases Lexeme.cut_text hlayout hspelled hrest with ⟨c, tail, htext, hcut⟩
  rw [htext, List.cons_append, ofText_cons_of_cut hcut]

theorem ofText_space (htext : ∀ c ∈ text.head?, Text.isBlank c = false) :
    ofText (' ' :: text) = ⟨⟨none, [' ']⟩ :: (ofText text).lexemes, (ofText text).fault⟩ := by
  apply ofText_cons_of_cut
  rw [Lexeme.cut, if_pos (by decide), Lexeme.cutRun]
  cases text with
  | nil => rfl
  | cons c text =>
    have hblank := htext c rfl
    rw [List.takeWhile_cons_of_neg (by simp [hblank]),
      List.dropWhile_cons_of_neg (by simp [hblank])]

theorem isBlank_head?_statement (hrun : ∀ kind ∈ run, kind.isLayout = false ∧ kind.WellSpelled)
    (hne : run ≠ []) : ∃ c ∈ (TokenKind.statement run).head?, Text.isBlank c = false := by
  cases run with
  | nil => contradiction
  | cons kind run =>
    rw [List.forall_mem_cons] at hrun
    rcases exists_text_eq_cons hrun.1.1 hrun.1.2 with ⟨c, tail, htext, hblank⟩
    refine ⟨c, ?_, hblank⟩
    cases run with
    | nil => simp [TokenKind.statement, List.intercalate, htext]
    | cons next run => simp [TokenKind.statement_cons_cons, htext]

theorem ofText_statement (hrun : ∀ kind ∈ run, kind.isLayout = false ∧ kind.WellSpelled) :
    (ofText (TokenKind.statement run)).fault = none ∧
      (ofText (TokenKind.statement run)).kinds = run := by
  induction run with
  | nil =>
    rw [show TokenKind.statement [] = [] from rfl, ofText_nil]
    exact ⟨rfl, rfl⟩
  | cons kind run ih =>
    rw [List.forall_mem_cons] at hrun
    cases run with
    | nil =>
      have heq : TokenKind.statement [kind] = kind.text.toList ++ [] := by
        simp [TokenKind.statement, List.intercalate]
      rw [heq, ofText_text_append hrun.1.1 hrun.1.2 Text.parted_nil, ofText_nil]
      exact ⟨rfl, rfl⟩
    | cons next run =>
      have hparted : Text.Parted (' ' :: TokenKind.statement (next :: run)) := by
        intro c hc
        exact (Option.some.inj hc).symm
      have hblank : ∀ c ∈ (TokenKind.statement (next :: run)).head?, Text.isBlank c = false := by
        rcases isBlank_head?_statement hrun.2 (List.cons_ne_nil next run) with ⟨c, hc, hblank⟩
        intro d hd
        rw [Option.mem_unique hd hc]
        exact hblank
      rcases ih hrun.2 with ⟨hfault, hkinds⟩
      rw [TokenKind.statement_cons_cons, ofText_text_append hrun.1.1 hrun.1.2 hparted,
        ofText_space hblank]
      refine ⟨hfault, ?_⟩
      unfold kinds at hkinds ⊢
      simp [hkinds]

end Scan

namespace Line

variable {text ending : List Char}

theorem isBlank_append_eq_false (front : List Char)
    (htext : ∃ c ∈ text.head?, Text.isIndent c = false) :
    (⟨front ++ text, ending⟩ : Line).isBlank = false := by
  rcases htext with ⟨c, hc, hindent⟩
  rcases List.head?_eq_some_iff.1 hc with ⟨tail, rfl⟩
  simp [isBlank, hindent]

end Line

namespace Run

open Cursor

variable {options : Options} {front : List Line} {cursor : Cursor} {depth level : Nat}
  {text rest : List Char} {kinds : List TokenKind}

def Gives (options : Options) (cursor : Cursor) (lines : List Line) (kinds : List TokenKind) :
    Prop :=
  (ofLines options cursor lines).abort = none ∧
    ((ofLines options cursor lines).tokens options).map (·.kind) = kinds

theorem gives_line (hreached : Reached options front cursor)
    (hheights : cursor.levels.heights = List.range (depth + 1))
    (hrange : Line.InRange
      (front ++ Line.ofText (List.replicate level '\t' ++ text ++ '\n' :: rest)))
    (hlevel : level ≤ depth + 1)
    (hprintable : Text.Printable text) (hfirst : ∃ c ∈ text.head?, Text.isIndent c = false)
    (hfault : (Scan.ofText text).fault = none)
    (hrest : ∀ line next, Reached options (front ++ [line]) next →
      Line.InRange ((front ++ [line]) ++ Line.ofText rest) →
      next.levels.heights = List.range (level + 1) → Gives options next (Line.ofText rest) kinds) :
    ∃ outline : Outline, outline.move = Levels.moveBetween depth level ∧
      outline.content = (Scan.ofText text).kinds ∧
      Gives options cursor
        (Line.ofText (List.replicate level '\t' ++ text ++ '\n' :: rest))
        (outline.kinds ++ kinds) := by
  have htabs : Text.Printable (List.replicate level '\t') := by
    apply Text.printable_of_forall
    intro c hmem
    rw [List.eq_of_mem_replicate hmem]
    decide
  have hbody := htabs.append hprintable
  have htext : ∀ c ∈ text.head?, Text.isIndent c = false := by
    rcases hfirst with ⟨c, hc, hindent⟩
    intro d hd
    rw [Option.mem_unique hd hc]
    exact hindent
  have hlines : Line.ofText (List.replicate level '\t' ++ text ++ '\n' :: rest) =
      ⟨List.replicate level '\t' ++ text, ['\n']⟩ :: Line.ofText rest := by
    rw [Line.ofText_append_feed hbody.no_feed, Line.ofBody, if_neg hbody.no_return]
  rw [hlines] at hrange ⊢
  rw [List.append_cons] at hrange
  have hnumber := hrange.of_append.toNat_level
  have hmargin : Text.IsMargin level (List.replicate level '\t') := .inl rfl
  rw [(hmargin.wellIndented_append htext).2] at hnumber
  rcases @Levels.enter_of_heights_eq_range _ options.singleStep level.toUInt32 _ hheights
    (by omega) with ⟨after, henter, hafter⟩
  rw [hnumber] at henter hafter
  have houtline := @Line.outline_of_isMargin _ _ _ _ _ _ _ ['\n'] hmargin htext henter hfault
  have hblank := @Line.isBlank_append_eq_false text ['\n'] (List.replicate level '\t') hfirst
  rcases step_of_outline_eq_ok (hreached.past hrange.of_append.of_append) hrange.of_append hblank
    houtline with ⟨layoutLine, next, hstep, hshows, -, hlevels⟩
  have hnext : next.levels.heights = List.range (level + 1) := by
    rw [hlevels]
    exact hafter
  rcases hrest _ next (hreached.step hstep) hrange hnext with ⟨habort, hkinds⟩
  refine ⟨⟨Levels.moveBetween depth level, after, (Scan.ofText text).kinds⟩, rfl, rfl, ?_, ?_⟩
  . rw [ofLines_cons_of_ok hstep]
    exact habort
  . rw [tokens_ofLines_cons hstep, List.map_append, hkinds]
    simp only [Option.toList_some, List.flatMap_cons, List.flatMap_nil, List.append_nil]
    rw [hshows.map_kind_tokens]

theorem gives_comment (hreached : Reached options front cursor)
    (hheights : cursor.levels.heights = List.range (depth + 1))
    (hrange : Line.InRange (front ++ Line.ofText (TokenKind.printComment level ++ rest)))
    (hlevel : level ≤ depth + 1)
    (hrest : ∀ line next, Reached options (front ++ [line]) next →
      Line.InRange ((front ++ [line]) ++ Line.ofText rest) →
      next.levels.heights = List.range (level + 1) → Gives options next (Line.ofText rest) kinds) :
    Gives options cursor (Line.ofText (TokenKind.printComment level ++ rest))
      ((Levels.moveBetween depth level).kinds ++ kinds) := by
  have hcomment : Scan.ofText ['#'] = ⟨[⟨none, ['#']⟩], none⟩ := by
    have hcut : Lexeme.cut '#' [] = .ok (⟨none, ['#']⟩, []) := rfl
    rw [Scan.ofText_cons_of_cut hcut, Scan.ofText_nil]
  have hprintable : Text.Printable ['#'] := Text.printable_of_forall (by simp)
  have hlines : TokenKind.printComment level ++ rest =
      List.replicate level '\t' ++ ['#'] ++ '\n' :: rest := by
    simp [TokenKind.printComment]
  rw [hlines] at hrange ⊢
  rcases gives_line hreached hheights hrange hlevel hprintable ⟨'#', rfl, rfl⟩
    (by rw [hcomment]) hrest with ⟨outline, hmove, hcontent, hgives⟩
  rw [hcomment] at hcontent
  unfold Outline.kinds at hgives
  rw [hcontent, hmove] at hgives
  exact hgives

theorem gives_printFrom (hlaid : Laid depth kinds) (hmark : options.markEnd = false)
    (hreached : Reached options front cursor)
    (hheights : cursor.levels.heights = List.range (depth + 1))
    (hrange : Line.InRange (front ++ Line.ofText (TokenKind.printFrom depth true kinds))) :
    Gives options cursor (Line.ofText (TokenKind.printFrom depth true kinds)) kinds := by
  induction hlaid generalizing front cursor with
  | nil =>
    have habove := congrArg List.length hheights
    rw [Levels.length_heights, List.length_range] at habove
    have hclosing := cursor.map_kind_closing options
    rw [hmark, show cursor.levels.above.length = 0 by omega] at hclosing
    exact ⟨rfl, hclosing⟩
  | @indent depth kinds _ ih =>
    -- A comment one level further in opens a block and is no statement.
    have hgives := gives_comment hreached hheights hrange (Nat.le_refl _)
      fun line next hnext hrange hheights => ih hnext hheights hrange
    rw [Levels.moveBetween, if_neg (by omega), if_pos (by omega)] at hgives
    exact hgives
  | @dedent depth kinds _ ih =>
    have hgives := gives_comment hreached hheights hrange (by omega)
      fun line next hnext hrange hheights => ih hnext hheights hrange
    rw [Nat.add_sub_cancel, Levels.moveBetween, if_neg (by omega), if_neg (by omega),
      Nat.add_sub_cancel_left] at hgives
    exact hgives
  | @statement depth kinds run hne hrun _ ih =>
    have hcontent : ∀ kind ∈ run, kind.isLayout = false := fun kind hmem => (hrun kind hmem).1
    rw [TokenKind.printFrom_statement hne hcontent, if_pos rfl] at hrange ⊢
    rcases Scan.ofText_statement hrun with ⟨hfault, hkinds⟩
    have hfirst : ∃ c ∈ (TokenKind.statement run).head?, Text.isIndent c = false := by
      rcases Scan.isBlank_head?_statement hrun hne with ⟨c, hc, hblank⟩
      refine ⟨c, hc, ?_⟩
      unfold Text.isBlank at hblank
      simp only [Bool.or_eq_false_iff] at hblank
      simp only [Text.isIndent, hblank, Bool.or_false]
    have hprintable := TokenKind.printable_statement hrun
    rcases gives_line hreached hheights hrange (by omega) hprintable hfirst hfault
      (fun line next hnext hrange hheights => ih hnext hheights hrange) with
      ⟨outline, hmove, houtline, hgives⟩
    rw [hkinds] at houtline
    rw [Levels.moveBetween, if_pos rfl] at hmove
    unfold Outline.kinds at hgives
    rw [houtline, hmove, if_neg (by simp [hne]), Move.kinds, List.nil_append] at hgives
    rw [List.append_cons run .newline kinds]
    exact hgives

end Run

/--
The kinds of the tokens of a source without errors are statements and blocks, and all statements and
blocks are those of the source that they are printed as.
-/
theorem tokenize_wellFormed_and_print :
    (∀ source tokens, source.utf8ByteSize ≤ 2 ^ 32 - 2 →
      tokenize source {} = .ok tokens → WellFormed 0 (tokens.map (·.kind))) ∧
    (∀ kinds, WellFormed 0 kinds → (TokenKind.print kinds).utf8ByteSize ≤ 2 ^ 32 - 2 →
      ∃ tokens, tokenize (TokenKind.print kinds) {} = .ok tokens ∧
        tokens.map (·.kind) = kinds) := by
  refine ⟨?_, ?_⟩
  . intro source tokens hsize h
    unfold tokenize at h
    dsimp at h
    split at h
    next habort =>
      rw [Except.ok.injEq] at h
      rw [← h, wellFormed_iff_laid]
      apply Run.laid_ofLines .start (Line.inRange_ofSource hsize) rfl habort
    . contradiction
  . intro kinds hkinds hsize
    have hrange := Line.inRange_ofSource hsize
    rw [TokenKind.print, String.toList_ofList] at hrange
    have hgives := @Run.gives_printFrom {} [] .start 0 kinds hkinds.laid rfl .start rfl hrange
    unfold tokenize Run.ofSource
    rw [TokenKind.print, String.toList_ofList]
    dsimp
    rw [hgives.1]
    exact ⟨_, rfl, hgives.2⟩

theorem tokenize_wellFormed_and_print_empty_block :
    let kinds : List TokenKind := [.ident "a", .newline, .indent, .dedent]
    WellFormed 0 kinds ∧ (TokenKind.print kinds).utf8ByteSize ≤ 2 ^ 32 - 2 ∧
      ∃ tokens, tokenize (TokenKind.print kinds) {} = .ok tokens ∧
        tokens.map (·.kind) = kinds ∧ WellFormed 0 (tokens.map (·.kind)) := by
  intro kinds
  have hkinds : WellFormed 0 kinds := by
    apply Laid.wellFormed
    apply Laid.statement [.ident "a"] (by simp)
    . simp only [List.mem_singleton, forall_eq]
      refine ⟨rfl, ?_, ?_⟩
      . decide
      . intro keyword
        cases keyword <;> decide
    . exact .indent (.dedent .nil)
  have hsize : (TokenKind.print kinds).utf8ByteSize ≤ 2 ^ 32 - 2 := by decide
  rcases tokenize_wellFormed_and_print.2 kinds hkinds hsize with ⟨tokens, htokens, heq⟩
  exact ⟨hkinds, hsize, tokens, htokens, heq,
    tokenize_wellFormed_and_print.1 _ tokens hsize htokens⟩

end Offside
