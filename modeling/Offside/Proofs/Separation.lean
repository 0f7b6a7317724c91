import Offside.Proofs.Munch

/-!
This module contains the separation of texts. A blank or a comment ends every token in front of it,
so that a text behind blanks is lexed as if it stood alone, and a comment changes nothing.
-/

namespace Offside

def Text.IsSeparator (c : Char) : Prop :=
  isBlank c = true ∨ c = '#'

instance : DecidablePred Text.IsSeparator :=
  fun c => inferInstanceAs (Decidable (Text.isBlank c = true ∨ c = '#'))

/--
Whether every number sign of a text that starts at `origin` is in a string literal among `tokens`.
-/
def Text.Uncommented (origin : Position) (tokens : List Token) (text : List Char) : Prop :=
  ∀ before after, text = before ++ '#' :: after →
    ∃ token ∈ tokens, (∃ literal, token.kind = .string literal) ∧
      token.span.holds (origin.offset.toNat + Text.byteSize before) = true

namespace Text

variable {body : List Char} {kind : TokenKind} {c : Char}

theorem IsSeparator.not_accept (h : IsSeparator c) (accept : Char → Bool)
    (haccept : [' ', '\t', '\r', '\x0c', '#'].any accept = false) : accept c = false := by
  rw [Bool.eq_false_iff]
  refine List.any_eq_false.1 haccept c ?_
  simp only [IsSeparator, isBlank, Bool.or_eq_true, beq_iff_eq] at h
  simp only [List.mem_cons, List.not_mem_nil, or_false]
  rcases h with (((h | h) | h) | h) | h <;> simp [h]

theorem Denotes.not_isSeparator (h : Denotes (c :: body) kind) : ¬IsSeparator c := by
  intro hc
  rcases h.forms with hword | ⟨-, hdigits⟩ | ⟨inner, hquoted, -⟩ | ⟨sign, hsign⟩
  . have := hword.1
    rw [hc.not_accept isWordStart (by decide)] at this
    contradiction
  . rw [List.forall_mem_cons, hc.not_accept Char.isDigit (by decide)] at hdigits
    exact absurd hdigits.1 Bool.false_ne_true
  . rw [(List.cons.inj hquoted).1] at hc
    exact absurd hc (by decide)
  . revert hc
    cases sign <;> cases hsign <;> decide

theorem Denotes.exists_inner (h : Denotes ('"' :: body) kind) : ∃ inner, body = inner ++ ['"'] := by
  rcases h.forms with hword | ⟨-, hdigits⟩ | ⟨inner, hquoted, -⟩ | ⟨sign, hsign⟩
  . exact absurd hword.1 (by decide)
  . exact absurd (List.forall_mem_cons.1 hdigits).1 (by decide)
  . exact ⟨inner, (List.cons.inj hquoted).2⟩
  . cases sign <;> cases hsign

end Text

theorem Symbol.not_isSeparator (sign : Symbol) :
    ∀ c ∈ sign.text.toList, ¬Text.IsSeparator c := by
  have hall : sign.text.toList.all (fun c => decide ¬Text.IsSeparator c) = true := by
    cases sign <;> decide
  intro c hmem
  exact of_decide_eq_true (List.all_eq_true.1 hall c hmem)

namespace Pattern

variable {pattern : Pattern} {body rest : List Char} {c : Char} {kind : TokenKind}

theorem Matches.not_isSeparator {more : List Char} (h : pattern.Matches (body ++ rest ++ c :: more))
    (hdenotes : Text.Denotes body kind) : ¬Text.IsSeparator c := by
  rcases hdenotes.exists_matches with ⟨_, hbody⟩
  rcases List.exists_cons_of_ne_nil hbody.ne_nil with ⟨first, tail, rfl⟩
  have hmem : c ∈ tail ++ rest ++ c :: more := List.mem_append_right _ List.mem_cons_self
  have not_word (hword : Text.IsWord (first :: (tail ++ rest ++ c :: more))) :
      ¬Text.IsSeparator c := by
    intro hc
    have := hword.2 c hmem
    rw [hc.not_accept Text.isWordRest (by decide)] at this
    contradiction
  rw [List.cons_append, List.cons_append] at h
  cases pattern with
  | blanks => exact absurd (.inl (List.forall_mem_cons.1 h.2).1) hdenotes.not_isSeparator
  | comment =>
    rcases h with ⟨remark, hremark, -⟩
    exact absurd (.inr (List.cons.inj hremark).1) hdenotes.not_isSeparator
  | keyword word =>
    apply not_word
    rw [show first :: (tail ++ rest ++ c :: more) = word.text.toList from h]
    exact word.isWord_text
  | name => exact not_word h
  | digits =>
    intro hc
    have := h.2 c (List.mem_cons_of_mem _ hmem)
    rw [hc.not_accept Char.isDigit (by decide)] at this
    contradiction
  | quoted =>
    -- The quote at the end of the token would be one between the quotes.
    rcases h with ⟨inner, hinner, hall⟩
    rw [List.cons.injEq] at hinner
    rcases hinner with ⟨rfl, hinner⟩
    rcases hdenotes.exists_inner with ⟨inner', rfl⟩
    have hlast := congrArg List.dropLast hinner
    rw [List.append_assoc, List.dropLast_append_of_ne_nil (by simp), List.dropLast_concat] at hlast
    refine absurd rfl (hall '"' ?_).1
    rw [← hlast]
    simp
  | symbol sign =>
    apply sign.not_isSeparator
    rw [← show first :: (tail ++ rest ++ c :: more) = sign.text.toList from h]
    exact List.mem_cons_of_mem _ hmem

theorem Longest.append_separator (h : Longest body (body ++ rest))
    (hdenotes : Text.Denotes body kind) (hc : Text.IsSeparator c) (more : List Char) :
    Longest body (body ++ (rest ++ c :: more)) := by
  constructor
  . apply List.prefix_append
  . exact h.exists_matches
  . intro pattern other hmatches hother
    rw [← List.append_assoc] at hother
    rcases List.prefix_or_prefix_of_prefix hother (List.prefix_append _ _) with
      hbegins | ⟨tail, rfl⟩
    . exact h.length_le pattern other hmatches hbegins
    . rw [List.prefix_append_right_inj] at hother
      cases tail with
      | nil =>
        rw [List.append_nil] at hmatches ⊢
        exact h.length_le pattern _ hmatches (List.prefix_refl _)
      | cons d tail =>
        rw [List.cons_prefix_cons] at hother
        rw [hother.1] at hmatches
        exact absurd hc (hmatches.not_isSeparator hdenotes)

end Pattern

namespace Text.Skipped

variable {gap remark : List Char}

theorem isBlank_of_not_mem (h : Skipped [] gap) (hfeed : '\n' ∉ gap) (hsign : '#' ∉ gap) :
    ∀ c ∈ gap, Text.isBlank c = true := by
  induction h with
  | nil => simp
  | @blank c text hc _ ih =>
    rw [List.mem_cons, not_or] at hfeed hsign
    rw [List.forall_mem_cons]
    exact ⟨hc.resolve_right (Ne.symm hfeed.1), ih hfeed.2 hsign.2⟩
  | comment _ _ _ _ => exact absurd List.mem_cons_self hsign

theorem of_no_feed (hremark : '\n' ∉ remark) : Skipped [] ('#' :: remark) := by
  have hcomment := @Skipped.comment [] remark [] hremark (by simp) .nil
  rw [List.append_nil] at hcomment
  exact hcomment

theorem append_comment (h : Skipped [] gap) (hfeed : '\n' ∉ gap) (hremark : '\n' ∉ remark) :
    Skipped [] (gap ++ '#' :: remark) := by
  induction h with
  | nil => exact of_no_feed hremark
  | blank hc _ ih => exact .blank hc (ih fun hmem => hfeed (List.mem_cons_of_mem _ hmem))
  | @comment body text hbody hend _ _ =>
    -- A comment takes up what follows it.
    have hnil : text = [] := by
      cases text with
      | nil => rfl
      | cons c text =>
        rw [hend c rfl] at hfeed
        exact absurd (by simp) hfeed
    rw [hnil, List.append_nil]
    apply of_no_feed
    simp [hbody, hremark]

end Text.Skipped

theorem Munches.exists_gap {before text : List Char} {marks : List Mark}
    (h : Munches before text marks) :
    ∃ front gap, text = front ++ gap ∧ Text.Skipped [] gap ∧ '\n' ∉ gap ∧
      (∀ mark ∈ marks, mark.before ++ mark.body <+: before ++ front) ∧
      ∀ c more, Text.IsSeparator c → Scan.CutsOff before front (gap ++ c :: more) marks := by
  induction h with
  | @last before gap hskipped hfeed =>
    refine ⟨[], gap, rfl, hskipped, hfeed, by simp, ?_⟩
    intro c more _
    apply Scan.cutsOff_nil
  | @token before gap body rest kind marks hskipped hfeed hlongest hdenotes _ ih =>
    rcases ih with ⟨front, last, rfl, hlast, hlast', hmarks, hrest⟩
    refine ⟨gap ++ body ++ front, last, (List.append_assoc _ _ _).symm, hlast, hlast', ?_, ?_⟩
    . rw [List.forall_mem_cons, ← List.append_assoc, ← List.append_assoc]
      exact ⟨List.prefix_append _ _, hmarks⟩
    . intro c more hc
      have hgap := @Scan.cutsOff_blanks before gap (hskipped.isBlank_of_denotes hfeed hdenotes)
      have hbody := hlongest.append_separator hdenotes hc more
      rw [List.append_assoc front] at hbody
      have hbehind := hrest c more hc
      rw [List.append_assoc before] at hbehind
      -- The blanks of the gap are cut off, then the token, and then what the others stand in.
      exact ((hgap _).append (Scan.cutsOff_of_longest hbody hdenotes)).append hbehind

namespace Position.Behind

variable {origin next pos : Position} {front text : List Char}

theorem trans (h : origin.Behind front next) (hpos : next.Behind text pos) :
    origin.Behind (front ++ text) pos := by
  constructor
  . rw [hpos.line_eq, h.line_eq]
  . rw [hpos.column_eq, h.column_eq, List.length_append, Nat.add_assoc]
  . rw [hpos.offset_eq, h.offset_eq, Text.byteSize_append, Nat.add_assoc]

theorem hasRoom (h : origin.Behind front next)
    (hroom : origin.HasRoom (front ++ text).length (Text.byteSize (front ++ text))) :
    next.HasRoom text.length (Text.byteSize text) := by
  have hcolumn := hroom.column_lt
  have hoffset := hroom.offset_lt
  rw [List.length_append] at hcolumn
  rw [Text.byteSize_append] at hoffset
  constructor
  . rw [h.column_eq]
    omega
  . rw [h.offset_eq]
    omega

end Position.Behind

theorem Token.Marked.behind {origin next : Position} {fileId : UInt32} {token : Token} {mark : Mark}
    {front : List Char} (h : token.Marked next fileId mark) (hnext : origin.Behind front next) :
    token.Marked origin fileId (mark.behind front) := by
  constructor
  . exact h.kind_eq
  . exact hnext.trans h.start_behind
  . have hstop := hnext.trans h.stop_behind
    rw [← List.append_assoc] at hstop
    exact hstop
  . exact h.fileId_eq

namespace Scan

variable {scan : Scan} {origin next : Position} {fileId : UInt32} {before front back : List Char}
  {lexemes : List Lexeme}

theorem marks_append (front before : List Char) (lexemes : List Lexeme) :
    marks (front ++ before) lexemes = (marks before lexemes).map (Mark.behind front) := by
  induction lexemes generalizing before with
  | nil => rfl
  | cons lexeme lexemes ih =>
    rcases lexeme with ⟨kind, text⟩
    cases kind with
    | none =>
      rw [marks, marks, List.append_assoc]
      apply ih
    | some kind =>
      rw [marks, marks, List.append_assoc, ih]
      rfl

theorem tokens_go_eq_mapM (hfault : scan.fault = none) :
    tokens.go scan origin fileId before.length (Text.byteSize before) lexemes =
      (marks before lexemes).mapM fun mark => do
        let start ← (origin.advance mark.before.length (Text.byteSize mark.before)).mapError
          .overflow
        let stop ← (origin.advance (mark.before ++ mark.body).length
          (Text.byteSize (mark.before ++ mark.body))).mapError .overflow
        return ⟨mark.kind, ⟨start, stop, fileId⟩⟩ := by
  induction lexemes generalizing before with
  | nil => rw [tokens.go, hfault, marks, List.mapM_nil]; rfl
  | cons lexeme lexemes ih =>
    rcases lexeme with ⟨kind, text⟩
    have hlength : before.length + text.length = (before ++ text).length := by simp
    have hbytes : Text.byteSize before + Text.byteSize text = Text.byteSize (before ++ text) := by
      simp
    cases kind with
    | none => rw [tokens.go, hlength, hbytes, ih, marks]
    | some kind =>
      rw [tokens.go]
      dsimp only
      rw [hlength, hbytes, ih, marks, List.mapM_cons]
      simp only [bind_assoc, pure_bind]

theorem tokens_eq_of_marks_eq {scan' : Scan} (hfault : scan.fault = none)
    (hfault' : scan'.fault = none) (hmarks : marks [] scan.lexemes = marks [] scan'.lexemes) :
    scan.tokens origin fileId = scan'.tokens origin fileId := by
  have htokens := @tokens_go_eq_mapM scan origin fileId [] scan.lexemes hfault
  rw [hmarks, ← tokens_go_eq_mapM hfault'] at htokens
  exact htokens

namespace CutsOff

variable {marks : List Mark} {tokens : List Token}

theorem marks_eq_append_map (h : CutsOff [] front back marks) :
    Scan.marks [] (ofText (front ++ back)).lexemes =
      marks ++ (Scan.marks [] (ofText back).lexemes).map (Mark.behind front) := by
  rw [h.marks_eq, List.nil_append, ← marks_append, List.append_nil]

theorem fitsAt (h : CutsOff [] front back marks) (hnext : origin.Behind front next)
    (hfits : (ofText (front ++ back)).FitsAt origin) : (ofText back).FitsAt next := by
  constructor
  . intro mark hmem
    apply hnext.hasRoom
    rw [← List.append_assoc]
    apply hfits.stop (mark.behind front)
    rw [h.marks_eq_append_map]
    exact List.mem_append_right _ (List.mem_map_of_mem hmem)
  . intro hfault
    rw [← h.fault_eq] at hfault
    apply hnext.hasRoom
    rw [← h.covered_eq]
    exact hfits.fault hfault

theorem tokens_eq (h : CutsOff [] front back marks) (hnext : origin.Behind front next)
    (hfits : (ofText (front ++ back)).FitsAt origin)
    (hmarked : List.Forall₂ (Token.Marked origin fileId) tokens marks) :
    (ofText (front ++ back)).tokens origin fileId =
      ((ofText back).tokens next fileId).map (tokens ++ ·) := by
  have hfits' := h.fitsAt hnext hfits
  cases hfault : (ofText back).fault with
  | none =>
    rcases hfits.tokens_eq_ok fileId (h.fault_eq.trans hfault) with ⟨all, hall, hmarked_all⟩
    rcases hfits'.tokens_eq_ok fileId hfault with ⟨later, hlater, hmarked_later⟩
    have hbehind : List.Forall₂ (Token.Marked origin fileId) later
        ((Scan.marks [] (ofText back).lexemes).map (Mark.behind front)) := by
      rw [List.forall₂_map_right_iff]
      exact hmarked_later.imp fun _ _ hmark => hmark.behind hnext
    have hboth : List.Forall₂ (Token.Marked origin fileId) (tokens ++ later) (marks ++ _) :=
      List.rel_append hmarked hbehind
    rw [← h.marks_eq_append_map] at hboth
    have hunique : Relator.LeftUnique (Token.Marked origin fileId) :=
      fun _ _ _ => Token.Marked.unique
    rw [hall, hlater, List.left_unique_forall₂' hunique hmarked_all hboth]
    rfl
  | some fault =>
    rcases hfits.tokens_eq_rejected fileId (h.fault_eq.trans hfault) with ⟨column, hcolumn, hall⟩
    rcases hfits'.tokens_eq_rejected fileId hfault with ⟨column', hcolumn', hlater⟩
    have heq : column = column' := by
      rw [← UInt32.toNat_inj, hcolumn, hcolumn', h.covered_eq, List.length_append,
        hnext.column_eq, Nat.add_assoc]
    rw [hall, hlater, heq, hnext.line_eq]
    rfl

end CutsOff

end Scan

theorem Text.Uncommented.not_mem {origin : Position} {fileId : UInt32} {front gap : List Char}
    {tokens : List Token} {marks : List Mark} (h : Uncommented origin tokens (front ++ gap))
    (hmarked : List.Forall₂ (Token.Marked origin fileId) tokens marks)
    (hmarks : ∀ mark ∈ marks, mark.before ++ mark.body <+: front) : '#' ∉ gap := by
  intro hmem
  rcases List.append_of_mem hmem with ⟨init, after, rfl⟩
  rcases h (front ++ init) after (List.append_assoc _ _ _).symm with ⟨token, htoken, -, hholds⟩
  rcases exists_mem_of_forall₂ hmarked htoken with ⟨mark, hmark, htold⟩
  rcases hmarks mark hmark with ⟨rest, rfl⟩
  unfold Span.holds at hholds
  rw [decide_eq_true_iff, htold.stop_behind.offset_eq] at hholds
  simp only [Text.byteSize_append] at hholds
  omega

/--
Separators keep texts apart. If a text that is accepted has no comment then what stands behind it
and at least one blank is lexed as if it started where it stands, also if it is rejected. A comment
at the end of a text that is accepted changes nothing.
-/
theorem Scan.tokens_separated (text : List Char) (origin : Position) (fileId : UInt32)
    (tokens : List Token) (htokens : (ofText text).tokens origin fileId = .ok tokens) :
    (Text.Uncommented origin tokens text →
      ∀ blanks back next, blanks ≠ [] → (∀ c ∈ blanks, Text.isBlank c = true) →
        origin.Behind (text ++ blanks) next → (ofText (text ++ blanks ++ back)).FitsAt origin →
        (ofText back).FitsAt next ∧
          (ofText (text ++ blanks ++ back)).tokens origin fileId =
            ((ofText back).tokens next fileId).map (tokens ++ ·)) ∧
      ∀ remark, '\n' ∉ remark →
        (ofText (text ++ '#' :: remark)).tokens origin fileId = .ok tokens := by
  have hfault := fault_eq_none_of_go_eq_ok fileId htokens
  rcases (@Munches.of_ofText [] text hfault).exists_gap with
    ⟨front, gap, htext, hskipped, hfeed, hmarks, hcuts⟩
  refine ⟨?_, ?_⟩
  . intro huncommented blanks back next hne hblanks hnext hfits
    rcases List.exists_cons_of_ne_nil hne with ⟨c, more, rfl⟩
    have hc : Text.IsSeparator c := .inl (List.forall_mem_cons.1 hblanks).1
    have hcut := hcuts c (more ++ back) hc
    rw [← List.cons_append, ← List.append_assoc] at hcut
    have hsplit : front ++ (gap ++ c :: more ++ back) = text ++ c :: more ++ back := by
      rw [htext]
      simp
    -- The places of the tokens were computed for the longer text as well.
    have hfits' : (ofText text).FitsAt origin := by
      constructor
      . intro mark hmem
        apply hfits.stop mark
        rw [← hsplit, hcut.marks_eq]
        exact List.mem_append_left _ hmem
      . exact absurd hfault
    rcases hfits'.tokens_eq_ok fileId hfault with ⟨tokens', htokens', hmarked⟩
    rw [htokens, Except.ok.injEq] at htokens'
    rw [← htokens'] at hmarked
    rw [htext] at huncommented
    have hgap := hskipped.isBlank_of_not_mem hfeed (huncommented.not_mem hmarked hmarks)
    have hboth := hcut.append (cutsOff_blanks (List.forall_mem_append.2 ⟨hgap, hblanks⟩) back)
    rw [← List.append_assoc, ← htext, List.append_nil] at hboth
    exact ⟨hboth.fitsAt hnext hfits, hboth.tokens_eq hnext hfits hmarked⟩
  . intro remark hremark
    have hcut := hcuts '#' remark (.inr rfl)
    have hfeed' : '\n' ∉ gap ++ '#' :: remark := by simp [hfeed, hremark]
    rcases ofText_of_skipped (hskipped.append_comment hfeed hremark) hfeed' with
      ⟨hfault', hkinds⟩
    rw [← htokens, htext, List.append_assoc, ← htext]
    apply tokens_eq_of_marks_eq
    . rw [hcut.fault_eq, hfault']
    . exact hfault
    . rw [hcut.marks_eq, marks_eq_nil hkinds, List.append_nil]

theorem Scan.tokens_separated_string_and_fault :
    ∃ tokens, (ofText "\"#\"".toList).tokens ⟨3, 9, 100⟩ 4 = .ok tokens ∧
      (ofText "\"#\" \rä".toList).tokens ⟨3, 9, 100⟩ 4 =
        .error (.rejected ⟨.invalidToken, 3, 14, "unexpected character 'ä'"⟩) ∧
      (ofText "\"#\"#ü".toList).tokens ⟨3, 9, 100⟩ 4 = .ok tokens := by
  have htokens : (ofText "\"#\"".toList).tokens ⟨3, 9, 100⟩ 4 =
      .ok [⟨.string "#", ⟨⟨3, 9, 100⟩, ⟨3, 12, 103⟩, 4⟩⟩] := by
    decide +kernel
  rcases tokens_separated _ _ _ _ htokens with ⟨hblanks, hcomment⟩
  refine ⟨_, htokens, ?_, hcomment "ü".toList (by decide)⟩
  have huncommented : Text.Uncommented ⟨3, 9, 100⟩
      [⟨.string "#", ⟨⟨3, 9, 100⟩, ⟨3, 12, 103⟩, 4⟩⟩] "\"#\"".toList := by
    intro before after htext
    have hbefore : before = ['"'] := by
      rcases before with _ | ⟨c, _ | ⟨d, _ | ⟨e, before⟩⟩⟩ <;> simp at htext
      rw [htext.1]
    refine ⟨_, List.mem_cons_self, ⟨_, rfl⟩, ?_⟩
    rw [hbefore]
    decide
  have hnext : Position.Behind ⟨3, 9, 100⟩ ("\"#\"".toList ++ [' ', '\r']) ⟨3, 14, 105⟩ :=
    ⟨rfl, by decide, by decide⟩
  have hfits : (ofText ("\"#\"".toList ++ [' ', '\r'] ++ ['ä'])).FitsAt ⟨3, 9, 100⟩ := by
    have hmarks : marks [] (ofText ("\"#\"".toList ++ [' ', '\r'] ++ ['ä'])).lexemes =
        [⟨.string "#", [], ['"', '#', '"']⟩] := by
      decide +kernel
    have hcovered : covered (ofText ("\"#\"".toList ++ [' ', '\r'] ++ ['ä'])).lexemes =
        ['"', '#', '"', ' ', '\r'] := by
      decide +kernel
    constructor
    . rw [hmarks, List.forall_mem_singleton]
      exact ⟨by decide, by decide⟩
    . intro _
      rw [hcovered]
      exact ⟨by decide, by decide⟩
  have hfault : (ofText ['ä']).tokens ⟨3, 14, 105⟩ 4 =
      .error (.rejected ⟨.invalidToken, 3, 14, "unexpected character 'ä'"⟩) := by
    decide +kernel
  have hall : ∀ c ∈ [' ', '\r'], Text.isBlank c = true := List.all_eq_true.1 (by decide)
  have hseparated := (hblanks huncommented _ ['ä'] _ (by decide) hall hnext hfits).2
  rw [hfault] at hseparated
  exact hseparated

end Offside
