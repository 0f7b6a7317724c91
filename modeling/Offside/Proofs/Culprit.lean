import Offside.Proofs.Contribution
import Offside.Proofs.Inversion

/-!
This module contains the characters at fault. An error is in the column of a character of its line
that breaks the rules of indentation, is the first after a margin of a level that the line cannot
have, or starts no lexeme.
-/

namespace Offside

open Text in
/--
What the character `c` of a line is at fault for, when it stands between `before` and `after`, and
the message that says so.
-/
inductive Culprit (before : List Char) (c : Char) (after : List Char) :
    LexicalErrorKind → String → Prop where
  | margin (fault : IndentFault) :
    (∀ d ∈ before, isIndent d = true) → isIndent c = true →
    Culprit before c after .invalidIndentation fault.message
  | level (fault : LevelFault) :
    (∀ d ∈ before, isIndent d = true) → isIndent c = false →
    Culprit before c after fault.kind fault.message
  | content (fault : ContentFault) :
    Lexeme.cut c after = .error fault →
    Culprit before c after .invalidToken fault.message

def LexicalError.Blames (error : LexicalError) (text before : List Char) (c : Char) : Prop :=
  ∃ after, text = before ++ c :: after ∧ error.column.toNat = before.length + 1 ∧
    Culprit before c after error.kind error.message

namespace Indentation

variable {start : Position} {seen : Option IndentUnit} {level : UInt32} {width : Nat}
  {text : List Char} {error : LexicalError}

def Rejects (error : LexicalError) (column : Nat) (text : List Char) : Prop :=
  ∃ (before : List Char) (c : Char) (after : List Char) (cause : IndentFault),
    text = before ++ c :: after ∧ (∀ d ∈ before, Text.isIndent d = true) ∧
    Text.isIndent c = true ∧ cause.At c after ∧ error.kind = .invalidIndentation ∧
    error.message = cause.message ∧ error.column.toNat = column + before.length

theorem Rejects.append {column : Nat} {front : List Char}
    (h : Rejects error (column + front.length) text)
    (hfront : ∀ d ∈ front, Text.isIndent d = true) : Rejects error column (front ++ text) := by
  rcases h with ⟨before, c, after, cause, rfl, hbefore, hc, hcause, hkind, hmessage, hcolumn⟩
  refine ⟨front ++ before, c, after, cause, (List.append_assoc _ _ _).symm, ?_, hc, hcause, hkind,
    hmessage, ?_⟩
  . rw [List.forall_mem_append]
    exact ⟨hfront, hbefore⟩
  . rw [hcolumn, List.length_append, Nat.add_assoc]

theorem rejects_of_fault {cause : IndentFault} {c : Char} (hc : Text.isIndent c = true)
    (hcause : cause.At c text) (hroom : start.HasRoom width width)
    (h : ofText.fault start cause width = .rejected error) :
    Rejects error (start.column.toNat + width) (c :: text) := by
  rcases Abort.reject_of_hasRoom .invalidIndentation cause.message hroom with
    ⟨column, hcolumn, hreject⟩
  unfold ofText.fault at h
  rw [hreject, Abort.rejected.injEq] at h
  rw [← h]
  exact ⟨[], c, text, cause, rfl, by simp, hc, hcause, rfl, rfl, hcolumn⟩

theorem rejects_of_go (hroom : start.HasRoom (width + text.length) (width + text.length))
    (h : ofText.go start seen level width text = .error (.rejected error)) :
    Rejects error (start.column.toNat + width) text := by
  have hhere : start.HasRoom width width := hroom.mono (by omega) (by omega)
  fun_induction ofText.go start seen level width text with
  | case1 level width rest =>
    have hmixed : ¬Text.IsUnpaired '\t' rest := by simp [Text.IsUnpaired]
    exact rejects_of_fault rfl (IndentFault.at_of_not_isUnpaired hmixed) hhere (Except.error.inj h)
  | case4 level width rest =>
    have hmixed : ¬Text.IsUnpaired ' ' (' ' :: rest) := by simp [Text.IsUnpaired]
    exact rejects_of_fault rfl (IndentFault.at_of_not_isUnpaired hmixed) hhere (Except.error.inj h)
  | case7 seen level width rest =>
    have hmixed : ¬Text.IsUnpaired ' ' ('\t' :: rest) := by simp [Text.IsUnpaired]
    exact rejects_of_fault rfl (IndentFault.at_of_not_isUnpaired hmixed) hhere (Except.error.inj h)
  | case8 seen level width rest hspace htab =>
    have hunpaired := Text.isUnpaired_space (Text.isIndent_head?_eq_false hspace htab)
    exact rejects_of_fault rfl (IndentFault.at_of_isUnpaired hunpaired) hhere (Except.error.inj h)
  | case2 => simp at h
  | case5 => simp at h
  | case3 seen level width rest hseen total hadd ih =>
    rw [List.length_cons] at hroom
    have hrest := ih (hroom.mono (by omega) (by omega)) h (hroom.mono (by omega) (by omega))
    exact @Rejects.append _ _ _ ['\t'] hrest (by simp [Text.isIndent])
  | case6 seen level width rest hseen total hadd ih =>
    rw [List.length_cons, List.length_cons] at hroom
    have hrest := ih (hroom.mono (by omega) (by omega)) h (hroom.mono (by omega) (by omega))
    exact @Rejects.append _ _ _ [' ', ' '] hrest (by simp [Text.isIndent])
  | case9 => simp at h

theorem rejects_of_ofText (hcolumn : start.column = 1)
    (hroom : start.HasRoom text.length text.length)
    (h : ofText start text = .error (.rejected error)) : Rejects error 1 text := by
  unfold ofText at h
  have hrejects := rejects_of_go (by simpa using hroom) h
  rw [hcolumn] at hrejects
  exact hrejects

end Indentation

theorem Line.exists_margin_append {line : Line} (h : line.isBlank = false) :
    ∃ c rest, line.text = Text.margin line.text ++ c :: rest ∧
      (∀ d ∈ Text.margin line.text, Text.isIndent d = true) ∧ Text.isIndent c = false := by
  have htext := Text.margin_append_body line.text
  rcases exists_body_eq_cons h with ⟨c, rest, hrest, hc⟩
  rw [hrest] at htext
  exact ⟨c, rest, htext.symm, List.all_eq_true.1 List.all_takeWhile, hc⟩

theorem Scan.exists_fault_of_tokens {text : List Char} {origin : Position} {fileId : UInt32}
    {error : LexicalError} (hroom : origin.HasRoom text.length (Text.byteSize text))
    (h : (ofText text).tokens origin fileId = .error (.rejected error)) :
    ∃ fault c rest, covered (ofText text).lexemes ++ c :: rest = text ∧
      Lexeme.cut c rest = .error fault ∧
      error.kind = .invalidToken ∧ error.message = fault.message ∧
      error.column.toNat = origin.column.toNat + (covered (ofText text).lexemes).length := by
  have hcovered := hasRoom_covered_ofText hroom
  cases hfault : (ofText text).fault with
  | none =>
    rcases tokens_of_fault_eq_none fileId hfault hcovered with ⟨tokens, htokens, -⟩
    rw [h] at htokens
    contradiction
  | some fault =>
    rcases tokens_of_fault_eq_some fileId hfault hcovered with ⟨column, hcolumn, htokens⟩
    rcases covered_ofText_of_fault hfault with ⟨c, rest, hrest, hcut⟩
    rw [h, Except.error.injEq, Abort.rejected.injEq] at htokens
    rw [htokens]
    exact ⟨fault, c, rest, hrest, hcut, rfl, rfl, hcolumn⟩

namespace LayoutLine

variable {options : Options} {levels : Levels} {start stop : Position} {line : Line}
  {text : List Char} {error : LexicalError}

theorem read_rejected_cases (hcolumn : start.column = 1)
    (hroom : start.HasRoom text.length (Text.byteSize text))
    (h : read options levels start stop text = .error (.rejected error)) :
    (¬Text.WellIndented text ∧ Indentation.Rejects error 1 text) ∨
    (∃ level fault, Text.WellIndented text ∧ level.toNat = Text.level text ∧
      levels.enter options.singleStep level = .error fault ∧
      error.kind = fault.kind ∧ error.message = fault.message ∧
      error.column.toNat = (Text.margin text).length + 1) ∨
    ∃ fault c rest, Scan.covered (Scan.ofText (Text.body text)).lexemes ++ c :: rest =
        Text.body text ∧
      Lexeme.cut c rest = .error fault ∧
      error.kind = .invalidToken ∧ error.message = fault.message ∧
      error.column.toNat = (Text.margin text).length + 1 +
        (Scan.covered (Scan.ofText (Text.body text)).lexemes).length := by
  have hchars := hroom.mono (Nat.le_refl _) (Text.length_le_byteSize text)
  rcases read_eq_rejected h with hindentation | ⟨indentation, origin, hindentation, horigin, h⟩
  . refine .inl ⟨?_, Indentation.rejects_of_ofText hcolumn hchars hindentation⟩
    intro hindented
    rcases Indentation.ofText_of_wellIndented hchars hindented with ⟨level, -, hok⟩
    rw [hindentation] at hok
    contradiction
  . rcases Indentation.of_ofText_eq_ok hchars hindentation with
      ⟨hindented, hlevel, hwidth, hremainder⟩
    have hmargin := Text.length_margin_le text
    rw [hwidth] at horigin
    have hplace : origin.column.toNat = (Text.margin text).length + 1 := by
      rcases Position.advance_of_hasRoom (hchars.mono hmargin hmargin) with
        ⟨place, hadvance, -, hplace, -⟩
      rw [horigin, Except.ok.injEq] at hadvance
      rw [hadvance, hplace, hcolumn, Nat.add_comm]
      rfl
    rcases h with ⟨fault, henter, rfl⟩ | hcontent
    . exact .inr (.inl ⟨_, fault, hindented, hlevel, henter, rfl, rfl, hplace⟩)
    . rw [hremainder] at hcontent
      rw [← hplace]
      exact .inr (.inr (Scan.exists_fault_of_tokens (hasRoom_body hroom horigin) hcontent))

theorem blames_of_read (hcolumn : start.column = 1) (hblank : line.isBlank = false)
    (hroom : start.HasRoom line.text.length (Text.byteSize line.text))
    (h : read options levels start stop line.text = .error (.rejected error)) :
    ∃ before c, error.Blames line.text before c := by
  rcases read_rejected_cases hcolumn hroom h with
    ⟨-, before, c, after, cause, htext, hbefore, hc, -, hkind, hmessage, hplace⟩ |
    ⟨level, fault, -, -, -, hkind, hmessage, hplace⟩ |
    ⟨fault, c, rest, hrest, hcut, hkind, hmessage, hplace⟩
  . refine ⟨before, c, after, htext, by rw [hplace, Nat.add_comm], ?_⟩
    rw [hkind, hmessage]
    exact .margin cause hbefore hc
  . rcases Line.exists_margin_append hblank with ⟨c, rest, htext, hmargin, hc⟩
    refine ⟨_, c, rest, htext, hplace, ?_⟩
    rw [hkind, hmessage]
    exact .level fault hmargin hc
  . -- The character follows the margin and all lexemes.
    refine ⟨Text.margin line.text ++ Scan.covered (Scan.ofText (Text.body line.text)).lexemes, c,
      rest, ?_, ?_, ?_⟩
    . rw [List.append_assoc, hrest, Text.margin_append_body]
    . rw [hplace, List.length_append]
      omega
    . rw [hkind, hmessage]
      exact .content fault hcut

end LayoutLine

namespace Cursor

variable {options : Options} {cursor : Cursor} {front : List Line} {line : Line}
  {error : LexicalError}

theorem blames_of_step (hpast : cursor.Past front) (hrange : Line.InRange (front ++ [line]))
    (h : cursor.step options line = .error (.rejected error)) :
    error.line.toNat = front.length + 1 ∧ ∃ before c, error.Blames line.text before c := by
  rcases step_eq_error hpast hrange h with ⟨hblank, other, hother, hline, -⟩
  rw [← Abort.rejected.inj hother] at hline
  refine ⟨hline, ?_⟩
  rcases step_eq_rejected h with ⟨-, passed, hpassed, hread⟩
  rcases pass_of_inRange hpast hrange with ⟨next, hnext, -, -, -, hroom⟩
  rw [hpassed, Except.ok.injEq] at hnext
  rw [← hnext] at hroom
  exact LayoutLine.blames_of_read rfl hblank hroom hread

end Cursor

theorem TokenStream.blames {source : String} {options : Options} {stream : TokenStream}
    {error : LexicalError} (hsize : source.utf8ByteSize ≤ 2 ^ 32 - 2)
    (h : ofSource source options = .ok stream) (hfailure : stream.failure = some error) :
    ∃ front line back, Line.ofText source.toList = front ++ line :: back ∧
      error.line.toNat = front.length + 1 ∧ ∃ before c, error.Blames line.text before c := by
  have hrange := Line.inRange_ofSource hsize
  rcases Run.ofSource_eq_ok h with
    ⟨hnone, -⟩ | ⟨other, front, line, back, cursor, hsome, hlines, hreached, hstep, -⟩
  . rw [hnone] at hfailure
    contradiction
  . rw [hfailure, Option.some.injEq] at hsome
    rw [← hsome] at hstep
    rw [hlines, List.append_cons] at hrange
    have hpast := hreached.past hrange.of_append.of_append
    exact ⟨front, line, back, hlines, Cursor.blames_of_step hpast hrange.of_append hstep⟩

section Messages

variable {c : Char}

theorem not_mem_toList_repr (hc : c.isDigit = false) (n : Nat) : c ∉ n.repr.toList := by
  intro hmem
  rw [Nat.toList_repr] at hmem
  rw [Nat.isDigit_of_mem_toDigits (by decide) (by decide) hmem] at hc
  contradiction

theorem not_mem_toList_append {lhs rhs : String} (hlhs : c ∉ lhs.toList) (hrhs : c ∉ rhs.toList) :
    c ∉ (lhs ++ rhs).toList := by
  rw [String.toList_append, List.mem_append, not_or]
  exact ⟨hlhs, hrhs⟩

theorem not_mem_intercalate {separator : List Char} {parts : List (List Char)}
    (hseparator : c ∉ separator) (hparts : ∀ part ∈ parts, c ∉ part) :
    c ∉ separator.intercalate parts := by
  induction parts with
  | nil => simp
  | cons first parts ih =>
    rw [List.forall_mem_cons] at hparts
    cases parts with
    | nil => simpa using hparts.1
    | cons second parts =>
      rw [List.intercalate_cons_cons]
      simp only [List.mem_append, not_or]
      exact ⟨⟨hparts.1, hseparator⟩, ih hparts.2⟩

theorem IndentFault.no_feed_message (fault : IndentFault) : '\n' ∉ fault.message.toList := by
  cases fault with
  | unpairedSpace => decide +kernel
  | mixedUnits => decide +kernel

theorem LevelFault.no_feed_message (fault : LevelFault) : '\n' ∉ fault.message.toList := by
  have hrepr (n : Nat) : '\n' ∉ n.repr.toList := not_mem_toList_repr (by decide) n
  cases fault with
  | stepTooLarge top level =>
    have htop : '\n' ∉ ("indentation may only increase by one level at a time (from " ++
        top.toNat.repr).toList := not_mem_toList_append (by decide +kernel) (hrepr _)
    have hto := not_mem_toList_append htop (by decide +kernel : '\n' ∉ " to ".toList)
    have hlevel := not_mem_toList_append hto (hrepr level.toNat)
    exact not_mem_toList_append hlevel (by decide)
  | notOpen level levels =>
    have hlevels : '\n' ∉ (String.intercalate ", " (levels.map (·.toNat.repr))).toList := by
      rw [String.toList_intercalate]
      apply not_mem_intercalate (by decide)
      simp [-Nat.toList_repr, hrepr]
    have hlevel : '\n' ∉ ("dedent to level " ++ level.toNat.repr).toList :=
      not_mem_toList_append (by decide) (hrepr _)
    have hopen := not_mem_toList_append hlevel (by decide +kernel :
      '\n' ∉ " does not match any enclosing block (open levels: [".toList)
    exact not_mem_toList_append (not_mem_toList_append hopen hlevels) (by decide)

variable {text : List Char} {fault : ContentFault}

theorem Lexeme.cut_eq_error (h : cut c text = .error fault) :
    Text.isBlank c = false ∧ (fault = .unterminatedString ∨
      fault = .integerTooLarge (c :: text.takeWhile Char.isDigit) ∨ fault = .unexpected c) := by
  unfold cut at h
  split at h
  . contradiction
  next hblank =>
    refine ⟨Bool.eq_false_iff.2 hblank, ?_⟩
    split at h
    . contradiction
    split at h
    . contradiction
    split at h
    . unfold cutInt at h
      dsimp only at h
      split at h
      . contradiction
      . exact .inr (.inl (Except.error.inj h).symm)
    split at h
    . unfold cutString at h
      dsimp only at h
      split at h
      . contradiction
      . exact .inl (Except.error.inj h).symm
    split at h
    . contradiction
    . exact .inr (.inr (Except.error.inj h).symm)

theorem Lexeme.no_feed_message (h : cut c text = .error fault) (hfeed : '\n' ∉ c :: text) :
    '\n' ∉ fault.message.toList := by
  rcases (cut_eq_error h).2 with rfl | rfl | rfl
  . decide +kernel
  . have hdigits : '\n' ∉ (String.ofList (c :: text.takeWhile Char.isDigit)).toList := by
      rw [String.toList_ofList]
      intro hmem
      apply hfeed
      rw [List.mem_cons] at hmem ⊢
      exact hmem.imp_right fun hmem => (List.takeWhile_sublist _).subset hmem
    have hliteral := not_mem_toList_append (by decide : '\n' ∉ "integer literal ".toList) hdigits
    exact not_mem_toList_append hliteral (by decide +kernel)
  . have hchar : '\n' ∉ (String.singleton c).toList := by
      rw [String.toList_singleton]
      intro hmem
      exact hfeed (List.mem_cons.2 (.inl (List.mem_singleton.1 hmem)))
    have hquote := not_mem_toList_append
      (by decide +kernel : '\n' ∉ "unexpected character '".toList) hchar
    exact not_mem_toList_append hquote (by decide)

end Messages

namespace Culprit

variable {before after : List Char} {c : Char} {kind : LexicalErrorKind} {message : String}

theorem no_feed_message (h : Culprit before c after kind message) (hfeed : '\n' ∉ c :: after) :
    '\n' ∉ message.toList := by
  cases h with
  | margin fault _ _ => exact fault.no_feed_message
  | level fault _ _ => exact fault.no_feed_message
  | content fault hcut => exact Lexeme.no_feed_message hcut hfeed

theorem no_return_before (h : Culprit before '\r' after kind message) : '\r' ∉ before := by
  cases h with
  | margin _ hbefore _ => exact fun hmem => absurd (hbefore _ hmem) (by decide)
  | level _ hbefore _ => exact fun hmem => absurd (hbefore _ hmem) (by decide)
  | content fault hcut => exact absurd (Lexeme.cut_eq_error hcut).1 (by decide)

end Culprit

namespace LexicalError.Blames

variable {error : LexicalError} {text before : List Char} {c : Char}

theorem column_eq (h : error.Blames text before c) : error.column.toNat = before.length + 1 := by
  rcases h with ⟨after, -, hcolumn, -⟩
  exact hcolumn

theorem column_le_length (h : error.Blames text before c) : error.column.toNat ≤ text.length := by
  rcases h with ⟨after, htext, hcolumn, -⟩
  rw [htext, List.length_append, List.length_cons]
  omega

theorem no_feed_message (h : error.Blames text before c) (hfeed : '\n' ∉ text) :
    '\n' ∉ error.message.toList := by
  rcases h with ⟨after, rfl, -, hculprit⟩
  rw [List.mem_append, not_or] at hfeed
  exact hculprit.no_feed_message hfeed.2

end LexicalError.Blames

end Offside
