import Offside.Proofs.Locality
import Offside.Proofs.Origin
import Offside.Proofs.Tiling

/-!
This module contains the failure of a text, which is the earliest one. The text before it is
accepted, and the text fails at the same place whatever stands behind it, unless that is what was
missing.
-/

namespace Offside

theorem Text.closes_or_of_append {text more : List Char} (h : Closes (text ++ more)) :
    Closes text ∨ ('\n' ∉ text ∧ Closes more) := by
  rcases h with ⟨inner, rest, htext, hinner⟩
  rcases split_cases htext with ⟨tail, rfl⟩ | ⟨init, rfl, rfl⟩
  . exact .inl ⟨inner, tail, rfl, hinner⟩
  . rw [List.forall_mem_append] at hinner
    refine .inr ⟨?_, init, rest, rfl, hinner.2⟩
    intro hmem
    exact (hinner.1 _ hmem).2 rfl

theorem Text.le_ofDigitChars (digits : List Char) (value : Nat) :
    value ≤ Nat.ofDigitChars 10 digits value := by
  induction digits generalizing value with
  | nil => exact Nat.le_refl value
  | cons d digits ih =>
    rw [Nat.ofDigitChars_cons]
    have := ih (10 * value + (d.toNat - '0'.toNat))
    omega

namespace ContentFault

/--
Whether text behind `after` repairs a fault. It may close a string, or complete an unequal sign.
-/
def RepairedBy (after more : List Char) : ContentFault → Prop
  | .unterminatedString => '\n' ∉ after ∧ Text.Closes more
  | .integerTooLarge _ => False
  | .unexpected c => c = '!' ∧ after = [] ∧ more.head? = some '='

def LengthenedBy (after more : List Char) : ContentFault → Prop
  | .integerTooLarge _ => (∀ d ∈ after, d.isDigit = true) ∧ ∃ d ∈ more.head?, d.isDigit = true
  | _ => False

variable {c : Char} {after more : List Char} {fault : ContentFault}

theorem Stops.cutSymbol?_eq_none {d : Char} (h : (unexpected d).Stops c after) :
    Lexeme.cutSymbol? (c :: after) = none := by
  cases hcut : Lexeme.cutSymbol? (c :: after) with
  | none => rfl
  | some result =>
    rcases Lexeme.kind_eq_of_cutSymbol? hcut with ⟨sign, -, hspells⟩
    rcases Lexeme.cutSymbol?_eq_cons hcut with ⟨tail, htail, htext⟩
    have hsign : sign.text.toList = c :: tail := hspells.symm.trans htail
    rcases h.2 with ⟨rfl, hhead⟩ | hstarts
    . -- The only symbol with this character is the unequal sign.
      have hequal : tail = ['='] := by
        cases sign <;> cases hsign
        rfl
      rw [← htext, hequal] at hhead
      contradiction
    . have hhead : sign.text.toList.head? = some c := by
        rw [hsign]
        rfl
      unfold Lexeme.StartsWith at hstarts
      simp only [not_or] at hstarts
      exact absurd ⟨sign, hhead⟩ hstarts.2.2.2.2.2

theorem Stops.cut_eq_error (h : fault.Stops c after) : Lexeme.cut c after = .error fault := by
  cases fault with
  | unterminatedString =>
    rcases h with ⟨rfl, hcloses⟩
    rw [Lexeme.cut_quote]
    unfold Lexeme.cutString
    dsimp only
    split
    next rest hdrop =>
      have hclose : Text.Closes after := by
        refine ⟨after.takeWhile Text.isQuotable, rest, ?_, ?_⟩
        . rw [← hdrop, List.takeWhile_append_dropWhile]
        . intro d hmem
          have hquotable := List.all_eq_true.1 List.all_takeWhile d hmem
          simpa [Text.isQuotable] using hquotable
      contradiction
    . rfl
  | integerTooLarge digits =>
    rcases h with ⟨hdigit, rfl, hvalue⟩
    rw [Lexeme.cut_of_isDigit hdigit]
    unfold Lexeme.cutInt Lexeme.intBound
    dsimp only
    rw [if_neg (by omega)]
  | unexpected d =>
    have hnone := h.cutSymbol?_eq_none
    rcases h with ⟨rfl, ⟨rfl, -⟩ | hstarts⟩
    . rw [Lexeme.cut, if_neg (by decide), if_neg (by decide), if_neg (by decide),
        if_neg (by decide), if_neg (by decide), hnone]
    . unfold Lexeme.StartsWith at hstarts
      simp only [not_or] at hstarts
      rw [Lexeme.cut, if_neg hstarts.1, if_neg hstarts.2.1, if_neg hstarts.2.2.1,
        if_neg hstarts.2.2.2.1, if_neg hstarts.2.2.2.2.1, hnone]

theorem Stops.append (h : fault.Stops c after) (hrepaired : ¬fault.RepairedBy after more) :
    ∃ longer : ContentFault, longer.Stops c (after ++ more) ∧
      (longer = fault ∨ fault.LengthenedBy after more) := by
  cases fault with
  | unterminatedString =>
    refine ⟨.unterminatedString, ⟨h.1, ?_⟩, .inl rfl⟩
    intro hcloses
    rcases Text.closes_or_of_append hcloses with hcloses | hcloses
    . exact h.2 hcloses
    . exact hrepaired hcloses
  | integerTooLarge digits =>
    rcases h with ⟨hdigit, rfl, hvalue⟩
    by_cases hafter : ∀ d ∈ after, d.isDigit = true
    . -- The digits go on in the text behind them, and their value does not get smaller.
      have htake : after.takeWhile Char.isDigit = after := List.takeWhile_eq_self_iff.2 hafter
      have happend : (after ++ more).takeWhile Char.isDigit =
          after ++ more.takeWhile Char.isDigit := List.takeWhile_append_of_pos hafter
      have hle := Text.le_ofDigitChars (more.takeWhile Char.isDigit)
        (Nat.ofDigitChars 10 (c :: after) 0)
      rw [← Nat.ofDigitChars_append, List.cons_append, ← happend] at hle
      rw [htake] at hvalue ⊢
      refine ⟨.integerTooLarge (c :: (after ++ more).takeWhile Char.isDigit),
        ⟨hdigit, rfl, Nat.lt_of_lt_of_le hvalue hle⟩, ?_⟩
      cases more with
      | nil =>
        left
        rw [List.append_nil, htake]
      | cons d more =>
        cases hd : d.isDigit with
        | true => exact .inr ⟨hafter, d, rfl, hd⟩
        | false =>
          left
          rw [happend, List.takeWhile_cons_of_neg (by simp [hd]), List.append_nil]
    . -- The digits end before the text behind them.
      have htake : (after ++ more).takeWhile Char.isDigit = after.takeWhile Char.isDigit := by
        rw [List.takeWhile_append, if_neg]
        intro hlength
        apply hafter
        rw [← List.takeWhile_eq_self_iff]
        exact (List.takeWhile_prefix _).eq_of_length hlength
      rw [← htake] at hvalue ⊢
      exact ⟨.integerTooLarge (c :: (after ++ more).takeWhile Char.isDigit),
        ⟨hdigit, rfl, hvalue⟩, .inl rfl⟩
  | unexpected d =>
    refine ⟨.unexpected d, ⟨h.1, ?_⟩, .inl rfl⟩
    rcases h with ⟨rfl, ⟨rfl, hhead⟩ | hstarts⟩
    . left
      refine ⟨rfl, ?_⟩
      cases after with
      | nil =>
        intro hmore
        exact hrepaired ⟨rfl, rfl, hmore⟩
      | cons e after => exact hhead
    . exact .inr hstarts

end ContentFault

namespace Scan

variable {text : List Char} {c : Char} {after after' : List Char} {fault : ContentFault}

theorem ofText_covered (htext : covered (ofText text).lexemes ++ c :: after = text) :
    ofText (covered (ofText text).lexemes) = ⟨(ofText text).lexemes, none⟩ := by
  have h := ofText_covered_append htext (Text.startsLike_nil _)
  rw [List.append_nil, ofText_nil, List.append_nil] at h
  exact h

theorem ofText_of_stops (htext : covered (ofText text).lexemes ++ c :: after = text)
    (hstops : fault.Stops c after') :
    ofText (covered (ofText text).lexemes ++ c :: after') =
      ⟨(ofText text).lexemes, some fault⟩ := by
  rw [ofText_covered_append htext (Text.startsLike_cons c after' after),
    ofText_cons_of_fault hstops.cut_eq_error, List.append_nil]

/--
The error of a text is at its first character that nothing can be cut off at. The text before it is
accepted, and the text fails there with any text behind it that does not repair the fault. The
message changes only if digits at its end go on.
-/
theorem failure_is_earliest {origin : Position} {fileId : UInt32} {error : LexicalError}
    (hfits : (ofText text).FitsAt origin)
    (herror : (ofText text).tokens origin fileId = .error (.rejected error)) :
    error.kind = .invalidToken ∧ error.line = origin.line ∧
      ∃ before c after, ∃ fault : ContentFault, text = before ++ c :: after ∧
        error.column.toNat = origin.column.toNat + before.length ∧
        fault.Stops c after ∧ error.message = fault.message ∧
        (∃ tokens, (ofText before).tokens origin fileId = .ok tokens) ∧
        ∀ more, ¬fault.RepairedBy after more →
          ∃ longer : ContentFault, longer.Stops c (after ++ more) ∧
            (longer = fault ∨ fault.LengthenedBy after more) ∧
            (ofText (text ++ more)).tokens origin fileId =
              .error (.rejected { error with message := longer.message }) := by
  cases hfault : (ofText text).fault with
  | none =>
    rcases hfits.tokens_eq_ok fileId hfault with ⟨tokens, htokens, -⟩
    rw [herror] at htokens
    contradiction
  | some fault =>
    rcases hfits.tokens_eq_rejected fileId hfault with ⟨column, hcolumn, hrejected⟩
    rcases covered_ofText_of_fault hfault with ⟨c, after, htext, hcut⟩
    rw [herror, Except.error.injEq, Abort.rejected.injEq] at hrejected
    subst hrejected
    have hstops := Lexeme.stops_of_cut_eq_error hcut
    refine ⟨rfl, rfl, _, c, after, fault, htext.symm, hcolumn, hstops, rfl, ?_, ?_⟩
    . have hbefore := ofText_covered htext
      have hfits' : (ofText (covered (ofText text).lexemes)).FitsAt origin := by
        rw [hbefore]
        constructor
        . exact hfits.stop
        . intro hne
          contradiction
      rcases hfits'.tokens_eq_ok fileId (by rw [hbefore]) with ⟨tokens, htokens, -⟩
      exact ⟨tokens, htokens⟩
    . intro more hrepaired
      rcases hstops.append hrepaired with ⟨longer, hlonger, hcases⟩
      have hmore := ofText_of_stops htext hlonger
      rw [← List.cons_append, ← List.append_assoc, htext] at hmore
      have hfits' : (ofText (text ++ more)).FitsAt origin := by
        rw [hmore]
        constructor
        . exact hfits.stop
        . intro _
          apply hfits.fault
          rw [hfault]
          apply Option.some_ne_none
      rcases hfits'.tokens_eq_rejected fileId (by rw [hmore]) with ⟨column', hcolumn', hrejected⟩
      refine ⟨longer, hlonger, hcases, ?_⟩
      have heq : column' = column := by
        rw [← UInt32.toNat_inj, hcolumn', hcolumn, hmore]
      rw [hrejected, heq]

theorem failure_is_earliest_more_digits :
    (ofText "a 9223372036854775808".toList).FitsAt ⟨1, 4294967293, 0⟩ ∧
      ∃ error, ∃ longer : ContentFault,
        (ofText "a 9223372036854775808".toList).tokens ⟨1, 4294967293, 0⟩ 0 =
          .error (.rejected error) ∧
        (ofText ("a 9223372036854775808".toList ++ ['0'])).tokens ⟨1, 4294967293, 0⟩ 0 =
          .error (.rejected { error with message := longer.message }) := by
  have hfault : (ofText "a 9223372036854775808".toList).fault =
      some (.integerTooLarge "9223372036854775808".toList) := by
    decide +kernel
  have hmarks : marks [] (ofText "a 9223372036854775808".toList).lexemes =
      [⟨.ident "a", [], ['a']⟩] := by
    decide +kernel
  have hcovered : covered (ofText "a 9223372036854775808".toList).lexemes = ['a', ' '] := by
    decide +kernel
  have hfits : (ofText "a 9223372036854775808".toList).FitsAt ⟨1, 4294967293, 0⟩ := by
    constructor
    . rw [hmarks]
      simp only [List.forall_mem_cons]
      exact ⟨⟨by decide, by decide⟩, by simp⟩
    . intro _
      rw [hcovered]
      exact ⟨by decide, by decide⟩
  rcases hfits.tokens_eq_rejected 0 hfault with ⟨column, -, hrejected⟩
  rcases failure_is_earliest hfits hrejected with
    ⟨-, -, before, c, after, fault, -, -, -, -, -, hmore⟩
  have hrepaired : ¬fault.RepairedBy after ['0'] := by
    cases fault with
    | unterminatedString =>
      rintro ⟨-, inner, rest, htext, -⟩
      have hmem : '"' ∈ ['0'] := by simp [htext]
      contradiction
    | integerTooLarge digits => exact id
    | unexpected d => simp [ContentFault.RepairedBy]
  rcases hmore ['0'] hrepaired with ⟨longer, -, -, hlonger⟩
  exact ⟨hfits, _, longer, hrejected, hlonger⟩

end Scan

end Offside
