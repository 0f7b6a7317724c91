import Offside.Proofs.Culprit
import Offside.Proofs.Ending
import Offside.Proofs.Outlook
import Offside.Proofs.Spelling

/-!
This module contains the reasons for errors. The character that an error points at explains it: it
breaks the rules of indentation, is the first after the indentation of a line at a wrong level,
opens a string that is not closed, starts a number that is too large, or starts nothing at all.
-/

namespace Offside

def Lexeme.StartsWith (c : Char) : Prop :=
  Text.isBlank c = true ∨ c = '#' ∨ Text.isWordStart c = true ∨ c.isDigit = true ∨ c = '"' ∨
    ∃ symbol : Symbol, symbol.text.toList.head? = some c

/--
Whether a line is at fault at the character `c`, which stands between `before` and `after`: it is a
quote that no other quote follows, the first digit of a run that has no digit next to it and whose
value is above all integers of 64 bits, or a character that nothing starts with. An exclamation mark
starts nothing but an unequal sign.
-/
def ContentFault.At (before : List Char) (c : Char) (after : List Char) : ContentFault → Prop
  | .unterminatedString => c = '"' ∧ '"' ∉ after
  | .integerTooLarge digits =>
    c.isDigit = true ∧ (∀ d ∈ before.getLast?, d.isDigit = false) ∧
      digits = c :: after.takeWhile Char.isDigit ∧ 2 ^ 63 - 1 < Nat.ofDigitChars 10 digits 0
  | .unexpected d => d = c ∧ ((c = '!' ∧ after.head? ≠ some '=') ∨ ¬Lexeme.StartsWith c)

inductive ContentFault.Says : ContentFault → String → Prop where
  | unterminatedString : Says .unterminatedString "unterminated string literal"
  | integerTooLarge (digits : List Char) :
    Says (.integerTooLarge digits)
      ("integer literal " ++ String.ofList digits ++ " does not fit in 64 bits")
  | unexpected (c : Char) :
    Says (.unexpected c) ("unexpected character '" ++ String.singleton c ++ "'")

theorem ContentFault.says_message (fault : ContentFault) : fault.Says fault.message := by
  cases fault with
  | unterminatedString => exact .unterminatedString
  | integerTooLarge digits => exact .integerTooLarge digits
  | unexpected c => exact .unexpected c

def Text.Closes (text : List Char) : Prop :=
  ∃ inner rest, text = inner ++ '"' :: rest ∧ ∀ c ∈ inner, c ≠ '"' ∧ c ≠ '\n'

theorem Text.closes_of_mem {text : List Char} (h : '"' ∈ text) (hfeed : '\n' ∉ text) :
    Closes text := by
  obtain ⟨inner, rest, rfl, hinner⟩ := List.eq_append_cons_of_mem h
  rw [List.mem_append, not_or] at hfeed
  refine ⟨inner, rest, rfl, ?_⟩
  intro c hc
  exact ⟨fun heq => hinner (heq ▸ hc), fun heq => hfeed.1 (heq ▸ hc)⟩

/--
Whether a text of any number of lines cannot be cut at the character `c` in front of `after`. What
stands before `c` does not matter.
-/
def ContentFault.Stops (c : Char) (after : List Char) : ContentFault → Prop
  | .unterminatedString => c = '"' ∧ ¬Text.Closes after
  | .integerTooLarge digits =>
    c.isDigit = true ∧ digits = c :: after.takeWhile Char.isDigit ∧
      2 ^ 63 - 1 < Nat.ofDigitChars 10 digits 0
  | .unexpected d => d = c ∧ ((c = '!' ∧ after.head? ≠ some '=') ∨ ¬Lexeme.StartsWith c)

theorem ContentFault.At.eq {before after : List Char} {c : Char} {fault : ContentFault}
    (h : fault.At before c after) :
    fault =
      if c = '"' then
        .unterminatedString
      else if c.isDigit then
        .integerTooLarge (c :: after.takeWhile Char.isDigit)
      else
        .unexpected c := by
  cases fault with
  | unterminatedString => rw [if_pos h.1]
  | integerTooLarge digits =>
    rcases h with ⟨hdigit, -, hdigits, -⟩
    have hquote : c ≠ '"' := by
      rintro rfl
      contradiction
    rw [if_neg hquote, if_pos hdigit, hdigits]
  | unexpected d =>
    rcases h with ⟨rfl, ⟨rfl, -⟩ | hstarts⟩
    . rfl
    . unfold Lexeme.StartsWith at hstarts
      simp only [not_or] at hstarts
      rw [if_neg hstarts.2.2.2.2.1, if_neg hstarts.2.2.2.1]

theorem ContentFault.At.unique {before after : List Char} {c : Char} {fault other : ContentFault}
    (h : fault.At before c after) (hother : other.At before c after) : other = fault := by
  rw [h.eq, hother.eq]

theorem Symbol.ofText?_eq_none_iff {text : String} :
    ofText? text = none ↔ ∀ symbol : Symbol, text ≠ symbol.text := by
  unfold ofText?
  rw [List.find?_eq_none]
  constructor
  . intro h symbol heq
    have := h symbol symbol.mem_all
    simp [heq] at this
  . intro h symbol _ heq
    rw [beq_iff_eq] at heq
    exact h symbol heq.symm

theorem Symbol.exists_text_eq_singleton {symbol : Symbol} {c : Char}
    (h : symbol.text.toList.head? = some c) :
    (symbol = .notEqual ∧ c = '!') ∨ ∃ single : Symbol, single.text = String.ofList [c] := by
  have single (symbol : Symbol) (hhead : symbol.text.toList.head? = some c)
      (htail : symbol.text.toList.tail = []) : symbol.text = String.ofList [c] := by
    rcases List.head?_eq_some_iff.1 hhead with ⟨tail, htext⟩
    rw [htext, List.tail_cons] at htail
    rw [← String.ofList_toList (s := symbol.text), htext, htail]
  cases symbol with
  | notEqual => exact .inl ⟨rfl, (Option.some.inj h).symm⟩
  | equal => exact .inr ⟨.assign, single .assign h rfl⟩
  | arrow => exact .inr ⟨.minus, single .minus h rfl⟩
  | _ => exact .inr ⟨_, single _ h rfl⟩

theorem Symbol.no_digit_last {symbol : Symbol} {c : Char}
    (h : symbol.text.toList.getLast? = some c) : c.isDigit = false := by
  have hall : symbol.text.toList.getLast?.all (!·.isDigit) = true := by
    cases symbol <;> decide +kernel
  rw [h] at hall
  simpa using hall

namespace Lexeme

variable {c d : Char} {text rest : List Char} {lexeme : Lexeme} {fault : ContentFault}

theorem ne_text_of_cutSymbol?_eq_none (h : cutSymbol? (c :: text) = none) (symbol : Symbol) :
    symbol.text ≠ String.ofList ((c :: text).take 2) ∧ symbol.text ≠ String.ofList [c] := by
  have ofLength_eq_none {length : Nat} (h : cutSymbol?.ofLength (c :: text) length = none) :
      symbol.text ≠ String.ofList ((c :: text).take length) := by
    unfold cutSymbol?.ofLength at h
    split at h
    . contradiction
    next hnone => exact (Symbol.ofText?_eq_none_iff.1 hnone symbol).symm
  unfold cutSymbol? at h
  split at h
  . contradiction
  next hnone => exact ⟨ofLength_eq_none hnone, ofLength_eq_none h⟩

theorem exclamation_of_cutSymbol?_eq_none (h : cutSymbol? (c :: text) = none) {symbol : Symbol}
    (hfirst : symbol.text.toList.head? = some c) : c = '!' ∧ text.head? ≠ some '=' := by
  rcases Symbol.exists_text_eq_singleton hfirst with ⟨rfl, rfl⟩ | ⟨single, hsingle⟩
  . refine ⟨rfl, ?_⟩
    intro hhead
    rcases List.head?_eq_some_iff.1 hhead with ⟨tail, rfl⟩
    exact (ne_text_of_cutSymbol?_eq_none h .notEqual).1 rfl
  . exact absurd hsingle (ne_text_of_cutSymbol?_eq_none h single).2

theorem not_accept_of_dropWhile_eq_cons {accept : Char → Bool}
    (h : text.dropWhile accept = d :: rest) : accept d = false := by
  have hhead := List.head?_dropWhile_not accept text
  rw [h] at hhead
  simpa using hhead

theorem accept_of_getLast? {accept : Char → Bool} (hc : accept c = true)
    (h : (c :: text.takeWhile accept).getLast? = some d) : accept d = true := by
  have hmem := List.mem_of_getLast? h
  rw [List.mem_cons] at hmem
  rcases hmem with rfl | hmem
  . exact hc
  . exact List.all_eq_true.1 List.all_takeWhile d hmem

theorem no_digit_last_of_cut (h : cut c text = .ok (lexeme, d :: rest))
    (hdigit : d.isDigit = true) : ∀ e ∈ lexeme.text.getLast?, e.isDigit = false := by
  -- A lexeme that ends with a digit would have taken up the next one as well.
  intro e he
  unfold cut at h
  split at h
  next hblank =>
    -- All characters of the lexeme are blank.
    rw [Except.ok.injEq, cutRun, Prod.mk.injEq] at h
    rw [← h.1] at he
    have hlast := accept_of_getLast? hblank he
    cases hdigit' : e.isDigit with
    | false => rfl
    | true =>
      rw [Text.isBlank_of_isDigit hdigit'] at hlast
      contradiction
  split at h
  next =>
    rw [Except.ok.injEq, cutRun, Prod.mk.injEq] at h
    have hfeed := not_accept_of_dropWhile_eq_cons h.2
    rw [bne_eq_false_iff_eq] at hfeed
    rw [hfeed] at hdigit
    contradiction
  split at h
  next =>
    rw [Except.ok.injEq, cutRun, Prod.mk.injEq] at h
    have hword := not_accept_of_dropWhile_eq_cons h.2
    unfold Text.isWordRest Char.isAlphanum at hword
    rw [hdigit] at hword
    simp at hword
  split at h
  next =>
    unfold cutInt at h
    dsimp only at h
    split at h
    . rw [Except.ok.injEq, Prod.mk.injEq] at h
      rw [not_accept_of_dropWhile_eq_cons h.2] at hdigit
      contradiction
    . contradiction
  split at h
  next =>
    unfold cutString at h
    dsimp only at h
    split at h
    . rw [Except.ok.injEq, Prod.mk.injEq] at h
      rw [← h.1, ← List.cons_append, List.getLast?_concat] at he
      rw [← Option.some.inj he]
      rfl
    . contradiction
  split at h
  next hsymbol =>
    rw [Except.ok.injEq] at h
    rw [h] at hsymbol
    rcases kind_eq_of_cutSymbol? hsymbol with ⟨symbol, -, hspells⟩
    dsimp only [TokenKind.Spells, TokenKind.text] at hspells
    rw [hspells] at he
    exact Symbol.no_digit_last he
  . contradiction

theorem stops_of_cut_eq_error (h : cut c text = .error fault) : fault.Stops c text := by
  have hcut := h
  unfold cut at h
  split at h
  . contradiction
  rename_i hblank
  split at h
  . contradiction
  rename_i hcomment
  split at h
  . contradiction
  rename_i hword
  split at h
  next hdigit =>
    unfold cutInt at h
    dsimp only at h
    split at h
    . contradiction
    next hvalue =>
      rw [← Except.error.inj h]
      unfold intBound at hvalue
      exact ⟨hdigit, rfl, by omega⟩
  rename_i hdigit
  split at h
  next hquote =>
    unfold cutString at h
    dsimp only at h
    split at h
    . contradiction
    . rw [hquote] at hcut
      rw [← Except.error.inj h]
      refine ⟨hquote, ?_⟩
      rintro ⟨inner, rest, rfl, hinner⟩
      rw [cut_string hinner] at hcut
      contradiction
  rename_i hquote
  split at h
  . contradiction
  next hnone =>
    rw [← Except.error.inj h]
    refine ⟨rfl, ?_⟩
    by_cases hstarts : StartsWith c
    . rcases hstarts with hstarts | hstarts | hstarts | hstarts | hstarts | ⟨symbol, hfirst⟩
      . exact absurd hstarts hblank
      . exact absurd hstarts hcomment
      . exact absurd hstarts hword
      . exact absurd hstarts hdigit
      . exact absurd hstarts hquote
      . exact .inl (exclamation_of_cutSymbol?_eq_none hnone hfirst)
    . exact .inr hstarts

theorem at_of_cut_eq_error {before : List Char} (h : cut c text = .error fault)
    (hbefore : c.isDigit = true → ∀ d ∈ before.getLast?, d.isDigit = false)
    (hfeed : '\n' ∉ text) : fault.At before c text := by
  have hstops := stops_of_cut_eq_error h
  cases fault with
  | unterminatedString =>
    refine ⟨hstops.1, ?_⟩
    intro hmem
    exact hstops.2 (Text.closes_of_mem hmem hfeed)
  | integerTooLarge digits => exact ⟨hstops.1, hbefore hstops.1, hstops.2⟩
  | unexpected d => exact hstops

end Lexeme

namespace Scan

variable {c : Char} {text rest : List Char}

theorem no_digit_last_covered (h : covered (ofText text).lexemes ++ c :: rest = text)
    (hdigit : c.isDigit = true) :
    ∀ d ∈ (covered (ofText text).lexemes).getLast?, d.isDigit = false := by
  induction text using ofText.induct with
  | case1 =>
    rw [ofText_nil] at h
    contradiction
  | case2 first text fault hcut =>
    rw [ofText_cons_of_fault hcut]
    simp [covered]
  | case3 first text lexeme left hcut ih =>
    rcases Lexeme.cut_eq_cons hcut with ⟨tail, htail, htext⟩
    have hleft : covered (ofText left).lexemes ++ c :: rest = left := by
      rw [ofText_cons_of_cut hcut, covered_cons, htail, ← htext, List.append_assoc,
        List.cons_append, List.cons.injEq, List.append_cancel_left_eq] at h
      exact h.2
    rw [ofText_cons_of_cut hcut, covered_cons]
    cases hcovered : (covered (ofText left).lexemes).getLast? with
    | none =>
      -- The lexeme is the last one.
      rw [List.getLast?_eq_none_iff] at hcovered
      rw [hcovered, List.nil_append] at hleft
      rw [← hleft] at hcut
      rw [hcovered, List.append_nil]
      exact Lexeme.no_digit_last_of_cut hcut hdigit
    | some d =>
      rw [List.getLast?_append, hcovered]
      rw [hcovered] at ih
      exact ih hleft

theorem no_digit_last_margin_append
    (h : covered (ofText (Text.body text)).lexemes ++ c :: rest = Text.body text)
    (hdigit : c.isDigit = true) :
    ∀ d ∈ (Text.margin text ++ covered (ofText (Text.body text)).lexemes).getLast?,
      d.isDigit = false := by
  intro d hd
  rw [List.getLast?_append] at hd
  cases hcovered : (covered (ofText (Text.body text)).lexemes).getLast? with
  | none =>
    rw [hcovered, Option.none_or] at hd
    have hindent : Text.isIndent d = true :=
      List.all_eq_true.1 List.all_takeWhile d (List.mem_of_getLast? hd)
    simp only [Text.isIndent, Bool.or_eq_true, beq_iff_eq] at hindent
    rcases hindent with rfl | rfl <;> rfl
  | some e =>
    rw [hcovered, Option.some_or, ← hcovered] at hd
    exact no_digit_last_covered h hdigit d hd

end Scan

open Text in
/--
The reason for which the character `c` of a line, which stands between `before` and `after`, is at
fault for an error, and the message that says so.
-/
inductive Reason (strict : Bool) (before : List Char) (c : Char) (after : List Char) :
    LexicalErrorKind → String → Prop where
  | margin {message : String} :
    ¬WellIndented (before ++ c :: after) →
    (∀ d ∈ before, isIndent d = true) → isIndent c = true →
    Indentation.Says c after message →
    Reason strict before c after .invalidIndentation message
  | step (top level : UInt32) :
    strict = true → top.toNat + 1 < level.toNat →
    WellIndented (before ++ c :: after) → level.toNat = Text.level (before ++ c :: after) →
    (∀ d ∈ before, isIndent d = true) → isIndent c = false →
    Reason strict before c after .invalidIndentation
      ("indentation may only increase by one level at a time (from " ++ top.toNat.repr ++ " to " ++
        level.toNat.repr ++ ")")
  | dedent (level : UInt32) (levels : List UInt32) :
    level ∉ levels →
    WellIndented (before ++ c :: after) → level.toNat = Text.level (before ++ c :: after) →
    (∀ d ∈ before, isIndent d = true) → isIndent c = false →
    Reason strict before c after .inconsistentDedent
      ("dedent to level " ++ level.toNat.repr ++
        " does not match any enclosing block (open levels: [" ++
        String.intercalate ", " (levels.map (·.toNat.repr)) ++ "])")
  | content (fault : ContentFault) {message : String} :
    fault.At before c after → (∀ other : ContentFault, other.At before c after → other = fault) →
    fault.Says message →
    Reason strict before c after .invalidToken message

def LexicalError.PointsInto (error : LexicalError) (strict : Bool) (text : List Char) : Prop :=
  ∃ before c after, text = before ++ c :: after ∧ error.column.toNat = before.length + 1 ∧
    Reason strict before c after error.kind error.message

theorem Levels.enter_eq_error {levels : Levels} {strict : Bool} {level : UInt32}
    {fault : LevelFault} (h : levels.enter strict level = .error fault) :
    (strict = true ∧ levels.top.toNat + 1 < level.toNat ∧ fault = .stepTooLarge levels.top level) ∨
      (level ∉ levels.toList ∧ fault = .notOpen level levels.toList) := by
  unfold enter at h
  split at h
  . contradiction
  split at h
  next hlt =>
    split at h
    next hstep =>
      have hne := (one_lt_sub_iff hlt).1 hstep.2
      rw [UInt32.lt_iff_toNat_lt] at hlt
      exact .inl ⟨hstep.1, by omega, (Except.error.inj h).symm⟩
    next => contradiction
  next =>
    dsimp only at h
    split at h
    . contradiction
    next htop =>
      rw [top_closeAbove_eq_iff] at htop
      refine .inr ⟨?_, (Except.error.inj h).symm⟩
      intro hmem
      exact htop (List.mem_map_of_mem hmem)

theorem LayoutLine.pointsInto_of_read {options : Options} {levels : Levels}
    {start stop : Position} {line : Line} {error : LexicalError} (hfeed : '\n' ∉ line.text)
    (hcolumn : start.column = 1) (hblank : line.isBlank = false)
    (hroom : start.HasRoom line.text.length (Text.byteSize line.text))
    (h : read options levels start stop line.text = .error (.rejected error)) :
    error.PointsInto options.singleStep line.text := by
  rcases read_rejected_cases hcolumn hroom h with
    ⟨hindented, before, c, after, cause, htext, hbefore, hc, hcause, hkind, hmessage, hplace⟩ |
    ⟨level, fault, hindented, hlevel, henter, hkind, hmessage, hplace⟩ |
    ⟨fault, c, rest, hrest, hcut, hkind, hmessage, hplace⟩
  . refine ⟨before, c, after, htext, by rw [hplace, Nat.add_comm], ?_⟩
    rw [hkind, hmessage]
    rw [htext] at hindented
    exact .margin hindented hbefore hc (Indentation.says_message hcause)
  . rcases Line.exists_margin_append hblank with ⟨c, rest, htext, hmargin, hc⟩
    refine ⟨_, c, rest, htext, hplace, ?_⟩
    rw [hkind, hmessage]
    rw [htext] at hindented hlevel
    rcases Levels.enter_eq_error henter with ⟨hstrict, hlt, rfl⟩ | ⟨hlevels, rfl⟩
    . exact .step levels.top level hstrict hlt hindented hlevel hmargin hc
    . exact .dedent level levels.toList hlevels hindented hlevel hmargin hc
  . have htext : line.text = Text.margin line.text ++
        Scan.covered (Scan.ofText (Text.body line.text)).lexemes ++ c :: rest := by
      rw [List.append_assoc, hrest, Text.margin_append_body]
    rw [htext, List.mem_append, not_or, List.mem_cons, not_or] at hfeed
    refine ⟨_, c, rest, htext, ?_, ?_⟩
    . rw [hplace, List.length_append]
      omega
    . have hat :=
        Lexeme.at_of_cut_eq_error hcut (Scan.no_digit_last_margin_append hrest) hfeed.2.2
      rw [hkind, hmessage]
      exact .content fault hat (fun other hother => hat.unique hother) fault.says_message

theorem Cursor.pointsInto_of_step {options : Options} {cursor : Cursor} {front back : List Line}
    {line : Line} {error : LexicalError} (hpast : cursor.Past front)
    (hrange : Line.InRange (front ++ [line])) (hbetween : Line.Between front line back)
    (h : cursor.step options line = .error (.rejected error)) :
    error.line.toNat = front.length + 1 ∧ line.isBlank = false ∧
      error.PointsInto options.singleStep line.text := by
  rcases step_eq_rejected h with ⟨hblank, passed, hpassed, hread⟩
  rcases pass_of_inRange hpast hrange with ⟨next, hnext, -, -, -, hroom⟩
  rw [hpassed, Except.ok.injEq] at hnext
  rw [← hnext] at hroom
  exact ⟨(blames_of_step hpast hrange h).1, hblank,
    LayoutLine.pointsInto_of_read hbetween.no_feed rfl hblank hroom hread⟩

/--
The error of a source points at a character of a line that is not blank, and this character explains
it.
-/
theorem TokenStream.errors_point_at_reasons (source : String) (options : Options)
    (hsize : source.utf8ByteSize ≤ 2 ^ 32 - 2) :
    ∃ stream, ofSource source options = .ok stream ∧
      ∀ error, stream.failure = some error →
        ∃ front line back before c after,
          Line.ofText source.toList = front ++ line :: back ∧
          error.line.toNat = front.length + 1 ∧
          line.isBlank = false ∧
          line.text = before ++ c :: after ∧
          error.column.toNat = before.length + 1 ∧
          Reason options.singleStep before c after error.kind error.message := by
  rcases @Run.exists_ofSource_eq_ok options source hsize with ⟨stream, hstream, -⟩
  refine ⟨stream, hstream, ?_⟩
  intro error hfailure
  have hrange := Line.inRange_ofSource hsize
  rcases Run.ofSource_eq_ok hstream with
    ⟨hnone, -⟩ | ⟨other, front, line, back, cursor, hsome, hlines, hreached, hstep, -⟩
  . rw [hnone] at hfailure
    contradiction
  . rw [hfailure, Option.some.injEq] at hsome
    rw [← hsome] at hstep
    have hbetween := Line.between_of_ofText hlines
    rw [hlines, List.append_cons] at hrange
    have hpast := hreached.past hrange.of_append.of_append
    rcases Cursor.pointsInto_of_step hpast hrange.of_append hbetween hstep with
      ⟨hnumber, hblank, before, c, after, htext, hcolumn, hreason⟩
    exact ⟨front, line, back, before, c, after, hlines, hnumber, hblank, htext, hcolumn, hreason⟩

theorem TokenStream.errors_point_at_reasons_large_number :
    "a\n\tb 9223372036854775808+\n".utf8ByteSize ≤ 2 ^ 32 - 2 ∧
    ∃ stream, ofSource "a\n\tb 9223372036854775808+\n" { singleStep := true } = .ok stream ∧
      stream.failure = some ⟨.invalidToken, 2, 4,
        "integer literal 9223372036854775808 does not fit in 64 bits"⟩ ∧
      ∃ front line back before c after,
        Line.ofText "a\n\tb 9223372036854775808+\n".toList = front ++ line :: back ∧
        2 = front.length + 1 ∧
        line.isBlank = false ∧
        line.text = before ++ c :: after ∧
        4 = before.length + 1 ∧
        Reason true before c after .invalidToken
          "integer literal 9223372036854775808 does not fit in 64 bits" := by
  have hsize : "a\n\tb 9223372036854775808+\n".utf8ByteSize ≤ 2 ^ 32 - 2 := by decide
  rcases errors_point_at_reasons "a\n\tb 9223372036854775808+\n" { singleStep := true } hsize with
    ⟨stream, hstream, hreasons⟩
  have hfails : (ofSource "a\n\tb 9223372036854775808+\n" { singleStep := true }).toOption.map
      (·.failure) = some (some ⟨.invalidToken, 2, 4,
        "integer literal 9223372036854775808 does not fit in 64 bits"⟩) := by
    decide +kernel
  rw [hstream] at hfails
  have hfailure := Option.some.inj hfails
  exact ⟨hsize, stream, hstream, hfailure, hreasons _ hfailure⟩

end Offside
