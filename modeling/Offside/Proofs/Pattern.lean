import Offside.Proofs.Reason

/-!
This module contains the patterns of the grammar. The token that is cut off a text is the longest
beginning of the text that matches a pattern, and such a beginning is cut off if it denotes a token.
-/

namespace Offside

/--
The patterns that are looked for at a place of a text. What matches one of the first two is skipped.
-/
inductive Pattern where
  | blanks
  | comment
  | keyword (word : Keyword)
  | name
  | digits
  | quoted
  | symbol (sign : Symbol)

def Pattern.Matches : Pattern → List Char → Prop
  | .blanks, body => body ≠ [] ∧ ∀ c ∈ body, Text.isBlank c = true
  | .comment, body => ∃ remark, body = '#' :: remark ∧ '\n' ∉ remark
  | .keyword word, body => body = word.text.toList
  | .name, body => Text.IsWord body
  | .digits, body => body ≠ [] ∧ ∀ c ∈ body, c.isDigit = true
  | .quoted, body => ∃ inner, body = '"' :: (inner ++ ['"']) ∧ ∀ c ∈ inner, c ≠ '"' ∧ c ≠ '\n'
  | .symbol sign, body => body = sign.text.toList

theorem Pattern.Matches.ne_nil {pattern : Pattern} {body : List Char} (h : pattern.Matches body) :
    body ≠ [] := by
  rintro rfl
  cases pattern with
  | blanks => exact h.1 rfl
  | comment =>
    rcases h with ⟨remark, hremark, -⟩
    contradiction
  | keyword word => cases word <;> contradiction
  | name => exact h
  | digits => exact h.1 rfl
  | quoted =>
    rcases h with ⟨inner, hinner, -⟩
    contradiction
  | symbol sign => cases sign <;> contradiction

structure Pattern.Longest (body text : List Char) : Prop where
  begins : body <+: text
  exists_matches : ∃ pattern : Pattern, pattern.Matches body
  length_le : ∀ (pattern : Pattern) (other : List Char),
    pattern.Matches other → other <+: text → other.length ≤ body.length

/--
The token that a text is: a keyword if the text is exactly that, a name for any other word, an
integer for digits whose value fits 64 bits, a string for what stands between quotes, or a symbol.
-/
inductive Text.Denotes : List Char → TokenKind → Prop where
  | keyword (word : Keyword) : Denotes word.text.toList (.keyword word)
  | name {body : List Char} :
    IsWord body → (∀ word : Keyword, body ≠ word.text.toList) →
    Denotes body (.ident (String.ofList body))
  | int {body : List Char} {value : Int64} :
    body ≠ [] → (∀ c ∈ body, c.isDigit = true) → Nat.ofDigitChars 10 body 0 ≤ 2 ^ 63 - 1 →
    value.toInt = Nat.ofDigitChars 10 body 0 →
    Denotes body (.int value)
  | string {inner : List Char} :
    (∀ c ∈ inner, c ≠ '"' ∧ c ≠ '\n') →
    Denotes ('"' :: (inner ++ ['"'])) (.string (String.ofList inner))
  | symbol (sign : Symbol) : Denotes sign.text.toList (.symbol sign)

theorem Keyword.isWord_text (word : Keyword) : Text.IsWord word.text.toList := by
  cases word <;> decide

theorem Symbol.ofText?_text (sign : Symbol) : ofText? sign.text = some sign := by
  cases sign <;> decide

theorem Symbol.length_text (sign : Symbol) :
    sign.text.toList.length = 1 ∨ sign.text.toList.length = 2 := by
  cases sign <;> decide

namespace Text

variable {body : List Char} {kind : TokenKind}

theorem denotes_of_spells (hlayout : kind.isLayout = false) (hspelled : kind.WellSpelled)
    (hspells : kind.Spells body) : Denotes body kind := by
  cases kind with
  | keyword word =>
    rw [show body = word.text.toList from hspells]
    exact .keyword word
  | symbol sign =>
    rw [show body = sign.text.toList from hspells]
    exact .symbol sign
  | int value =>
    have hlt := value.toInt_lt
    rcases hspells with ⟨hne, hdigits, hvalue⟩
    exact .int hne hdigits (by omega) hvalue
  | string text =>
    have hbody : body = '"' :: (text.toList ++ ['"']) := by
      rw [show body = ("\"" ++ text ++ "\"").toList from hspells]
      simp
    have hdenotes := Denotes.string hspelled
    rw [String.ofList_toList, ← hbody] at hdenotes
    exact hdenotes
  | ident name =>
    rw [show body = name.toList from hspells]
    have hdenotes : Denotes name.toList (.ident (String.ofList name.toList)) := by
      apply Denotes.name hspelled.1
      intro word heq
      exact hspelled.2 word (String.toList_inj.1 heq)
    rw [String.ofList_toList] at hdenotes
    exact hdenotes
  | newline => contradiction
  | indent => contradiction
  | dedent => contradiction
  | eof => contradiction

theorem Denotes.forms (h : Denotes body kind) :
    IsWord body ∨ (body ≠ [] ∧ ∀ c ∈ body, c.isDigit = true) ∨
      (∃ inner, body = '"' :: (inner ++ ['"']) ∧ ∀ c ∈ inner, c ≠ '"' ∧ c ≠ '\n') ∨
      ∃ sign : Symbol, body = sign.text.toList := by
  cases h with
  | keyword word => exact .inl word.isWord_text
  | name hword _ => exact .inl hword
  | int hne hdigits _ _ => exact .inr (.inl ⟨hne, hdigits⟩)
  | string hinner => exact .inr (.inr (.inl ⟨_, rfl, hinner⟩))
  | symbol sign => exact .inr (.inr (.inr ⟨sign, rfl⟩))

theorem Denotes.exists_matches (h : Denotes body kind) :
    ∃ pattern : Pattern, pattern.Matches body := by
  cases h with
  | keyword word => exact ⟨.keyword word, rfl⟩
  | name hword _ => exact ⟨.name, hword⟩
  | int hne hdigits _ _ => exact ⟨.digits, hne, hdigits⟩
  | string hinner => exact ⟨.quoted, _, rfl, hinner⟩
  | symbol sign => exact ⟨.symbol sign, rfl⟩

end Text

namespace Lexeme

variable {c : Char} {text rest body : List Char} {lexeme : Lexeme} {kind : TokenKind}

theorem cut_number_sign (text : List Char) :
    cut '#' text = .ok (cutRun (fun _ => none) (· != '\n') '#' text) := by
  rw [cut, if_neg (by decide), if_pos rfl]

theorem cut_of_symbol {sign : Symbol} {tail : List Char} (hsign : sign.text.toList = c :: tail)
    {result : Lexeme × List Char} (h : cutSymbol? (c :: text) = some result) :
    cut c text = .ok result := by
  have hstart : Text.isBlank c = false ∧ c ≠ '#' ∧ Text.isWordStart c = false ∧
      c.isDigit = false ∧ c ≠ '"' := by
    have hhead : c ∈ sign.text.toList.head? := by
      rw [hsign]
      exact rfl
    revert hhead
    cases sign <;> rintro ⟨⟩ <;> decide
  rcases hstart with ⟨hblank, hnumber, hword, hdigit, hquote⟩
  rw [cut, hblank, if_neg Bool.false_ne_true, if_neg hnumber, hword, if_neg Bool.false_ne_true,
    hdigit, if_neg Bool.false_ne_true, if_neg hquote, h]

section Symbols

variable {sign : Symbol} {text rest : List Char} {length : Nat}

theorem ofLength_of_take_eq (h : text.take length = sign.text.toList) :
    cutSymbol?.ofLength text length =
      some (⟨some (.symbol sign), sign.text.toList⟩, text.drop length) := by
  unfold cutSymbol?.ofLength
  rw [h, String.ofList_toList, Symbol.ofText?_text]

theorem take_eq_of_ofLength {result : Lexeme × List Char}
    (h : cutSymbol?.ofLength text length = some result) :
    ∃ other : Symbol, other.text.toList = text.take length := by
  unfold cutSymbol?.ofLength at h
  split at h
  next other hother =>
    refine ⟨other, ?_⟩
    rw [Symbol.text_of_ofText?_eq_some hother, String.toList_ofList]
  . contradiction

theorem cutSymbol?_of_longest
    (hlongest : ∀ other : Symbol, other.text.toList <+: sign.text.toList ++ rest →
      other.text.toList.length ≤ sign.text.toList.length) :
    cutSymbol? (sign.text.toList ++ rest) =
      some (⟨some (.symbol sign), sign.text.toList⟩, rest) := by
  have hcut : cutSymbol?.ofLength (sign.text.toList ++ rest) sign.text.toList.length =
      some (⟨some (.symbol sign), sign.text.toList⟩, rest) := by
    rw [ofLength_of_take_eq (List.take_left' rfl), List.drop_left' rfl]
  unfold cutSymbol?
  rcases sign.length_text with hone | htwo
  . cases hpair : cutSymbol?.ofLength (sign.text.toList ++ rest) 2 with
    | none =>
      dsimp only
      rw [← hone, hcut]
    | some result =>
      rcases take_eq_of_ofLength hpair with ⟨other, hother⟩
      have hle := hlongest other (hother ▸ List.take_prefix 2 _)
      rw [hother, hone, List.length_take, List.length_append, hone] at hle
      -- The two characters are one, the last of the text.
      have hnil : rest = [] := List.length_eq_zero_iff.1 (by omega)
      have htake : (sign.text.toList ++ rest).take 2 = sign.text.toList := by
        rw [hnil, List.append_nil, List.take_of_length_le (by omega)]
      have hdrop : (sign.text.toList ++ rest).drop 2 = rest := by
        rw [hnil, List.append_nil, List.drop_of_length_le (by omega)]
      rw [ofLength_of_take_eq htake, hdrop] at hpair
      exact hpair.symm
  . rw [← htwo, hcut]

end Symbols

section Runs

variable {accept : Char → Bool} {tail rest : List Char}

theorem length_le_takeWhile (htail : ∀ d ∈ tail, accept d = true) :
    tail.length ≤ ((tail ++ rest).takeWhile accept).length := by
  rw [List.takeWhile_append_of_pos htail, List.length_append]
  omega

theorem takeWhile_eq_of_length_le (htail : ∀ d ∈ tail, accept d = true)
    (hle : ((tail ++ rest).takeWhile accept).length ≤ tail.length) :
    (tail ++ rest).takeWhile accept = tail := by
  rw [List.takeWhile_append_of_pos htail, List.length_append] at hle
  have hnil : rest.takeWhile accept = [] := List.length_eq_zero_iff.1 (by omega)
  rw [List.takeWhile_append_of_pos htail, hnil, List.append_nil]

theorem dropWhile_eq_of_takeWhile_eq (h : (tail ++ rest).takeWhile accept = tail) :
    (tail ++ rest).dropWhile accept = rest := by
  have happend := List.takeWhile_append_dropWhile (p := accept) (l := tail ++ rest)
  rw [h, List.append_cancel_left_eq] at happend
  exact happend

end Runs

theorem length_le_of_cut {pattern : Pattern} (hcut : cut c text = .ok (lexeme, rest))
    (hmatches : pattern.Matches body) (hbody : body <+: c :: text) :
    body.length ≤ lexeme.text.length := by
  rcases hbody with ⟨back, hback⟩
  rcases List.exists_cons_of_ne_nil hmatches.ne_nil with ⟨first, tail, rfl⟩
  rw [List.cons_append, List.cons.injEq] at hback
  rcases hback with ⟨rfl, rfl⟩
  have length_le_run {kind : List Char → Option TokenKind} {accept : Char → Bool}
      (hrun : cut first (tail ++ back) = .ok (cutRun kind accept first (tail ++ back)))
      (htail : ∀ d ∈ tail, accept d = true) : (first :: tail).length ≤ lexeme.text.length := by
    rw [hcut, Except.ok.injEq, cutRun, Prod.mk.injEq] at hrun
    rw [hrun.1]
    exact Nat.succ_le_succ (length_le_takeWhile htail)
  have length_le_word (hword : Text.IsWord (first :: tail)) :
      (first :: tail).length ≤ lexeme.text.length :=
    length_le_run (cut_of_isWordStart hword.1 _) hword.2
  cases pattern with
  | blanks =>
    have hblank := List.forall_mem_cons.1 hmatches.2
    exact length_le_run (cut_of_isBlank hblank.1 _) hblank.2
  | comment =>
    rcases hmatches with ⟨remark, hremark, hfeed⟩
    rw [List.cons.injEq] at hremark
    rcases hremark with ⟨rfl, rfl⟩
    apply length_le_run (cut_number_sign _)
    intro d hmem
    rw [bne_iff_ne]
    rintro rfl
    exact hfeed hmem
  | keyword word =>
    apply length_le_word
    rw [show first :: tail = word.text.toList from hmatches]
    exact word.isWord_text
  | name => exact length_le_word hmatches
  | digits =>
    have hdigits := List.forall_mem_cons.1 hmatches.2
    rw [cut_of_isDigit hdigits.1] at hcut
    unfold cutInt at hcut
    dsimp only at hcut
    split at hcut
    . rw [Except.ok.injEq, Prod.mk.injEq] at hcut
      rw [← hcut.1]
      exact Nat.succ_le_succ (length_le_takeWhile hdigits.2)
    . contradiction
  | quoted =>
    rcases hmatches with ⟨inner, hquoted, hinner⟩
    rw [List.cons.injEq] at hquoted
    rcases hquoted with ⟨rfl, rfl⟩
    rw [List.append_assoc, List.singleton_append, cut_string hinner, Except.ok.injEq,
      Prod.mk.injEq] at hcut
    rw [← hcut.1]
  | symbol sign =>
    have hsign : sign.text.toList = first :: tail := hmatches.symm
    rw [← hsign]
    rcases sign.length_text with hone | htwo
    . rcases cut_eq_cons hcut with ⟨others, htext, -⟩
      rw [hone, htext, List.length_cons]
      omega
    . -- The two characters are cut off as they are.
      have htake : (first :: (tail ++ back)).take 2 = sign.text.toList := by
        rw [← List.cons_append, ← hsign, List.take_left' htwo]
      have hpair : cutSymbol? (first :: (tail ++ back)) =
          some (⟨some (.symbol sign), sign.text.toList⟩, (first :: (tail ++ back)).drop 2) := by
        unfold cutSymbol?
        rw [ofLength_of_take_eq htake]
      rw [cut_of_symbol hsign hpair, Except.ok.injEq, Prod.mk.injEq] at hcut
      rw [← hcut.1]

theorem denotes_of_cut (h : cut c text = .ok (lexeme, rest)) (hkind : lexeme.kind = some kind) :
    Text.Denotes lexeme.text kind := by
  rcases spelled_of_cut h hkind with ⟨hlayout, hspelled, hspells⟩
  exact Text.denotes_of_spells hlayout hspelled hspells

theorem longest_of_cut (h : cut c text = .ok (lexeme, rest)) (hkind : lexeme.kind = some kind) :
    Pattern.Longest lexeme.text (c :: text) := by
  constructor
  . rcases cut_eq_cons h with ⟨tail, htail, htext⟩
    rw [htail, ← htext]
    exact ⟨rest, rfl⟩
  . exact (denotes_of_cut h hkind).exists_matches
  . intro pattern other hmatches hother
    exact length_le_of_cut h hmatches hother

theorem cut_of_longest {tail : List Char}
    (hlongest : Pattern.Longest (c :: tail) (c :: tail ++ rest))
    (hdenotes : Text.Denotes (c :: tail) kind) :
    cut c (tail ++ rest) = .ok (⟨some kind, c :: tail⟩, rest) := by
  -- A word goes on as long as there are characters of words.
  have cut_word (hword : Text.IsWord (c :: tail)) : cut c (tail ++ rest) =
      .ok (⟨some (wordKind (c :: tail)), c :: tail⟩, rest) := by
    have hle := hlongest.length_le .name (c :: (tail ++ rest).takeWhile Text.isWordRest)
      ⟨hword.1, List.all_eq_true.1 List.all_takeWhile⟩
      ((List.prefix_cons_inj c).2 (List.takeWhile_prefix _))
    have htake := takeWhile_eq_of_length_le hword.2 (Nat.le_of_succ_le_succ hle)
    rw [cut_of_isWordStart hword.1, cutRun, htake, dropWhile_eq_of_takeWhile_eq htake]
  generalize hbody : c :: tail = body at hdenotes
  cases hdenotes with
  | keyword word =>
    rw [cut_word (hbody ▸ word.isWord_text), hbody, wordKind, String.ofList_toList,
      Keyword.ofText?_text]
  | name hword hkeyword =>
    have hnone : Keyword.ofText? (String.ofList body) = none := by
      rw [Keyword.ofText?_eq_none_iff]
      intro word heq
      apply hkeyword word
      rw [← heq, String.toList_ofList]
    rw [cut_word (hbody ▸ hword), hbody, wordKind, hnone]
  | @int _ value hne hdigits hle hvalue =>
    subst hbody
    rw [List.forall_mem_cons] at hdigits
    have hlength := hlongest.length_le .digits (c :: (tail ++ rest).takeWhile Char.isDigit)
      ⟨List.cons_ne_nil _ _, List.forall_mem_cons.2
        ⟨hdigits.1, List.all_eq_true.1 List.all_takeWhile⟩⟩
      ((List.prefix_cons_inj c).2 (List.takeWhile_prefix _))
    have htake := takeWhile_eq_of_length_le hdigits.2 (Nat.le_of_succ_le_succ hlength)
    have hlt : Nat.ofDigitChars 10 (c :: tail) 0 < intBound := by
      unfold intBound
      omega
    have hback : Int64.ofNat (Nat.ofDigitChars 10 (c :: tail) 0) = value := by
      rw [← Int64.toInt_inj, toInt_ofNat_of_lt hlt, hvalue]
    rw [cut_of_isDigit hdigits.1, cutInt, htake, dropWhile_eq_of_takeWhile_eq htake,
      if_pos hlt, hback]
  | @string inner hinner =>
    rw [List.cons.injEq] at hbody
    rcases hbody with ⟨rfl, rfl⟩
    rw [List.append_assoc, List.singleton_append, cut_string hinner]
  | symbol sign =>
    have hcut : cutSymbol? (sign.text.toList ++ rest) =
        some (⟨some (.symbol sign), sign.text.toList⟩, rest) := by
      apply cutSymbol?_of_longest
      intro other hother
      rw [← hbody] at hother ⊢
      exact hlongest.length_le (.symbol other) _ rfl hother
    rw [← hbody, List.cons_append] at hcut
    rw [cut_of_symbol hbody.symm hcut, hbody]

end Lexeme

end Offside
