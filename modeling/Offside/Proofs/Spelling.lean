import Offside.Proofs.Scan

/-!
This module contains the correspondence of the kinds of tokens and their texts. A lexeme that is cut
off a text carries values that can be spelled, and a kind with such values is cut off its own text.
-/

namespace Offside

namespace Text

def IsWord : List Char → Prop
  | [] => False
  | first :: rest => isWordStart first = true ∧ ∀ c ∈ rest, isWordRest c = true

instance : DecidablePred IsWord
  | [] => inferInstanceAs (Decidable False)
  | _ :: _ => @instDecidableAnd _ _ inferInstance (List.decidableBAll _ _)

def Parted (text : List Char) : Prop :=
  ∀ c, text.head? = some c → c = ' '

variable {accept : Char → Bool} {body rest : List Char}

theorem parted_nil : Parted [] := by
  intro c hc
  contradiction

theorem takeWhile_append_of_head? (hbody : ∀ c ∈ body, accept c = true)
    (hrest : ∀ c ∈ rest.head?, accept c = false) : (body ++ rest).takeWhile accept = body := by
  rw [List.takeWhile_append_of_pos hbody]
  cases rest with
  | nil => apply List.append_nil
  | cons c rest => simp [hrest c rfl]

theorem dropWhile_append_of_head? (hbody : ∀ c ∈ body, accept c = true)
    (hrest : ∀ c ∈ rest.head?, accept c = false) : (body ++ rest).dropWhile accept = rest := by
  rw [List.dropWhile_append_of_pos hbody]
  cases rest with
  | nil => rfl
  | cons c rest => simp [hrest c rfl]

theorem Parted.head? (h : Parted rest) (hspace : accept ' ' = false) :
    ∀ c ∈ rest.head?, accept c = false := by
  intro c hc
  rw [h c hc]
  exact hspace

theorem isBlank_of_isWordStart {c : Char} (h : isWordStart c = true) : isBlank c = false := by
  rw [Bool.eq_false_iff]
  intro hblank
  simp only [isBlank, Bool.or_eq_true, beq_iff_eq] at hblank
  rcases hblank with ((rfl | rfl) | rfl) | rfl
  all_goals revert h; decide

theorem isWordStart_of_isDigit {c : Char} (h : c.isDigit = true) : isWordStart c = false := by
  -- The codes of digits lie below those of letters.
  rw [Bool.eq_false_iff]
  intro hword
  change (decide (48 ≤ c.val) && decide (c.val ≤ 57)) = true at h
  change ((decide (65 ≤ c.val ∧ c.val ≤ 90) ||
    decide (97 ≤ c.val) && decide (c.val ≤ 122)) || c == '_') = true at hword
  simp only [Bool.or_eq_true, Bool.and_eq_true, decide_eq_true_eq, beq_iff_eq,
    UInt32.le_iff_toNat_le, UInt32.reduceToNat] at h hword
  rcases hword with (hupper | hlower) | rfl
  . omega
  . omega
  . simp at h

theorem isBlank_of_isDigit {c : Char} (h : c.isDigit = true) : isBlank c = false := by
  rw [Bool.eq_false_iff]
  intro hblank
  simp only [isBlank, Bool.or_eq_true, beq_iff_eq] at hblank
  rcases hblank with ((rfl | rfl) | rfl) | rfl
  all_goals revert h; decide

end Text

namespace TokenKind

/--
Whether the value that a kind carries is one that a source can give it: no negative number, no quote
or line feed in a string, and for a name a word that is no keyword.
-/
def WellSpelled : TokenKind → Prop
  | .int value => 0 ≤ value.toInt
  | .string text => ∀ c ∈ text.toList, c ≠ '"' ∧ c ≠ '\n'
  | .ident name => Text.IsWord name.toList ∧ ∀ keyword : Keyword, name ≠ keyword.text
  | _ => True

/--
Whether a token of this kind can stand for a text in a source: an integer for any digits that have
its value, any other kind for its own spelling.
-/
def Spells : TokenKind → List Char → Prop
  | .int value, text =>
    text ≠ [] ∧ (∀ c ∈ text, c.isDigit = true) ∧ value.toInt = Nat.ofDigitChars 10 text 0
  | kind, text => text = kind.text.toList

end TokenKind

theorem Keyword.text_of_ofText?_eq_some {word : String} {keyword : Keyword}
    (h : ofText? word = some keyword) : keyword.text = word := by
  have := List.find?_some h
  simpa using this

theorem Symbol.text_of_ofText?_eq_some {text : String} {symbol : Symbol}
    (h : ofText? text = some symbol) : symbol.text = text := by
  have := List.find?_some h
  simpa using this

theorem Keyword.ofText?_text (keyword : Keyword) : ofText? keyword.text = some keyword := by
  cases keyword <;> decide

theorem Keyword.ofText?_eq_none_iff {word : String} :
    ofText? word = none ↔ ∀ keyword : Keyword, word ≠ keyword.text := by
  unfold ofText?
  rw [List.find?_eq_none]
  constructor
  . intro h keyword heq
    have := h keyword keyword.mem_all
    simp [heq] at this
  . intro h keyword _ heq
    rw [beq_iff_eq] at heq
    exact h keyword heq.symm

namespace Lexeme

theorem toInt_ofNat_of_lt {value : Nat} (h : value < intBound) :
    (Int64.ofNat value).toInt = value := by
  unfold intBound at h
  rw [← Int64.ofInt_eq_ofNat, Int64.toInt_ofInt_of_le (by omega) (by omega)]

theorem spells_wordKind (word : List Char) : (wordKind word).Spells word := by
  unfold wordKind
  split
  next keyword hkeyword =>
    change word = keyword.text.toList
    rw [Keyword.text_of_ofText?_eq_some hkeyword, String.toList_ofList]
  next => exact (String.toList_ofList).symm

theorem wellSpelled_wordKind {c : Char} {text : List Char} (h : Text.isWordStart c = true) :
    (wordKind (c :: text.takeWhile Text.isWordRest)).isLayout = false ∧
      (wordKind (c :: text.takeWhile Text.isWordRest)).WellSpelled := by
  unfold wordKind
  split
  . exact ⟨rfl, trivial⟩
  next hnone =>
    refine ⟨rfl, ?_, Keyword.ofText?_eq_none_iff.1 hnone⟩
    rw [String.toList_ofList]
    exact ⟨h, List.all_eq_true.1 List.all_takeWhile⟩

variable {c : Char} {text rest : List Char} {lexeme : Lexeme} {kind : TokenKind}

theorem kind_eq_of_cutInt (hdigit : c.isDigit = true) (h : cutInt c text = .ok (lexeme, rest)) :
    ∃ value, lexeme.kind = some (.int value) ∧ 0 ≤ value.toInt ∧
      TokenKind.Spells (.int value) lexeme.text := by
  unfold cutInt at h
  dsimp at h
  split at h
  next hlt =>
    rw [Except.ok.injEq, Prod.mk.injEq] at h
    rw [← h.1]
    have hvalue := toInt_ofNat_of_lt hlt
    refine ⟨_, rfl, ?_, List.cons_ne_nil c _, ?_, hvalue⟩
    . rw [hvalue]
      apply Int.natCast_nonneg
    . rw [List.forall_mem_cons]
      exact ⟨hdigit, List.all_eq_true.1 List.all_takeWhile⟩
  . contradiction

theorem kind_eq_of_cutString (h : cutString text = .ok (lexeme, rest)) :
    ∃ body, lexeme.kind = some (.string body) ∧ (∀ c ∈ body.toList, c ≠ '"' ∧ c ≠ '\n') ∧
      TokenKind.Spells (.string body) lexeme.text := by
  unfold cutString at h
  dsimp at h
  split at h
  . rw [Except.ok.injEq, Prod.mk.injEq] at h
    rw [← h.1]
    refine ⟨_, rfl, ?_, ?_⟩
    . intro c hmem
      rw [String.toList_ofList] at hmem
      have := List.all_eq_true.1 List.all_takeWhile c hmem
      simpa [Text.isQuotable] using this
    . simp [TokenKind.Spells, TokenKind.text]
  . contradiction

theorem kind_eq_of_cutSymbol? {result : Lexeme × List Char} (h : cutSymbol? text = some result) :
    ∃ symbol, result.1.kind = some (.symbol symbol) ∧
      TokenKind.Spells (.symbol symbol) result.1.text := by
  have kind_eq_of_ofLength (length : Nat) (h : cutSymbol?.ofLength text length = some result) :
      ∃ symbol, result.1.kind = some (.symbol symbol) ∧
        TokenKind.Spells (.symbol symbol) result.1.text := by
    unfold cutSymbol?.ofLength at h
    split at h
    next symbol hsymbol =>
      rw [Option.some.injEq] at h
      rw [← h]
      refine ⟨symbol, rfl, ?_⟩
      change text.take length = symbol.text.toList
      rw [Symbol.text_of_ofText?_eq_some hsymbol, String.toList_ofList]
    . contradiction
  unfold cutSymbol? at h
  split at h
  next heq =>
    rw [h] at heq
    exact kind_eq_of_ofLength 2 heq
  next => exact kind_eq_of_ofLength 1 h

theorem spelled_of_cut (h : cut c text = .ok (lexeme, rest)) (hkind : lexeme.kind = some kind) :
    kind.isLayout = false ∧ kind.WellSpelled ∧ kind.Spells lexeme.text := by
  unfold cut at h
  split at h
  . rw [Except.ok.injEq, Prod.mk.injEq] at h
    rw [← h.1] at hkind
    contradiction
  split at h
  . rw [Except.ok.injEq, Prod.mk.injEq] at h
    rw [← h.1] at hkind
    contradiction
  split at h
  next hword =>
    rw [Except.ok.injEq, Prod.mk.injEq] at h
    rw [← h.1, cutRun, Option.some.injEq] at hkind
    rw [← hkind, ← h.1]
    exact ⟨(wellSpelled_wordKind hword).1, (wellSpelled_wordKind hword).2, spells_wordKind _⟩
  split at h
  next hdigit =>
    rcases kind_eq_of_cutInt hdigit h with ⟨value, hvalue, hnonneg, hspells⟩
    rw [hvalue, Option.some.injEq] at hkind
    rw [← hkind]
    exact ⟨rfl, hnonneg, hspells⟩
  split at h
  . rcases kind_eq_of_cutString h with ⟨body, hbody, hquotable, hspells⟩
    rw [hbody, Option.some.injEq] at hkind
    rw [← hkind]
    exact ⟨rfl, hquotable, hspells⟩
  split at h
  next hsymbol =>
    rw [Except.ok.injEq] at h
    rcases kind_eq_of_cutSymbol? hsymbol with ⟨symbol, heq, hspells⟩
    rw [h] at heq hspells
    rw [hkind, Option.some.injEq] at heq
    rw [heq]
    exact ⟨rfl, trivial, hspells⟩
  . contradiction

theorem cut_of_isBlank (hblank : Text.isBlank c = true) (text : List Char) :
    cut c text = .ok (cutRun (fun _ => none) Text.isBlank c text) := by
  rw [cut, if_pos hblank]

theorem cut_of_isWordStart (hword : Text.isWordStart c = true) (text : List Char) :
    cut c text = .ok (cutRun (fun word => some (wordKind word)) Text.isWordRest c text) := by
  have hsign : c ≠ '#' := by
    rintro rfl
    contradiction
  rw [cut, Text.isBlank_of_isWordStart hword, if_neg Bool.false_ne_true, if_neg hsign, if_pos hword]

theorem cut_of_isDigit (hdigit : c.isDigit = true) (text : List Char) :
    cut c text = cutInt c text := by
  have hsign : c ≠ '#' := by
    rintro rfl
    contradiction
  rw [cut, Text.isBlank_of_isDigit hdigit, if_neg Bool.false_ne_true, if_neg hsign,
    Text.isWordStart_of_isDigit hdigit, if_neg Bool.false_ne_true, if_pos hdigit]

theorem cut_quote (text : List Char) : cut '"' text = cutString text := by
  rw [cut, if_neg (by decide), if_neg (by decide), if_neg (by decide), if_neg (by decide),
    if_pos rfl]

theorem cut_word (hword : Text.IsWord (c :: text)) (hrest : Text.Parted rest) :
    cut c (text ++ rest) = .ok (⟨some (wordKind (c :: text)), c :: text⟩, rest) := by
  have hhead := @Text.Parted.head? Text.isWordRest _ hrest rfl
  rw [cut_of_isWordStart hword.1, cutRun, Text.takeWhile_append_of_head? hword.2 hhead,
    Text.dropWhile_append_of_head? hword.2 hhead]

theorem cut_int {value : Nat} (hvalue : value < intBound) (hrest : Text.Parted rest)
    (hdigits : Nat.toDigits 10 value = c :: text) :
    cut c (text ++ rest) = .ok (⟨some (.int (.ofNat value)), c :: text⟩, rest) := by
  have hall : ∀ d ∈ c :: text, d.isDigit = true := by
    intro d hmem
    rw [← hdigits] at hmem
    apply Nat.isDigit_of_mem_toDigits (by decide) (by decide) hmem
  rw [List.forall_mem_cons] at hall
  have hhead := @Text.Parted.head? Char.isDigit _ hrest rfl
  have hback : Nat.ofDigitChars 10 (c :: text) 0 = value := by
    rw [← hdigits]
    apply Nat.ofDigitChars_ten_toDigits
  rw [cut_of_isDigit hall.1, cutInt, Text.takeWhile_append_of_head? hall.2 hhead,
    Text.dropWhile_append_of_head? hall.2 hhead, hback, if_pos hvalue]

theorem cut_string {body : List Char} (hbody : ∀ c ∈ body, c ≠ '"' ∧ c ≠ '\n') :
    cut '"' (body ++ '"' :: rest) =
      .ok (⟨some (.string (String.ofList body)), '"' :: (body ++ ['"'])⟩, rest) := by
  have hquotable : ∀ c ∈ body, Text.isQuotable c = true := by
    intro c hmem
    simpa [Text.isQuotable] using hbody c hmem
  have htake : (body ++ '"' :: rest).takeWhile Text.isQuotable = body := by
    rw [List.takeWhile_append_of_pos hquotable, List.takeWhile_cons_of_neg (by decide),
      List.append_nil]
  have hdrop : (body ++ '"' :: rest).dropWhile Text.isQuotable = '"' :: rest := by
    rw [List.dropWhile_append_of_pos hquotable, List.dropWhile_cons_of_neg (by decide)]
  rw [cut_quote, cutString, htake, hdrop]
  rfl

theorem cut_symbol (symbol : Symbol) (hrest : Text.Parted rest) :
    ∃ c tail, symbol.text.toList = c :: tail ∧
      cut c (tail ++ rest) = .ok (⟨some (.symbol symbol), c :: tail⟩, rest) := by
  cases rest with
  | nil => cases symbol <;> exact ⟨_, _, rfl, rfl⟩
  | cons d rest =>
    have hspace := hrest d rfl
    subst hspace
    cases symbol <;> exact ⟨_, _, rfl, rfl⟩

theorem cut_isWord {word : String} (hword : Text.IsWord word.toList) (hrest : Text.Parted rest) :
    ∃ c tail, word.toList = c :: tail ∧
      cut c (tail ++ rest) = .ok (⟨some (wordKind word.toList), c :: tail⟩, rest) := by
  cases htext : word.toList with
  | nil =>
    rw [htext] at hword
    contradiction
  | cons c tail =>
    rw [htext] at hword
    exact ⟨c, tail, rfl, cut_word hword hrest⟩

theorem cut_nonneg {value : Int64} (hvalue : 0 ≤ value.toInt) (hrest : Text.Parted rest) :
    ∃ c tail, value.toInt.repr.toList = c :: tail ∧
      cut c (tail ++ rest) = .ok (⟨some (.int value), c :: tail⟩, rest) := by
  have hbound : value.toInt.toNat < intBound := by
    have := value.toInt_lt
    unfold intBound
    omega
  have hback : Int64.ofNat value.toInt.toNat = value := by
    rw [← Int64.toInt_inj, toInt_ofNat_of_lt hbound]
    apply Int.toNat_of_nonneg hvalue
  rw [Int.repr_eq_if, if_pos hvalue, Nat.toList_repr]
  cases hdigits : Nat.toDigits 10 value.toInt.toNat with
  | nil => exact absurd hdigits Nat.toDigits_ne_nil
  | cons c tail =>
    have hcut := cut_int hbound hrest hdigits
    rw [hback] at hcut
    exact ⟨c, tail, rfl, hcut⟩

theorem cut_text (hlayout : kind.isLayout = false) (hspelled : kind.WellSpelled)
    (hrest : Text.Parted rest) :
    ∃ c tail, kind.text.toList = c :: tail ∧
      cut c (tail ++ rest) = .ok (⟨some kind, c :: tail⟩, rest) := by
  cases kind with
  | keyword keyword =>
    have hword : Text.IsWord keyword.text.toList := by cases keyword <;> decide
    have hcut := cut_isWord hword hrest
    rw [wordKind, String.ofList_toList, Keyword.ofText?_text] at hcut
    exact hcut
  | symbol symbol => exact cut_symbol symbol hrest
  | int value => exact cut_nonneg hspelled hrest
  | string body =>
    refine ⟨'"', body.toList ++ ['"'], ?_, ?_⟩
    . simp [TokenKind.text]
    . have hcut := @cut_string rest body.toList hspelled
      rw [String.ofList_toList] at hcut
      rw [List.append_assoc]
      exact hcut
  | ident name =>
    have hcut := cut_isWord hspelled.1 hrest
    rw [wordKind, String.ofList_toList, Keyword.ofText?_eq_none_iff.2 hspelled.2] at hcut
    exact hcut
  | newline => contradiction
  | indent => contradiction
  | dedent => contradiction
  | eof => contradiction

end Lexeme

theorem Scan.wellSpelled_of_mem_kinds {text : List Char} {kind : TokenKind}
    (h : kind ∈ (ofText text).kinds) : kind.isLayout = false ∧ kind.WellSpelled := by
  unfold kinds at h
  induction text using ofText.induct with
  | case1 => simp at h
  | case2 c text fault hcut =>
    rw [ofText_cons_of_fault hcut] at h
    simp at h
  | case3 c text lexeme rest hcut ih =>
    rw [ofText_cons_of_cut hcut] at h
    dsimp at h
    rw [List.filterMap_cons] at h
    split at h
    . exact ih h
    next first hkind =>
      rw [List.mem_cons] at h
      cases h with
      | inl heq =>
        rcases Lexeme.spelled_of_cut hcut hkind with ⟨hlayout, hspelled, -⟩
        rw [heq]
        exact ⟨hlayout, hspelled⟩
      | inr hmem => exact ih hmem

end Offside
