import Offside.LexicalError
import Offside.Text

/-!
This module contains the grammar of a line's content. The content is cut into lexemes: tokens, and
the blanks and comments between them. A lexeme is always the longest text of its kind that stands at
the place where the lexeme starts.
-/

namespace Offside

structure Lexeme where
  kind : Option TokenKind
  text : List Char
deriving DecidableEq, Repr

inductive ContentFault where
  | unterminatedString
  | integerTooLarge (digits : List Char)
  | unexpected (c : Char)
deriving DecidableEq, Repr

def ContentFault.message : ContentFault → String
  | .unterminatedString => "unterminated string literal"
  | .integerTooLarge digits =>
    "integer literal " ++ String.ofList digits ++ " does not fit in 64 bits"
  | .unexpected c => "unexpected character '" ++ String.singleton c ++ "'"

namespace Lexeme

def intBound : Nat := 0x8000000000000000

def wordKind (word : List Char) : TokenKind :=
  match Keyword.ofText? (String.ofList word) with
  | some keyword => .keyword keyword
  | none => .ident (String.ofList word)

def cutRun (kind : List Char → Option TokenKind) (accept : Char → Bool) (c : Char)
    (text : List Char) : Lexeme × List Char :=
  let run := c :: text.takeWhile accept
  (⟨kind run, run⟩, text.dropWhile accept)

def cutInt (c : Char) (text : List Char) : Except ContentFault (Lexeme × List Char) :=
  let digits := c :: text.takeWhile Char.isDigit
  let value := Nat.ofDigitChars 10 digits 0
  if value < intBound then
    .ok (⟨some (.int (.ofNat value)), digits⟩, text.dropWhile Char.isDigit)
  else
    .error (.integerTooLarge digits)

/--
The string literal whose opening quote stands before `text`. It ends at the next quote, which has to
stand on the same line.
-/
def cutString (text : List Char) : Except ContentFault (Lexeme × List Char) :=
  let body := text.takeWhile Text.isQuotable
  match text.dropWhile Text.isQuotable with
  | '"' :: rest => .ok (⟨some (.string (String.ofList body)), '"' :: (body ++ ['"'])⟩, rest)
  | _ => .error .unterminatedString

/--
The symbol at the start of `text`, where two characters that are a symbol are not cut into two.
-/
def cutSymbol? (text : List Char) : Option (Lexeme × List Char) :=
  match ofLength 2 with
  | some cut => some cut
  | none => ofLength 1
where
  ofLength (length : Nat) : Option (Lexeme × List Char) :=
    match Symbol.ofText? (String.ofList (text.take length)) with
    | some symbol => some (⟨some (.symbol symbol), text.take length⟩, text.drop length)
    | none => none

/--
The lexeme at the start of `c :: text`, and what follows it.
-/
def cut (c : Char) (text : List Char) : Except ContentFault (Lexeme × List Char) :=
  if Text.isBlank c then
    .ok (cutRun (fun _ => none) Text.isBlank c text)
  else if c = '#' then
    .ok (cutRun (fun _ => none) (· != '\n') c text)
  else if Text.isWordStart c then
    .ok (cutRun (fun word => some (wordKind word)) Text.isWordRest c text)
  else if c.isDigit then
    cutInt c text
  else if c = '"' then
    cutString text
  else
    match cutSymbol? (c :: text) with
    | some cut => .ok cut
    | none => .error (.unexpected c)

theorem cutSymbol?_eq_cons {c : Char} {text : List Char} {result : Lexeme × List Char}
    (h : cutSymbol? (c :: text) = some result) :
    ∃ tail, result.1.text = c :: tail ∧ tail ++ result.2 = text := by
  have ofLength_eq_cons (length : Nat)
      (h : cutSymbol?.ofLength (c :: text) (length + 1) = some result) :
      ∃ tail, result.1.text = c :: tail ∧ tail ++ result.2 = text := by
    simp only [cutSymbol?.ofLength] at h
    split at h
    . rw [Option.some.injEq] at h
      subst h
      exact ⟨text.take length, rfl, List.take_append_drop length text⟩
    . simp at h
  simp only [cutSymbol?] at h
  split at h
  next heq =>
    rw [Option.some.injEq] at h
    subst h
    exact ofLength_eq_cons 1 heq
  next => exact ofLength_eq_cons 0 h

theorem cut_eq_cons {c : Char} {text : List Char} {lexeme : Lexeme} {rest : List Char}
    (h : cut c text = .ok (lexeme, rest)) :
    ∃ tail, lexeme.text = c :: tail ∧ tail ++ rest = text := by
  simp only [cut, cutRun, cutInt, cutString] at h
  repeat' split at h
  all_goals simp only [Except.ok.injEq, Prod.mk.injEq, reduceCtorEq] at h
  all_goals try
    (rw [← h.1, ← h.2]
     exact ⟨_, rfl, List.takeWhile_append_dropWhile⟩)
  . rename_i hquote _ rest' heq
    rw [← h.1, ← h.2, hquote]
    refine ⟨text.takeWhile Text.isQuotable ++ ['"'], rfl, ?_⟩
    rw [List.append_assoc, List.singleton_append, ← heq, List.takeWhile_append_dropWhile]
  . rename_i heq
    rw [h] at heq
    exact cutSymbol?_eq_cons heq

theorem cut_length {c : Char} {text : List Char} {lexeme : Lexeme} {rest : List Char}
    (h : cut c text = .ok (lexeme, rest)) : rest.length ≤ text.length := by
  rcases cut_eq_cons h with ⟨tail, -, htext⟩
  rw [← htext, List.length_append]
  omega

end Lexeme

end Offside
