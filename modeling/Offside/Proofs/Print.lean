import Offside.Proofs.Image

/-!
This module contains the printing of kinds as a source, one statement on each line. A line that only
holds a comment opens or closes a block.
-/

namespace Offside

namespace TokenKind

def printComment (level : Nat) : List Char :=
  List.replicate level '\t' ++ ['#'] ++ ['\n']

/--
Print kinds that stand inside `depth` open blocks. The first token of a line stands after one tab
for each block, any other after a space. A comment at the new depth opens or closes a block.
-/
def printFrom (depth : Nat) (fresh : Bool) : List TokenKind → List Char
  | [] => []
  | .indent :: kinds => printComment (depth + 1) ++ printFrom (depth + 1) true kinds
  | .dedent :: kinds => printComment (depth - 1) ++ printFrom (depth - 1) true kinds
  | .newline :: kinds => '\n' :: printFrom depth true kinds
  | .eof :: kinds => printFrom depth fresh kinds
  | kind :: kinds =>
    (if fresh then List.replicate depth '\t' else [' ']) ++ kind.text.toList ++
      printFrom depth false kinds

def print (kinds : List TokenKind) : String :=
  String.ofList (printFrom 0 true kinds)

def statement (run : List TokenKind) : List Char :=
  [' '].intercalate (run.map (·.text.toList))

variable {kind : TokenKind} {run kinds : List TokenKind} {depth : Nat} {fresh : Bool}

theorem printFrom_content (h : kind.isLayout = false) :
    printFrom depth fresh (kind :: kinds) =
      (if fresh then List.replicate depth '\t' else [' ']) ++ kind.text.toList ++
        printFrom depth false kinds := by
  cases kind with
  | newline => contradiction
  | indent => contradiction
  | dedent => contradiction
  | eof => contradiction
  | _ => rfl

theorem statement_cons_cons (next : TokenKind) :
    statement (kind :: next :: run) = kind.text.toList ++ ' ' :: statement (next :: run) := by
  simp [statement, List.intercalate]

theorem printFrom_statement (hne : run ≠ []) (hrun : ∀ kind ∈ run, kind.isLayout = false) :
    printFrom depth fresh (run ++ .newline :: kinds) =
      (if fresh then List.replicate depth '\t' else [' ']) ++ statement run ++
        '\n' :: printFrom depth true kinds := by
  induction run generalizing fresh with
  | nil => contradiction
  | cons kind run ih =>
    rw [List.forall_mem_cons] at hrun
    rw [List.cons_append, printFrom_content hrun.1]
    cases run with
    | nil => simp [statement, List.intercalate, printFrom]
    | cons next run =>
      rw [ih (List.cons_ne_nil next run) hrun.2, statement_cons_cons]
      simp

end TokenKind

namespace Text

structure Printable (text : List Char) : Prop where
  no_feed : '\n' ∉ text
  no_return : text.getLast? ≠ some '\r'

variable {lhs rhs text : List Char}

theorem Printable.append (hlhs : Printable lhs) (hrhs : Printable rhs) :
    Printable (lhs ++ rhs) := by
  constructor
  . rw [List.mem_append, not_or]
    exact ⟨hlhs.no_feed, hrhs.no_feed⟩
  . rw [List.getLast?_append]
    cases hlast : rhs.getLast? with
    | none => exact hlhs.no_return
    | some last =>
      have := hrhs.no_return
      rw [hlast] at this
      exact this

theorem printable_of_forall (h : ∀ c ∈ text, c ≠ '\n' ∧ c ≠ '\r') : Printable text := by
  constructor
  . intro hmem
    exact (h _ hmem).1 rfl
  . intro hlast
    exact (h _ (List.mem_of_getLast? hlast)).2 rfl

theorem printable_of_isWord (h : IsWord text) : Printable text := by
  apply printable_of_forall
  have not_break {c : Char} (hc : isWordStart c = true ∨ isWordRest c = true) :
      c ≠ '\n' ∧ c ≠ '\r' := by
    refine ⟨?_, ?_⟩
    all_goals
      rintro rfl
      revert hc
      decide
  cases text with
  | nil => simp
  | cons c text =>
    rw [List.forall_mem_cons]
    exact ⟨not_break (.inl h.1), fun d hmem => not_break (.inr (h.2 d hmem))⟩

end Text

namespace TokenKind

variable {kind : TokenKind} {run : List TokenKind}

theorem printable_text (hlayout : kind.isLayout = false) (hspelled : kind.WellSpelled) :
    Text.Printable kind.text.toList := by
  cases kind with
  | keyword keyword =>
    apply Text.printable_of_isWord
    cases keyword <;> decide
  | symbol symbol =>
    apply Text.printable_of_forall
    cases symbol <;> simp [text, Symbol.text]
  | int value =>
    apply Text.printable_of_forall
    have hvalue : 0 ≤ value.toInt := hspelled
    intro c hmem
    rw [text, Int.repr_eq_if, if_pos hvalue, Nat.toList_repr] at hmem
    have hdigit := Nat.isDigit_of_mem_toDigits (by decide) (by decide) hmem
    refine ⟨?_, ?_⟩
    all_goals
      rintro rfl
      revert hdigit
      decide
  | string body =>
    have htext : (TokenKind.string body).text.toList = '"' :: body.toList ++ ['"'] := by
      simp [text]
    rw [htext]
    constructor
    . simp
      intro hmem
      exact (hspelled _ hmem).2 rfl
    . rw [List.getLast?_append]
      simp
  | ident name => exact Text.printable_of_isWord hspelled.1
  | newline => contradiction
  | indent => contradiction
  | dedent => contradiction
  | eof => contradiction

theorem printable_statement (hrun : ∀ kind ∈ run, kind.isLayout = false ∧ kind.WellSpelled) :
    Text.Printable (statement run) := by
  induction run with
  | nil => exact Text.printable_of_forall (by simp [statement, List.intercalate])
  | cons kind run ih =>
    rw [List.forall_mem_cons] at hrun
    have htext := printable_text hrun.1.1 hrun.1.2
    cases run with
    | nil =>
      have heq : statement [kind] = kind.text.toList := by simp [statement, List.intercalate]
      rw [heq]
      exact htext
    | cons next run =>
      rw [statement_cons_cons, List.append_cons]
      exact (htext.append (Text.printable_of_forall (by simp))).append (ih hrun.2)

end TokenKind

end Offside
