import Offside.LexicalError

/-!
This module contains diagnostics: what is wrong with a source, where, and what may help.
-/

namespace Offside

inductive Severity where
  | error
deriving DecidableEq, Repr

def Severity.text : Severity → String
  | .error => "error"

structure ErrorCode where
  category : Char
  number : UInt16
deriving DecidableEq, Repr

def ErrorCode.text (code : ErrorCode) : String :=
  let digits := code.number.toNat.repr
  let zeros := String.ofList (List.replicate (3 - digits.length) '0')
  "E" ++ String.singleton code.category ++ zeros ++ digits

structure Label where
  span : Span
  message : String
deriving DecidableEq, Repr

structure Diagnostic where
  severity : Severity
  code : Option ErrorCode
  message : String
  labels : List Label
  help : List String
deriving DecidableEq, Repr

def LexicalErrorKind.code : LexicalErrorKind → ErrorCode
  | .invalidIndentation => ⟨'L', 1⟩
  | .inconsistentDedent => ⟨'L', 2⟩
  | .invalidToken => ⟨'L', 3⟩

def LexicalErrorKind.help : LexicalErrorKind → String
  | .invalidIndentation => "indent with tabs or with pairs of spaces, never both on one line"
  | .inconsistentDedent => "dedent to the indentation of an enclosing block"
  | .invalidToken => "remove or replace the unrecognized text"

/--
The diagnostic of an error. Its label covers the character at fault; an error has no byte offsets,
so those of the label are 0.
-/
def LexicalError.diagnostic (error : LexicalError) (fileId : UInt32) :
    Except Overflow Diagnostic := do
  let column ← Word.add32 error.column 1
  let span : Span := ⟨⟨error.line, error.column, 0⟩, ⟨error.line, column, 0⟩, fileId⟩
  return {
    severity := .error
    code := some error.kind.code
    message := error.message
    labels := [⟨span, error.kind.text⟩]
    help := [error.kind.help] }

end Offside
