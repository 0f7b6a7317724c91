import Offside.FileReport

/-!
This module contains checks that say what a source is expected to be.
-/

namespace Offside

inductive CheckFailure where
  | overflow (cause : Overflow)
  | rejected (rendered : String)
  | otherKind (expected : LexicalErrorKind) (error : LexicalError)
  | accepted (expected : LexicalErrorKind)
deriving DecidableEq, Repr

def CheckFailure.message : CheckFailure → String
  | .overflow cause => cause.message
  | .rejected rendered => "Expected source to tokenize, but got:\n" ++ rendered
  | .otherKind expected error =>
    "Expected " ++ expected.name ++ ", but got " ++ error.kind.name ++ ": " ++ error.text
  | .accepted expected =>
    "Expected source to fail with " ++ expected.name ++ ", but it succeeded"

namespace Check

def report (source : String) : Except CheckFailure FileReport :=
  (SourceFile.mk "test.wz" source).report.mapError .overflow

def kinds (source : String) : Except CheckFailure (List TokenKind) := do
  let report ← report source
  match report.rendered with
  | none => return report.kinds
  | some rendered => throw (.rejected rendered)

def failure (source : String) (expected : LexicalErrorKind) : Except CheckFailure LexicalError := do
  let report ← report source
  match report.failure with
  | none => throw (.accepted expected)
  | some error =>
    if error.kind = expected then
      return error
    else
      throw (.otherKind expected error)

end Check

end Offside
