import Offside.Token

/-!
This module contains lexical errors and the reasons for which reading a source stops.
-/

namespace Offside

inductive LexicalErrorKind where
  | invalidIndentation
  | inconsistentDedent
  | invalidToken
deriving DecidableEq, Repr

def LexicalErrorKind.text : LexicalErrorKind → String
  | .invalidIndentation => "invalid indentation"
  | .inconsistentDedent => "inconsistent dedent"
  | .invalidToken => "invalid token"

def LexicalErrorKind.name : LexicalErrorKind → String
  | .invalidIndentation => "InvalidIndentation"
  | .inconsistentDedent => "InconsistentDedent"
  | .invalidToken => "InvalidToken"

structure LexicalError where
  kind : LexicalErrorKind
  line : UInt32
  column : UInt32
  message : String
deriving DecidableEq, Repr

namespace LexicalError

def ofPosition (kind : LexicalErrorKind) (pos : Position) (message : String) : LexicalError :=
  ⟨kind, pos.line, pos.column, message⟩

def text (error : LexicalError) : String :=
  error.line.toNat.repr ++ ":" ++ error.column.toNat.repr ++ ": " ++ error.message

end LexicalError

/--
The reasons for which reading a source stops early.
-/
inductive Abort where
  | overflow (cause : Overflow)
  | rejected (error : LexicalError)
deriving DecidableEq, Repr

/--
Reject a source for a character that lies `chars` characters and `bytes` bytes after `start`.
-/
def Abort.reject (kind : LexicalErrorKind) (start : Position) (chars bytes : Nat)
    (message : String) : Abort :=
  match start.advance chars bytes with
  | .error cause => .overflow cause
  | .ok pos => .rejected (.ofPosition kind pos message)

end Offside
