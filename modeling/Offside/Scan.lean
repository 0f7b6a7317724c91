import Offside.Lexeme

/-!
This module contains the lexemes of a whole text and the spans that the tokens among them cover.
-/

namespace Offside

/--
The lexemes of a text, up to the end or to the first character at which no lexeme starts.
-/
structure Scan where
  lexemes : List Lexeme
  fault : Option ContentFault
deriving DecidableEq, Repr

namespace Scan

def ofText (text : List Char) : Scan :=
  match text with
  | [] => ⟨[], none⟩
  | c :: text =>
    match _h : Lexeme.cut c text with
    | .error fault => ⟨[], some fault⟩
    | .ok (lexeme, rest) =>
      let scan := ofText rest
      ⟨lexeme :: scan.lexemes, scan.fault⟩
termination_by text.length
decreasing_by
  have := Lexeme.cut_length ‹_›
  rw [List.length_cons]
  omega

/--
The tokens of a scan whose text starts at `origin`. The places of tokens are computed in the order
of the text, so that the first place without a position ends the computation, also if a character
that starts no lexeme follows.
-/
def tokens (scan : Scan) (origin : Position) (fileId : UInt32) : Except Abort (List Token) :=
  go 0 0 scan.lexemes
where
  /--
  The given lexemes stand `chars` characters and `bytes` bytes after the origin.
  -/
  go (chars bytes : Nat) : List Lexeme → Except Abort (List Token)
    | [] =>
      match scan.fault with
      | none => .ok []
      | some fault => .error (.reject .invalidToken origin chars bytes fault.message)
    | ⟨none, text⟩ :: lexemes => go (chars + text.length) (bytes + Text.byteSize text) lexemes
    | ⟨some kind, text⟩ :: lexemes => do
      let start ← (origin.advance chars bytes).mapError .overflow
      let chars := chars + text.length
      let bytes := bytes + Text.byteSize text
      let stop ← (origin.advance chars bytes).mapError .overflow
      let tokens ← go chars bytes lexemes
      return ⟨kind, ⟨start, stop, fileId⟩⟩ :: tokens

end Scan

end Offside
