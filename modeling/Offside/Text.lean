/-!
This module contains the vocabulary of texts. A text is a list of characters; it is measured in
characters or in bytes of its UTF-8 form, and it can be cut at a byte offset that lies between two
characters. Letters and digits are those of ASCII.
-/

namespace Offside

namespace Text

def byteSize (text : List Char) : Nat :=
  text.foldr (fun c size => c.utf8Size + size) 0

@[simp]
theorem byteSize_nil : byteSize [] = 0 := rfl

@[simp]
theorem byteSize_cons (c : Char) (text : List Char) :
    byteSize (c :: text) = c.utf8Size + byteSize text := rfl

@[simp]
theorem byteSize_append (lhs rhs : List Char) :
    byteSize (lhs ++ rhs) = byteSize lhs + byteSize rhs := by
  induction lhs with
  | nil => simp
  | cons c lhs ih => simp [ih, Nat.add_assoc]

theorem byteSize_toList (source : String) : byteSize source.toList = source.utf8ByteSize := by
  have size_utf8Encode (text : List Char) : text.utf8Encode.size = byteSize text := by
    induction text with
    | nil => rfl
    | cons c text ih =>
      rw [List.utf8Encode_cons, ByteArray.size_append, ih, List.utf8Encode_singleton]
      simp
  conv => rhs; rw [← String.ofList_toList (s := source)]
  rw [← size_utf8Encode, ← String.size_toByteArray, String.toByteArray_ofList]

/--
Cut a text after `bytes` bytes. There is no such cut inside a character or past the end.
-/
def cutAt? : List Char → Nat → Option (List Char × List Char)
  | text, 0 => some ([], text)
  | [], _ + 1 => none
  | c :: text, bytes + 1 =>
    if c.utf8Size ≤ bytes + 1 then
      (cutAt? text (bytes + 1 - c.utf8Size)).map fun (lhs, rhs) => (c :: lhs, rhs)
    else
      none

theorem cutAt?_eq_some_iff {text lhs rhs : List Char} {bytes : Nat} :
    cutAt? text bytes = some (lhs, rhs) ↔ lhs ++ rhs = text ∧ byteSize lhs = bytes := by
  induction text generalizing bytes lhs with
  | nil => cases bytes <;> cases lhs <;> simp [cutAt?, eq_comm]
  | cons c text ih =>
    cases bytes with
    | zero =>
      cases lhs with
      | nil => simp [cutAt?, eq_comm]
      | cons d lhs =>
        have := d.utf8Size_pos
        simp [cutAt?]
        omega
    | succ bytes =>
      cases lhs with
      | nil => simp [cutAt?]
      | cons d lhs =>
        simp only [cutAt?, byteSize_cons, List.cons_append, List.cons.injEq]
        split
        next h =>
          simp only [Option.map_eq_some_iff, Prod.exists, Prod.mk.injEq, List.cons.injEq]
          constructor
          . rintro ⟨l, r, hcut, ⟨rfl, rfl⟩, rfl⟩
            rw [ih] at hcut
            exact ⟨⟨rfl, hcut.1⟩, by omega⟩
          . rintro ⟨⟨rfl, htext⟩, hsize⟩
            exact ⟨lhs, rhs, ih.2 ⟨htext, by omega⟩, ⟨rfl, rfl⟩, rfl⟩
        next h =>
          simp only [reduceCtorEq, false_iff]
          rintro ⟨⟨rfl, -⟩, hsize⟩
          omega

def slice? (text : List Char) (start stop : Nat) : Option (List Char) :=
  if start ≤ stop then
    match cutAt? text start with
    | none => none
    | some (_, tail) => (cutAt? tail (stop - start)).map (·.1)
  else
    none

def isIndent (c : Char) : Bool :=
  c == ' ' || c == '\t'

/--
The characters that separate tokens and mean nothing themselves: space, tab, carriage return and
form feed.
-/
def isBlank (c : Char) : Bool :=
  c == ' ' || c == '\t' || c == '\r' || c == '\x0c'

def isWordStart (c : Char) : Bool :=
  c.isAlpha || c == '_'

def isWordRest (c : Char) : Bool :=
  c.isAlphanum || c == '_'

def isQuotable (c : Char) : Bool :=
  c != '"' && c != '\n'

def trimReturns (text : List Char) : List Char :=
  text.foldr (fun c rest => if c == '\r' && rest.isEmpty then [] else c :: rest) []

end Text

end Offside
