import Offside.Json.Basic

/-!
This module contains the text form of JSON values: a reader of texts and a printer.
-/

namespace Offside

namespace Json

def isSpace (c : Char) : Bool :=
  c == ' ' || c == '\t' || c == '\n' || c == '\r'

def skipSpace (text : List Char) : List Char :=
  text.dropWhile isSpace

def hexValue? (c : Char) : Option Nat :=
  if c.isDigit then
    some (c.toNat - '0'.toNat)
  else if 'a' ≤ c ∧ c ≤ 'f' then
    some (c.toNat - 'a'.toNat + 10)
  else if 'A' ≤ c ∧ c ≤ 'F' then
    some (c.toNat - 'A'.toNat + 10)
  else
    none

def unit? (a b c d : Char) : Option Nat := do
  let a ← hexValue? a
  let b ← hexValue? b
  let c ← hexValue? c
  let d ← hexValue? d
  return ((a * 16 + b) * 16 + c) * 16 + d

def codePoint? (value : Nat) : Option Char :=
  if value.isValidChar then some (Char.ofNat value) else none

def unescape? : Char → Option Char
  | '"' => some '"'
  | '\\' => some '\\'
  | '/' => some '/'
  | 'b' => some '\x08'
  | 'f' => some '\x0c'
  | 'n' => some '\n'
  | 'r' => some '\r'
  | 't' => some '\t'
  | _ => none

def readString (seen : List Char) : List Char → Option (String × List Char)
  | [] => none
  | '"' :: rest => some (String.ofList seen.reverse, rest)
  | '\\' :: 'u' :: a :: b :: c :: d :: rest =>
    match unit? a b c d with
    | none => none
    | some unit =>
      if 0xD800 ≤ unit ∧ unit < 0xDC00 then
        match rest with
        | '\\' :: 'u' :: e :: f :: g :: h :: rest =>
          match unit? e f g h with
          | none => none
          | some low =>
            if 0xDC00 ≤ low ∧ low < 0xE000 then
              match codePoint? (0x10000 + (unit - 0xD800) * 0x400 + (low - 0xDC00)) with
              | none => none
              | some char => readString (char :: seen) rest
            else
              none
        | _ => none
      else
        match codePoint? unit with
        | none => none
        | some char => readString (char :: seen) rest
  | '\\' :: c :: rest =>
    match unescape? c with
    | none => none
    | some char => readString (char :: seen) rest
  | c :: rest => readString (c :: seen) rest

/--
The number with a given text. Digits with at most a minus sign are an integer, but a zero with a
sign is not one.
-/
def ofLiteral? (literal : List Char) : Option Json :=
  let digits := if literal.head? = some '-' then literal.tail else literal
  if digits.isEmpty then
    none
  else if digits.all Char.isDigit ∧ literal ≠ ['-', '0'] then
    let value := Nat.ofDigitChars 10 digits 0
    if literal.head? = some '-' then some (.int (-value)) else some (.int value)
  else
    some (.decimal (String.ofList literal))

def isNumeric (c : Char) : Bool :=
  c.isDigit || c == '-' || c == '+' || c == '.' || c == 'e' || c == 'E'

/--
The members of an object that was read from last to first. Of members with one key the last counts.
-/
def ofMembers (reversed : List (String × Json)) : Json :=
  .obj (reversed.foldl (fun members (name, value) =>
    if (members.lookup name).isSome then members else (name, value) :: members) [])

mutual

/--
Read a value. The fuel bounds the number of values, items and members inside each other or in a row.
-/
def readValue : Nat → List Char → Option (Json × List Char)
  | 0, _ => none
  | fuel + 1, text =>
    match skipSpace text with
    | '\x7b' :: rest =>
      match skipSpace rest with
      | '\x7d' :: rest => some (.obj [], rest)
      | _ => readMembers fuel [] rest
    | '[' :: rest =>
      match skipSpace rest with
      | ']' :: rest => some (.arr [], rest)
      | _ => readItems fuel [] rest
    | '"' :: rest => (readString [] rest).map fun (text, rest) => (.str text, rest)
    | 't' :: 'r' :: 'u' :: 'e' :: rest => some (.bool true, rest)
    | 'f' :: 'a' :: 'l' :: 's' :: 'e' :: rest => some (.bool false, rest)
    | 'n' :: 'u' :: 'l' :: 'l' :: rest => some (.null, rest)
    | text =>
      (ofLiteral? (text.takeWhile isNumeric)).map fun json => (json, text.dropWhile isNumeric)

def readItems : Nat → List Json → List Char → Option (Json × List Char)
  | 0, _, _ => none
  | fuel + 1, seen, text =>
    match readValue fuel text with
    | none => none
    | some (item, rest) =>
      match skipSpace rest with
      | ',' :: rest => readItems fuel (item :: seen) rest
      | ']' :: rest => some (.arr (item :: seen).reverse, rest)
      | _ => none

def readMembers : Nat → List (String × Json) → List Char → Option (Json × List Char)
  | 0, _, _ => none
  | fuel + 1, seen, text =>
    match skipSpace text with
    | '"' :: rest =>
      match readString [] rest with
      | none => none
      | some (name, rest) =>
        match skipSpace rest with
        | ':' :: rest =>
          match readValue fuel rest with
          | none => none
          | some (value, rest) =>
            match skipSpace rest with
            | ',' :: rest => readMembers fuel ((name, value) :: seen) rest
            | '\x7d' :: rest => some (ofMembers ((name, value) :: seen), rest)
            | _ => none
        | _ => none
    | _ => none

end

/--
The value that a text stands for. The fuel is enough for every text, because each value, item or
member has a character of its own.
-/
def ofText? (text : String) : Option Json :=
  let chars := text.toList
  match readValue (2 * chars.length + 1) chars with
  | none => none
  | some (json, rest) => if (skipSpace rest).isEmpty then some json else none

def hexDigit (value : Nat) : Char :=
  if value < 10 then Char.ofNat ('0'.toNat + value) else Char.ofNat ('a'.toNat + (value - 10))

def printChar (out : String) (c : Char) : String :=
  if c = '"' ∨ c = '\\' then
    (out.push '\\').push c
  else if c.toNat < 0x20 then
    ((out ++ "\\u00").push (hexDigit (c.toNat / 16))).push (hexDigit (c.toNat % 16))
  else
    out.push c

def printString (out : String) (text : String) : String :=
  (text.toList.foldl printChar (out.push '"')).push '"'

mutual

def print (out : String) : Json → String
  | .null => out ++ "null"
  | .bool value => out ++ (if value then "true" else "false")
  | .int value => out ++ value.repr
  | .decimal literal => out ++ literal
  | .str text => printString out text
  | .arr [] => out ++ "[]"
  | .arr (item :: items) => (printItems (print (out.push '[') item) items).push ']'
  | .obj [] => out ++ "\x7b\x7d"
  | .obj ((name, value) :: members) =>
    (printMembers (print ((printString (out.push '\x7b') name).push ':') value) members).push '\x7d'

def printItems (out : String) : List Json → String
  | [] => out
  | item :: items => printItems (print (out.push ',') item) items

def printMembers (out : String) : List (String × Json) → String
  | [] => out
  | (name, value) :: members =>
    printMembers (print ((printString (out.push ',') name).push ':') value) members

end

def text (json : Json) : String :=
  json.print ""

end Json

end Offside
