/-!
This module contains JSON values and the views under which records and enumerations are read from
them. An integer is told apart from every other number, also from one of the same value that is
written with a fraction or an exponent.
-/

namespace Offside

inductive Json where
  | null
  | bool (value : Bool)
  | int (value : Int)
  /-- A number that is not written as an integer, by its text. -/
  | decimal (literal : String)
  | str (text : String)
  | arr (items : List Json)
  /-- An object. Its keys differ from each other. -/
  | obj (members : List (String × Json))
deriving Repr, Inhabited

namespace Json

def bool? : Json → Option Bool
  | .bool value => some value
  | _ => none

def str? : Json → Option String
  | .str text => some text
  | _ => none

def below? (bound : Nat) : Json → Option Nat
  | .int (.ofNat value) => if value < bound then some value else none
  | _ => none

def uint32? (json : Json) : Option UInt32 :=
  (json.below? UInt32.size).map (·.toUInt32)

def uint64? (json : Json) : Option UInt64 :=
  (json.below? UInt64.size).map (·.toUInt64)

def int64? : Json → Option Int64
  | .int value =>
    if Int64.minValue.toInt ≤ value ∧ value ≤ Int64.maxValue.toInt then
      some (.ofInt value)
    else
      none
  | _ => none

/--
Whether a value can be a record with a number of fields: an object, which may have other members
too, or an array with at most so many items.
-/
def isRecord (fields : Nat) : Json → Bool
  | .obj _ => true
  | .arr items => items.length ≤ fields
  | _ => false

def field? (json : Json) (index : Nat) (name : String) : Option Json :=
  match json with
  | .obj members => members.lookup name
  | .arr items => items[index]?
  | _ => none

def required (json : Json) (index : Nat) (name : String) (read : Json → Option α) : Option α :=
  (json.field? index name).bind read

def optional (json : Json) (index : Nat) (name : String) (default : α)
    (read : Json → Option α) : Option α :=
  match json.field? index name with
  | none => some default
  | some value => read value

def caseName? : Json → Option String
  | .str name => some name
  | .obj [(name, .null)] => some name
  | _ => none

end Json

end Offside
