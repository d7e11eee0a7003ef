/-! # One-line texts of values

    A structure is written `Name { field: value, other: value }`, a constructor
    with one argument `Name(value)`, an optional number `None` or `Some(5)`.
    Numbers are decimal; byte offsets and pointers are written in lowercase
    hexadecimal behind `0x`. -/

namespace TransactionalMemory.Text

/-- A named field of a structure, with its value already written out. -/
abbrev Field : Type := String × String

/-- The text of a structure with the given fields, in the given order. -/
def record (name : String) (fields : List Field) : String :=
  name ++ " \x7b " ++ ", ".intercalate (fields.map fun (field, value) => field ++ ": " ++ value)
    ++ " \x7d"

/-- The text of a constructor with one argument. -/
def applied (name value : String) : String := name ++ "(" ++ value ++ ")"

def decimal (n : Nat) : String := String.ofList (Nat.toDigits 10 n)

def hexadecimal (n : Nat) : String := "0x" ++ String.ofList (Nat.toDigits 16 n)

def truth : Bool → String
  | true => "true"
  | false => "false"

/-- The text of a number that may be missing. -/
def optional : Option Nat → String
  | none => "None"
  | some n => applied "Some" (decimal n)

end TransactionalMemory.Text
