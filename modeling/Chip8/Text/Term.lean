/-!
# Constructor terms as text

A value is shown as its constructor: a bare name, a name with named fields as in `Set { x: 1, nn: 35 }`, or a name
applied to an argument as in `Jump(4660)`.
-/

namespace Chip8.Term

/-- A constructor with named fields; without fields it is the bare name. -/
def fields (name : String) : List (String × String) → String
  | [] => name
  | parts => name ++ " \x7b " ++ String.intercalate ", " (parts.map fun part => part.1 ++ ": " ++ part.2) ++ " \x7d"

/-- A constructor applied to one argument. -/
def applied (name argument : String) : String := name ++ "(" ++ argument ++ ")"

/-- A list of values between square brackets. -/
def list (items : List String) : String := "[" ++ String.intercalate ", " items ++ "]"

/-- A truth value in lower case. -/
def bool (value : Bool) : String := if value then "true" else "false"

/-- An optional value: `None`, or `Some` applied to it. -/
def option : Option String → String
  | none => "None"
  | some value => applied "Some" value

end Chip8.Term
