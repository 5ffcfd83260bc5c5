import AddressLines.Token.Basic

/-!
# Faults

What can be wrong with a program, each fault with its message, its class and, mostly, a hint. A fault
found in the tokens has a position; one found in the types of a program has none.
-/

namespace AddressLines

namespace Fault

inductive Cause where
  /-- A token of another kind than expected. -/
  | wrongKind (expected found kind : String)
  | badLiteral (text : String)
  | unexpected (expected found : String)
  | alreadyDefined (target : String)
  | notDefined (target : String)
  | wrongAssignment (target expected received : String)
  | mismatchedTypes (left right : String)
  | badCondition (received : String)
deriving DecidableEq, Repr

end Fault

structure Fault where
  cause : Fault.Cause
  position : Option Position
deriving DecidableEq, Repr

namespace Fault

/-- What stands for the end of the input, and for a line end, in a message. -/
def endOfFile : String :=
  "end of file"

/-- Text as a message quotes it: on one line. -/
def quote (text : String) : String :=
  String.join (text.toList.map fun c => if c = '\n' ∨ c = '\r' then endOfFile else c.toString)

namespace Cause

def message : Cause → String
  | wrongKind expected found kind =>
    expected ++ " expected, got '" ++ found ++ "' of type '" ++ kind ++ "'"
  | badLiteral text => "Unexpected literal '" ++ text ++ "'"
  | unexpected expected found => expected ++ " expected, got '" ++ found ++ "'"
  | alreadyDefined v => "Variable '" ++ v ++ "' is already defined"
  | notDefined v => "Variable '" ++ v ++ "' is not defined"
  | wrongAssignment v expected received =>
    "Cannot use type " ++ received ++ " in variable '" ++ v ++ "' of type " ++ expected
  | mismatchedTypes left right => "Mismatched types: " ++ left ++ " and " ++ right
  | badCondition received => "Non-bool type " ++ received ++ " used as condition"

def name : Cause → String
  | wrongKind .. => "TypeMismatch"
  | badLiteral .. => "InvalidLiteral"
  | unexpected .. => "UnexpectedToken"
  | alreadyDefined .. => "AlreadyDefined"
  | notDefined .. => "NotDefined"
  | wrongAssignment .. => "AssignmentMismatch"
  | mismatchedTypes .. => "MismatchedTypes"
  | badCondition .. => "NonBooleanCondition"

/-- The class a fault is counted in. -/
def className : Cause → String
  | alreadyDefined .. | notDefined .. | wrongAssignment .. => "AssignmentError"
  | mismatchedTypes .. | badCondition .. => "TypeConflict"
  | c => c.name

def hint? : Cause → Option String
  | unexpected _ found =>
    if found = endOfFile then some "Is a closing `\x7d` or a terminator missing?" else none
  | wrongKind expected .. => some ("Expected a token of type " ++ expected)
  | badLiteral text => some ("`" ++ text ++ "` is not an integer, float, boolean or quoted literal")
  | alreadyDefined v => some ("Use `" ++ v ++ " = ...` to assign to the existing variable")
  | notDefined v => some ("Define `" ++ v ++ "` with `:=` or `var` before using it")
  | wrongAssignment _ expected _ =>
    some ("The variable keeps the type " ++ expected ++ " it was defined with")
  | mismatchedTypes .. => some "Only integers and floats can be mixed in one expression"
  | badCondition .. => some "Compare the value to get a boolean"

end Cause

def message (f : Fault) : String :=
  f.cause.message

/-- One line for each fault, with a tab before it. -/
def listing (faults : List Fault) : String :=
  String.join (faults.map fun f => "\t" ++ f.message ++ "\n")

end Fault

/-- All faults of a program: those of its form, then those of its meaning. -/
structure Report where
  form : List Fault
  meaning : List Fault
deriving DecidableEq, Repr

namespace Report

def isEmpty (r : Report) : Bool :=
  r.form.isEmpty && r.meaning.isEmpty

def text (r : Report) : String :=
  (if r.form.isEmpty then "" else "Syntax errors:\n" ++ Fault.listing r.form) ++
    (if r.meaning.isEmpty then "" else "Semantic errors:\n" ++ Fault.listing r.meaning)

end Report

end AddressLines
