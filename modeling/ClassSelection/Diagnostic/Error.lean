import ClassSelection.File.Error

/-!
# Errors

What ends an extraction: a fault in the routine, with its line, a setting that cannot be used, or a
file that cannot be read or written. Only unreadable input has an exit status of its own.
-/

namespace ClassSelection

inductive Error where
  | invalidRoutine (name : String) (line : Nat)
  | invalidTarget (found : String) (line : Nat)
  /-- A SET statement assigns to the variable of another routine. -/
  | targetMismatch (found routine : String) (line : Nat)
  | missingToken (expected found : String) (line : Nat)
  | invalidComparator (found : String) (line : Nat)
  /-- A comparison has no variable on either side. -/
  | invalidComparison (left comparator right : String) (line : Nat)
  | invalidSelect (found : String) (line : Nat)
  /-- A scope was closed that is not the innermost one. -/
  | scopeMismatch (construct : String) (line : Nat)
  | exitWithoutRule (line : Nat)
  /-- A token was put back while another one was waiting. -/
  | tokenPutBackTwice (line : Nat)
  | invalidConfig (reason : String)
  | input (path : String) (cause : FileError)
  | output (path : String) (cause : FileError)
  | io (cause : FileError)
  | csv (reason : String)
  | json (reason : String)
  deriving DecidableEq, Repr

namespace Error

def line? : Error → Option Nat
  | invalidRoutine _ line
  | invalidTarget _ line
  | targetMismatch _ _ line
  | missingToken _ _ line
  | invalidComparator _ line
  | invalidComparison _ _ _ line
  | invalidSelect _ line
  | scopeMismatch _ line
  | exitWithoutRule line
  | tokenPutBackTwice line => some line
  | invalidConfig _ | input _ _ | output _ _ | io _ | csv _ | json _ => none

/-- The exit status of the program: 4 for unreadable input, 8 for anything else. -/
def exitCode : Error → Nat
  | input _ _ => 4
  | _ => 8

private def atLine (line : Nat) : String :=
  "Error @" ++ toString line ++ ": "

def message : Error → String
  | invalidRoutine name line => atLine line ++ name ++ " is not a valid PROC name"
  | invalidTarget found line => atLine line ++ "not a valid SET R/W variable: " ++ found
  | targetMismatch found routine line =>
    atLine line ++ "SET variable " ++ found ++ " doesn't match PROC " ++ routine
  | missingToken expected found line =>
    atLine line ++ "expected " ++ expected ++ ", found " ++ found
  | invalidComparator found line => atLine line ++ "invalid comparison operator " ++ found
  | invalidComparison left comparator right line =>
    atLine line ++ "invalid comparison: " ++ left ++ " " ++ comparator ++ " " ++ right
  | invalidSelect found line => atLine line ++ "SELECT subject is not a variable: " ++ found
  | scopeMismatch construct line =>
    atLine line ++ "program logic error, condition stack mixed up while closing " ++ construct
  | exitWithoutRule line => atLine line ++ "EXIT found before any SET statement"
  | tokenPutBackTwice line => atLine line ++ "a token was put back while another one was waiting"
  | invalidConfig reason => "Invalid configuration: " ++ reason
  | input path cause => "Cannot read " ++ path ++ ": " ++ cause.message
  | output path cause => "Problem writing output file " ++ path ++ ": " ++ cause.message
  | io cause => "Problem writing output: " ++ cause.message
  | csv reason => "Problem writing CSV output: " ++ reason
  | json reason => "Problem writing JSON output: " ++ reason

end Error

end ClassSelection
