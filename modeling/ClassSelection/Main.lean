import ClassSelection.CommandLine.Run

/-!
# The program

Runs a command line on the files of the system.
-/

namespace ClassSelection

def FileError.ofSystem (error : IO.Error) : FileError :=
  match error with
  | .noFileOrDirectory .. => .notFound
  | .inappropriateType .. => .isDirectory
  | error => .other (toString error)

instance : FileAccess IO where
  read path := do
    try
      return .ok (← IO.FS.readBinFile path)
    catch error =>
      return .error (.ofSystem error)
  write path content := do
    try
      IO.FS.writeBinFile path content
      return .ok ()
    catch error =>
      return .error (.ofSystem error)

def environmentOf (names : List String) : IO (String → Option String) := do
  let values ← names.mapM fun name => do return (name, ← IO.getEnv name)
  return fun name => (values.lookup name).join

end ClassSelection

open ClassSelection in
def main (words : List String) : IO UInt32 := do
  let environment ← environmentOf [Settings.logLevelVariable, Settings.combineVariable]
  let outcome : Outcome ← run words environment
  IO.print outcome.output
  for complaint in outcome.complaint do
    IO.eprintln complaint
  return UInt32.ofNat outcome.exitCode
