import ClassSelection.CommandLine.Arguments
import ClassSelection.CommandLine.Help
import ClassSelection.Extract

/-!
# Running

What the program does with a command line and an environment: the settings come from the defaults,
the environment, the config file and the command line, each of which overrides those before it.
-/

namespace ClassSelection

variable {m : Type → Type} [Monad m] [FileAccess m]

def Arguments.settings (arguments : Arguments) (environment : String → Option String) :
    ExceptT Error m Settings := do
  let base ← MonadExcept.ofExcept (Settings.ofEnvironment environment)
  let configured ←
    match arguments.config with
    | some path => base.override <$> readConfig path
    | none => pure base
  return configured.override arguments.overrides

def Arguments.run (arguments : Arguments) (environment : String → Option String) :
    ExceptT Error m Summary := do
  let settings ← arguments.settings environment
  extract arguments.input arguments.output settings

structure Outcome where
  exitCode : Nat
  output : String
  complaint : Option String
  deriving DecidableEq, Repr

namespace Arguments.Interruption

def message? : Interruption → Option String
  | help _ | version => none
  | missingInput => some "an input file is required"
  | unknownOption => some "an option is not known"
  | noValue => some "an argument needs a value"
  | badValue => some "the value of an option cannot be used"
  | unexpectedValue => some "an option has a value but takes none"
  | repeatedOption => some "an option is given more than once"

/-- The exit status: 0 when help or the version was asked for, else 2. -/
def exitCode : Interruption → Nat
  | help _ | version => 0
  | _ => 2

def output : Interruption → String
  | help true => Help.long
  | help false => Help.short
  | version => Help.version
  | _ => ""

def outcome (interruption : Interruption) : Outcome :=
  ⟨interruption.exitCode, interruption.output, interruption.message?⟩

end Arguments.Interruption

def run (words : List String) (environment : String → Option String) : m Outcome := do
  if Arguments.wantsHelp words then
    return ⟨0, Help.long, none⟩
  match Arguments.parse words with
  | .error interruption => return interruption.outcome
  | .ok arguments =>
    match ← (arguments.run environment).run with
    | .ok _ => return ⟨0, "", none⟩
    | .error error => return ⟨error.exitCode, "", some error.message⟩

end ClassSelection
