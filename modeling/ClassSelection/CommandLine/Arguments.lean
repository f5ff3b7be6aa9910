import ClassSelection.Settings

/-!
# Arguments

The command line is an input file and further words, with options between them. An option takes its
value from the same word after `=` or from the next word that is no option itself; what was given is
checked when the next argument begins. After `--` every word is taken as it is.
-/

namespace ClassSelection

structure Arguments where
  input : String
  rest : List String
  logLevel : Option LogLevel
  format : Option OutputFormat
  combineMode : Option CombineMode
  /-- Whether comparators are spelled in symbols. -/
  symbolic : Bool
  config : Option String
  deriving DecidableEq, Repr

namespace Arguments

/-! ## What the words mean -/

def sameWord (left right : String) : Bool :=
  smallLetters left == smallLetters right

def isDebugWord (word : String) : Bool :=
  sameWord word "debug"

/-- The output file: the first word after the input, unless it asks for detailed messages. -/
def output (arguments : Arguments) : Option String :=
  arguments.rest.head?.filter fun word => !isDebugWord word

def debug (arguments : Arguments) : Bool :=
  arguments.rest.any isDebugWord

def unknownWords (arguments : Arguments) : List String :=
  (if arguments.output.isSome then arguments.rest.drop 1 else arguments.rest).filter
    fun word => !isDebugWord word

/-- The settings on the command line. A log level in an option wins over the word `debug`. -/
def overrides (arguments : Arguments) : Overrides where
  logLevel := arguments.logLevel <|> if arguments.debug then some .trace else none
  combineMode := arguments.combineMode
  format := arguments.format
  comparatorStyle := if arguments.symbolic then some .symbolic else none

/-- Whether the words ask for help in one of the ways that are no options. -/
def wantsHelp (words : List String) : Bool :=
  match words with
  | [] => true
  | first :: _ => first == "?" || first == "-?" || first == "--help" || sameWord first "help"

/-! ## Reading the words -/

/-- Why there are no arguments: the words ask for something else, or are no command line. -/
inductive Interruption where
  | help (long : Bool)
  | version
  /-- There is no input file. -/
  | missingInput
  | unknownOption
  /-- An option has no value, or a path is empty. -/
  | noValue
  | badValue
  | unexpectedValue
  | repeatedOption
  deriving DecidableEq, Repr

inductive Slot where
  | input
  | logLevel
  | format
  | combine
  | config
  deriving DecidableEq, Repr

def Slot.ofOption? (name : String) : Option Slot :=
  match name with
  | "log-level" => some logLevel
  | "format" => some format
  | "combine" => some combine
  | "config" => some config
  | _ => none

structure Collected where
  input : Option String := none
  rest : List String := []
  logLevel : Option LogLevel := none
  format : Option OutputFormat := none
  combineMode : Option CombineMode := none
  symbolic : Bool := false
  config : Option String := none
  /-- An argument that has begun, with its value once there is one. -/
  begun : Option (Slot × Option String) := none
  /-- Whether `--` has come. -/
  literally : Bool := false
  deriving DecidableEq, Repr

namespace Collected

def newSetting {α : Type} (old : Option α) (value : Except Error α) :
    Except Interruption (Option α) :=
  if old.isSome then .error .repeatedOption
  else
    match value with
    | .ok setting => .ok (some setting)
    | .error _ => .error .badValue

def newPath (old : Option String) (path : String) : Except Interruption (Option String) :=
  if old.isSome then .error .repeatedOption
  else if path.isEmpty then .error .noValue
  else .ok (some path)

def enter (collected : Collected) (slot : Slot) (value : String) :
    Except Interruption Collected := do
  match slot with
  | .input => return { collected with input := ← newPath collected.input value }
  | .config => return { collected with config := ← newPath collected.config value }
  | .logLevel =>
    return { collected with logLevel := ← newSetting collected.logLevel (LogLevel.read value) }
  | .format =>
    return { collected with format := ← newSetting collected.format (OutputFormat.read value) }
  | .combine =>
    return { collected with
      combineMode := ← newSetting collected.combineMode (CombineMode.read value) }

def settle (collected : Collected) : Except Interruption Collected :=
  match collected.begun with
  | none => .ok collected
  | some (_, none) => .error .noValue
  | some (slot, some value) => { collected with begun := none }.enter slot value

def hasInput (collected : Collected) : Bool :=
  collected.input.isSome || (collected.begun.map Prod.fst) == some .input

def plainWord (collected : Collected) (word : String) : Except Interruption Collected := do
  let settled ← collected.settle
  if collected.hasInput then
    return { settled with rest := settled.rest ++ [word] }
  else
    return { settled with begun := some (.input, some word) }

def flag (collected : Collected) (name : String) : Except Interruption Collected := do
  match name with
  | "symbolic" =>
    let settled ← collected.settle
    if settled.symbolic then throw .repeatedOption
    return { settled with symbolic := true }
  | "help" =>
    let _ ← collected.settle
    throw (.help true)
  | "version" =>
    let _ ← collected.settle
    throw .version
  | _ => throw .unknownOption

def isFlag (name : String) : Bool :=
  name == "symbolic" || name == "help" || name == "version"

def longOption (collected : Collected) (body : List Char) : Except Interruption Collected := do
  let name := String.ofList (body.takeWhile (· != '='))
  match Slot.ofOption? name, body.dropWhile (· != '=') with
  | some slot, [] =>
    let settled ← collected.settle
    return { settled with begun := some (slot, none) }
  | some slot, _ :: value => (← collected.settle).enter slot (String.ofList value)
  | none, [] => collected.flag name
  | none, _ :: _ => throw (if isFlag name then .unexpectedValue else .unknownOption)

def shortOption (collected : Collected) (letter : Char) : Except Interruption Collected := do
  match letter with
  | 'h' =>
    let _ ← collected.settle
    throw (.help false)
  | 'V' =>
    let _ ← collected.settle
    throw .version
  | _ => throw .unknownOption

def word (collected : Collected) (word : String) : Except Interruption Collected :=
  if collected.literally then collected.plainWord word
  else
    match word.toList with
    | ['-', '-'] => .ok { collected with literally := true }
    | '-' :: '-' :: body => collected.longOption body
    | '-' :: letter :: _ => collected.shortOption letter
    | _ =>
      match collected.begun with
      | some (slot, none) => .ok { collected with begun := some (slot, some word) }
      | _ => collected.plainWord word

def finish (collected : Collected) : Except Interruption Arguments := do
  let settled ← collected.settle
  match settled.input with
  | none => throw .missingInput
  | some input =>
    return {
      input
      rest := settled.rest
      logLevel := settled.logLevel
      format := settled.format
      combineMode := settled.combineMode
      symbolic := settled.symbolic
      config := settled.config }

end Collected

def parse (words : List String) : Except Interruption Arguments := do
  (← words.foldlM Collected.word {}).finish

end Arguments

end ClassSelection
