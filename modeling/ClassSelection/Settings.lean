import ClassSelection.Condition.Algebra
import ClassSelection.Json.Parser
import ClassSelection.Table.Format

/-!
# Settings

What a run can be told: how much to log, how to combine alternatives, and what the output looks
like. Settings are named in words, which may be spelled with capitals except in a config file, and a
config file is a JSON document. Overrides change some settings and leave the others.
-/

namespace ClassSelection

inductive LogLevel where
  | trace
  | debug
  | info
  | warn
  | error
  deriving DecidableEq, Repr, Inhabited

namespace LogLevel

def name : LogLevel → String
  | trace => "trace"
  | debug => "debug"
  | info => "info"
  | warn => "warn"
  | error => "error"

def ofName? (word : String) : Option LogLevel :=
  match word with
  | "trace" => some trace
  | "debug" => some debug
  | "info" => some info
  | "warn" | "warning" => some warn
  | "error" => some error
  | _ => none

end LogLevel

def CombineMode.ofName? (word : String) : Option CombineMode :=
  match word with
  | "merge" => some .merge
  | "distribute" | "cartesian" => some .distribute
  | _ => none

def OutputFormat.ofName? (word : String) : Option OutputFormat :=
  match word with
  | "csv" => some .csv
  | "json" => some .json
  | _ => none

def ComparatorStyle.ofName? (word : String) : Option ComparatorStyle :=
  match word with
  | "mnemonic" => some .mnemonic
  | "symbolic" => some .symbolic
  | _ => none

/-! ## Words with capitals -/

/-- A word in small letters. ASCII letters are enough here: no other character has a small form
that occurs in the name of a setting. -/
def smallLetters (word : String) : String :=
  String.ofList (word.toList.map Char.toLower)

def readSetting {α : Type} (ofName? : String → Option α) (what choices word : String) :
    Except Error α :=
  match ofName? (smallLetters word) with
  | some setting => .ok setting
  | none =>
    .error (.invalidConfig
      ("unknown " ++ what ++ " '" ++ word ++ "', expected one of: " ++ choices))

def LogLevel.read (word : String) : Except Error LogLevel :=
  readSetting ofName? "log level" "trace, debug, info, warn, error" word

def CombineMode.read (word : String) : Except Error CombineMode :=
  readSetting ofName? "combine mode" "merge, distribute" word

def OutputFormat.read (word : String) : Except Error OutputFormat :=
  readSetting ofName? "output format" "csv, json" word

/-! ## Settings and overrides -/

structure Settings where
  logLevel : LogLevel := .info
  combineMode : CombineMode := .merge
  format : OutputFormat := .csv
  comparatorStyle : ComparatorStyle := .mnemonic
  deriving DecidableEq, Repr

structure Overrides where
  logLevel : Option LogLevel := none
  combineMode : Option CombineMode := none
  format : Option OutputFormat := none
  comparatorStyle : Option ComparatorStyle := none
  deriving DecidableEq, Repr

def Settings.override (settings : Settings) (overrides : Overrides) : Settings where
  logLevel := overrides.logLevel.getD settings.logLevel
  combineMode := overrides.combineMode.getD settings.combineMode
  format := overrides.format.getD settings.format
  comparatorStyle := overrides.comparatorStyle.getD settings.comparatorStyle

/-! ## Config files -/

namespace Overrides

/-- The value of a setting in a config file: null for no change, a name, or an object that has the
name as its only key, with null under it. -/
def settingOfJson? {α : Type} (ofName? : String → Option α) : Json → Option (Option α)
  | .null => some none
  | .string word => (ofName? word).map some
  | .object [(word, .null)] => (ofName? word).map some
  | _ => none

def enter? (overrides : Overrides) (key : String) (value : Json) : Option Overrides :=
  match key with
  | "log_level" => do
    return { overrides with logLevel := ← settingOfJson? LogLevel.ofName? value }
  | "combine_mode" => do
    return { overrides with combineMode := ← settingOfJson? CombineMode.ofName? value }
  | "format" => do
    return { overrides with format := ← settingOfJson? OutputFormat.ofName? value }
  | "comparator_style" => do
    return { overrides with comparatorStyle := ← settingOfJson? ComparatorStyle.ofName? value }
  | _ => none

def enterAll? (overrides : Overrides) : List (String × Json) → Option Overrides
  | [] => some overrides
  | (key, value) :: members => do
    (← overrides.enter? key value).enterAll? members

/-- The keys of a config file. A document that is an array has the values in this order. -/
def keys : List String := ["log_level", "combine_mode", "format", "comparator_style"]

/-- The overrides of a config document, which names no setting twice and nothing else. -/
def ofJson? : Json → Option Overrides
  | .object members =>
    if (members.map Prod.fst).Nodup then enterAll? {} members else none
  | .array values =>
    if values.length ≤ keys.length then enterAll? {} (keys.zip values) else none
  | _ => none

def parse (text : String) : Except Error Overrides :=
  match Json.parse? text >>= ofJson? with
  | some overrides => .ok overrides
  | none => .error (.invalidConfig "bad config file: ")

end Overrides

/-! ## The environment -/

namespace Settings

def logLevelVariable : String := "ACS_EXTRACT_LOG_LEVEL"

def combineVariable : String := "ACS_EXTRACT_COMBINE"

def ofEnvironment (environment : String → Option String) : Except Error Settings := do
  let logLevel ← (environment logLevelVariable).mapM LogLevel.read
  let combineMode ← (environment combineVariable).mapM CombineMode.read
  return override {} { logLevel, combineMode }

end Settings

end ClassSelection
