import ClassSelection.Json.Printer
import ClassSelection.Table.Basic

/-!
# Decision tables in JSON

The whole table as one document, anomalies included.
-/

namespace ClassSelection

def Test.toJson (test : Test) : Json :=
  .object [("variable", .string test.subject), ("comparator", .string test.comparator.mnemonic),
    ("value", .string test.value)]

def Condition.toJson (condition : Condition) : Json :=
  .ofList Test.toJson condition.tests

def Rule.toJson (rule : Rule) : Json :=
  .object [("target", .string rule.target),
    ("alternatives", .ofList Condition.toJson rule.alternatives),
    ("sequence", .ofNat rule.sequence), ("line", .ofNat rule.line),
    ("has_exit", .bool rule.hasExit)]

def FilterList.toJson (list : FilterList) : Json :=
  .object [("name", .string list.name), ("include", .string list.included),
    ("exclude", .string list.excluded)]

def AnomalyKind.toJson : AnomalyKind → Json
  | unknownKeyword keyword =>
    .object [("kind", .string "unknown_keyword"), ("keyword", .string keyword)]
  | swappedOperands left comparator right =>
    .object [("kind", .string "swapped_operands"), ("left", .string left),
      ("comparator", .string comparator), ("right", .string right)]

def Anomaly.toJson (anomaly : Anomaly) : Json :=
  .object [("line", .ofNat anomaly.line), ("kind", anomaly.kind.toJson)]

namespace DecisionTable

def toJson (table : DecisionTable) : Json :=
  .object [
    ("routine", .ofOption (fun kind => .string kind.name) table.kind),
    ("variables", .ofList .string table.registry.names),
    ("rules", .ofList Rule.toJson table.rules),
    ("filter_lists", .ofList FilterList.toJson table.filterLists),
    ("anomalies", .ofList Anomaly.toJson table.anomalies)]

def toJsonText (table : DecisionTable) : String :=
  table.toJson.render ++ "\n"

end DecisionTable

end ClassSelection
