import ClassSelection.Proofs.Json.RoundTrip
import ClassSelection.Table.Json

/-!
# Tables read back from JSON

A reader of the documents that tables are written as: it looks the members of an object up by
their keys, names a kind of routine and a comparator by what stands for it, and tells the kinds
of anomalies by their tag.  It takes back every table, so a table is determined by its text.
-/

namespace ClassSelection

variable {α : Type}

namespace Json

def member? (key : String) (decode : Json → Option α) : Json → Option α
  | object members => members.lookup key >>= decode
  | _ => none

def text? : Json → Option String
  | string text => some text
  | _ => none

def nat? : Json → Option Nat
  | number literal =>
    if literal.toList.all Char.isDigit then some (Nat.ofDigitChars 10 literal.toList 0) else none
  | _ => none

def flag? : Json → Option Bool
  | bool value => some value
  | _ => none

def named? (ofName? : String → Option α) (document : Json) : Option α :=
  document.text? >>= ofName?

def items? (decode : Json → Option α) : Json → Option (List α)
  | array items => items.mapM decode
  | _ => none

def orNull? (decode : Json → Option α) : Json → Option (Option α)
  | null => some none
  | document => (decode document).map some

@[simp] theorem nat?_ofNat (n : Nat) : (ofNat n).nat? = some n := by
  have hdigits : (Nat.toDigits 10 n).all Char.isDigit = true :=
    List.all_eq_true.2 fun c hc => Nat.isDigit_of_mem_toDigits (by decide) (by decide) hc
  rw [ofNat, nat?, Nat.toString_eq_ofList_toDigits, String.toList_ofList, if_pos hdigits,
    Nat.ofDigitChars_ten_toDigits]

theorem items?_ofList {encode : α → Json} {decode : Json → Option α}
    (h : ∀ a, decode (encode a) = some a) (items : List α) :
    (ofList encode items).items? decode = some items := by
  rw [ofList, items?]
  induction items with
  | nil => rfl
  | cons item items ih => simp [h, ih]

theorem orNull?_ofOption {encode : α → Json} {decode : Json → Option α}
    (h : ∀ a, decode (encode a) = some a) (hnull : ∀ a, encode a ≠ null) (option : Option α) :
    (ofOption encode option).orNull? decode = some option := by
  cases option with
  | none => rfl
  | some a =>
      rw [ofOption, orNull?, h, Option.map_some]
      exact hnull a

end Json

open Json

def Test.ofJson? (document : Json) : Option Test := do
  return {
    subject := ← document.member? "variable" text?
    comparator := ← document.member? "comparator" (named? Comparator.ofSpelling?)
    value := ← document.member? "value" text? }

def Condition.ofJson? (document : Json) : Option Condition :=
  (document.items? Test.ofJson?).map Condition.mk

def Rule.ofJson? (document : Json) : Option Rule := do
  return {
    target := ← document.member? "target" text?
    alternatives := ← document.member? "alternatives" (items? Condition.ofJson?)
    sequence := ← document.member? "sequence" nat?
    line := ← document.member? "line" nat?
    hasExit := ← document.member? "has_exit" flag? }

def FilterList.ofJson? (document : Json) : Option FilterList := do
  return {
    name := ← document.member? "name" text?
    included := ← document.member? "include" text?
    excluded := ← document.member? "exclude" text? }

def AnomalyKind.ofJson? (document : Json) : Option AnomalyKind := do
  match ← document.member? "kind" text? with
  | "unknown_keyword" => return .unknownKeyword (← document.member? "keyword" text?)
  | "swapped_operands" =>
    return .swappedOperands (← document.member? "left" text?)
      (← document.member? "comparator" text?) (← document.member? "right" text?)
  | _ => none

def Anomaly.ofJson? (document : Json) : Option Anomaly := do
  return {
    line := ← document.member? "line" nat?
    kind := ← document.member? "kind" AnomalyKind.ofJson? }

def DecisionTable.ofJson? (document : Json) : Option DecisionTable := do
  return {
    kind := ← document.member? "routine" (orNull? (named? RoutineKind.ofName?))
    registry := .ofNames (← document.member? "variables" (items? text?))
    rules := ← document.member? "rules" (items? Rule.ofJson?)
    filterLists := ← document.member? "filter_lists" (items? FilterList.ofJson?)
    anomalies := ← document.member? "anomalies" (items? Anomaly.ofJson?) }

@[simp] theorem Test.ofJson?_toJson (test : Test) : Test.ofJson? test.toJson = some test := by
  simp [ofJson?, toJson, member?, List.lookup_cons, text?, named?]

@[simp] theorem Condition.ofJson?_toJson (condition : Condition) :
    Condition.ofJson? condition.toJson = some condition := by
  rw [ofJson?, toJson, items?_ofList Test.ofJson?_toJson, Option.map_some]

@[simp] theorem Rule.ofJson?_toJson (rule : Rule) : Rule.ofJson? rule.toJson = some rule := by
  simp [ofJson?, toJson, member?, List.lookup_cons, text?, flag?,
    items?_ofList Condition.ofJson?_toJson]

@[simp] theorem FilterList.ofJson?_toJson (list : FilterList) :
    FilterList.ofJson? list.toJson = some list := by
  simp [ofJson?, toJson, member?, List.lookup_cons, text?]

@[simp] theorem AnomalyKind.ofJson?_toJson (kind : AnomalyKind) :
    AnomalyKind.ofJson? kind.toJson = some kind := by
  cases kind with
  | unknownKeyword keyword => simp [ofJson?, toJson, member?, List.lookup_cons, text?]
  | swappedOperands left comparator right =>
      simp [ofJson?, toJson, member?, List.lookup_cons, text?]

@[simp] theorem Anomaly.ofJson?_toJson (anomaly : Anomaly) :
    Anomaly.ofJson? anomaly.toJson = some anomaly := by
  simp [ofJson?, toJson, member?, List.lookup_cons]

theorem DecisionTable.ofJson?_toJson (table : DecisionTable) :
    DecisionTable.ofJson? table.toJson = some table := by
  have hname (kind : RoutineKind) :
      named? RoutineKind.ofName? (.string kind.name) = some kind := by
    simp [named?, text?]
  have hkind := orNull?_ofOption hname (by simp) table.kind
  have htext (name : String) : text? (.string name) = some name := rfl
  simp [ofJson?, toJson, member?, List.lookup_cons, hkind, items?_ofList htext,
    items?_ofList Rule.ofJson?_toJson, items?_ofList FilterList.ofJson?_toJson,
    items?_ofList Anomaly.ofJson?_toJson]

/-! ## The documents of a table -/

theorem Json.ReadsBack.ofList {encode : α → Json} (h : ∀ a, (encode a).ReadsBack)
    (items : List α) : (Json.ofList encode items).ReadsBack := by
  refine .array fun item hitem => ?_
  obtain ⟨a, -, rfl⟩ := List.mem_map.1 hitem
  exact h a

theorem Json.ReadsBack.ofOption {encode : α → Json} (h : ∀ a, (encode a).ReadsBack)
    (option : Option α) : (Json.ofOption encode option).ReadsBack := by
  cases option with
  | none => exact .null
  | some a => exact h a

theorem Test.readsBack_toJson (test : Test) : test.toJson.ReadsBack :=
  .object (by simp [ReadsBack.string])

theorem Condition.readsBack_toJson (condition : Condition) : condition.toJson.ReadsBack :=
  .ofList Test.readsBack_toJson condition.tests

theorem Rule.readsBack_toJson (rule : Rule) : rule.toJson.ReadsBack :=
  .object (by simp [ReadsBack.string, ReadsBack.ofNat, ReadsBack.bool,
    ReadsBack.ofList Condition.readsBack_toJson])

theorem FilterList.readsBack_toJson (list : FilterList) : list.toJson.ReadsBack :=
  .object (by simp [ReadsBack.string])

theorem AnomalyKind.readsBack_toJson (kind : AnomalyKind) : kind.toJson.ReadsBack := by
  cases kind with
  | unknownKeyword keyword => exact .object (by simp [ReadsBack.string])
  | swappedOperands left comparator right => exact .object (by simp [ReadsBack.string])

theorem Anomaly.readsBack_toJson (anomaly : Anomaly) : anomaly.toJson.ReadsBack :=
  .object (by simp [ReadsBack.ofNat, AnomalyKind.readsBack_toJson])

theorem DecisionTable.readsBack_toJson (table : DecisionTable) : table.toJson.ReadsBack :=
  .object (by simp [ReadsBack.string, ReadsBack.ofOption, ReadsBack.ofList,
    Rule.readsBack_toJson, FilterList.readsBack_toJson, Anomaly.readsBack_toJson])

/-- The text of a table is one JSON document, the reader takes the table back from it, and no other
table has this text. -/
theorem DecisionTable.read_toJsonText (table : DecisionTable) :
    Json.parse? table.toJsonText = some table.toJson ∧
      Json.parse? table.toJsonText >>= DecisionTable.ofJson? = some table ∧
      ∀ other : DecisionTable, other.toJsonText = table.toJsonText ↔ other = table := by
  have hparse (table : DecisionTable) : Json.parse? table.toJsonText = some table.toJson :=
    table.readsBack_toJson.parse?_render
  have hread (table : DecisionTable) :
      (Json.parse? table.toJsonText >>= DecisionTable.ofJson?) = some table := by
    rw [hparse, Option.bind_eq_bind, Option.bind_some, ofJson?_toJson]
  refine ⟨hparse table, hread table, fun other => ⟨fun h => ?_, congrArg toJsonText⟩⟩
  have hother := hread other
  rw [h, hread table] at hother
  exact (Option.some.inj hother).symm

end ClassSelection
