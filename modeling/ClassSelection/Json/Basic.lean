/-!
# JSON values

A JSON document as a tree. A number keeps its spelling, and an object its members in order.
-/

namespace ClassSelection

inductive Json where
  | null
  | bool (value : Bool)
  /-- A number, as it is spelled. -/
  | number (literal : String)
  | string (text : String)
  | array (items : List Json)
  | object (members : List (String × Json))
  deriving Repr, Inhabited

namespace Json

def ofNat (n : Nat) : Json := number (toString n)

def ofOption {α : Type} (encode : α → Json) : Option α → Json
  | none => null
  | some a => encode a

def ofList {α : Type} (encode : α → Json) (items : List α) : Json :=
  array (items.map encode)

end Json

end ClassSelection
