import Std.Data.ExtTreeSet.Lemmas

/-!
# The variable registry

The variables that a routine tests, in the order in which they were first met. The order fixes the
columns of the decision table; a set of the same names tells whether a variable is known.
-/

namespace ClassSelection

/-- The variables met so far, in their order and as a set. -/
structure Registry where
  names : List String
  known : Std.ExtTreeSet String
  mem_known : ∀ name, name ∈ known ↔ name ∈ names

namespace Registry

/-- A set is determined by its members, so the names decide. -/
theorem ext_names {registry other : Registry} (h : registry.names = other.names) :
    registry = other := by
  obtain ⟨names, known, hknown⟩ := registry
  obtain ⟨_, known', hknown'⟩ := other
  obtain rfl : names = _ := h
  obtain rfl : known = known' :=
    Std.ExtTreeSet.ext_mem fun name => (hknown name).trans (hknown' name).symm
  rfl

instance : DecidableEq Registry := fun registry other =>
  decidable_of_iff (registry.names = other.names) ⟨ext_names, congrArg names⟩

instance : Repr Registry where
  reprPrec registry := reprPrec registry.names

def ofNames (names : List String) : Registry where
  names := names
  known := .ofList names
  mem_known _ := by simp

def empty : Registry := ofNames []

def contains (registry : Registry) (name : String) : Bool :=
  registry.known.contains name

def append (registry : Registry) (name : String) : Registry where
  names := registry.names ++ [name]
  known := registry.known.insert name
  mem_known other := by
    rw [Std.ExtTreeSet.mem_insert, Std.LawfulEqCmp.compare_eq_iff_eq, registry.mem_known,
      List.mem_append, List.mem_singleton, or_comm, @eq_comm _ other]

def add (registry : Registry) (name : String) : Bool × Registry :=
  if registry.contains name then (false, registry) else (true, registry.append name)

def ofList (names : List String) : Registry :=
  names.foldl (fun registry name => (registry.add name).2) empty

def position? (registry : Registry) (name : String) : Option Nat :=
  registry.names.idxOf? name

def size (registry : Registry) : Nat :=
  registry.names.length

@[simp] theorem ofNames_names (registry : Registry) : ofNames registry.names = registry :=
  ext_names rfl

@[simp] theorem contains_iff {registry : Registry} {name : String} :
    registry.contains name = true ↔ name ∈ registry.names := by
  rw [contains, Std.ExtTreeSet.contains_iff_mem, registry.mem_known]

@[simp] theorem names_append (registry : Registry) (name : String) :
    (registry.append name).names = registry.names ++ [name] := rfl

end Registry

end ClassSelection
