import ClassSelection.Condition.Registry
import ClassSelection.Proofs.Condition.FirstOccurrence

/-!
# Columns

The column of a variable is its place among the names that have been added, each
at its first occurrence (`names_ofList`).  As the names grow only at the end, a
column stays where it is; and as the set has the same names, asking for a variable
and asking for its column come to the same.
-/

namespace ClassSelection

namespace Registry

variable {registry : Registry} {name : String} {position : Nat}

/-! ## One variable more -/

theorem add_fst (registry : Registry) (name : String) :
    (registry.add name).1 = true ↔ name ∉ registry.names := by
  by_cases h : name ∈ registry.names <;> simp [add, h]

theorem names_add (registry : Registry) (name : String) :
    (registry.add name).2.names = addNew registry.names name := by
  by_cases h : name ∈ registry.names <;> simp [add, addNew, h]

theorem names_foldl_add (added : List String) (registry : Registry) :
    (added.foldl (fun registry name => (registry.add name).2) registry).names =
      added.foldl addNew registry.names :=
  (List.foldl_hom names fun registry name => (names_add registry name).symm).symm

/-- After any additions the names are those that were added, each at its first occurrence. -/
theorem names_ofList (added : List String) : (ofList added).names = added.eraseDups := by
  rw [ofList, names_foldl_add, ← foldl_addNew_nil]
  rfl

theorem mem_names_ofList {added : List String} : name ∈ (ofList added).names ↔ name ∈ added := by
  rw [names_ofList, List.mem_eraseDups]

theorem nodup_names_ofList (added : List String) : (ofList added).names.Nodup := by
  rw [names_ofList]
  exact nodup_eraseDups added

/-- Later additions are behind the names that are there. -/
theorem names_ofList_append (added later : List String) :
    (ofList added).names <+: (ofList (added ++ later)).names := by
  rw [names_ofList, names_ofList, List.eraseDups_append]
  exact List.prefix_append _ _

/-! ## The set of names -/

theorem known_eq (registry : Registry) : registry.known = .ofList registry.names :=
  Std.ExtTreeSet.ext_mem fun name => by simp [registry.mem_known]

theorem size_known (h : registry.names.Nodup) : registry.known.size = registry.size := by
  have hdistinct : registry.names.Pairwise fun name other => ¬compare name other = .eq :=
    h.imp fun hne heq => hne (Std.LawfulEqCmp.compare_eq_iff_eq.1 heq)
  rw [known_eq, Std.ExtTreeSet.size_ofList hdistinct, size]

/-! ## Columns -/

theorem isSome_position? : (registry.position? name).isSome = true ↔ name ∈ registry.names :=
  List.isSome_idxOf?

/-- Where no name is repeated, the column of a name is the one place at which it stands. -/
theorem position?_eq_some_iff (h : registry.names.Nodup) :
    registry.position? name = some position ↔ registry.names[position]? = some name := by
  rw [position?, List.idxOf?_eq_some_iff]
  constructor
  · rintro ⟨hlt, hname, -⟩
    rw [List.getElem?_eq_getElem hlt, hname]
  · intro hname
    obtain ⟨hlt, hname⟩ := List.getElem?_eq_some_iff.1 hname
    refine ⟨hlt, hname, fun earlier hearlier hsame => ?_⟩
    have heq : earlier = position := h.getElem_inj_iff.1 (hsame.trans hname.symm)
    exact Nat.ne_of_lt hearlier heq

theorem position?_of_extends {other : Registry} (hother : other.names.Nodup)
    (hextends : registry.names <+: other.names) (h : registry.position? name = some position) :
    other.position? name = some position := by
  obtain ⟨later, hnames⟩ := hextends
  obtain ⟨hlt, hname, -⟩ := List.idxOf?_eq_some_iff.1 h
  rw [position?_eq_some_iff hother, ← hnames, List.getElem?_append_left hlt,
    List.getElem?_eq_getElem hlt, hname]

structure FixesColumns (registry : Registry) (added : List String) : Prop where
  mem_known : ∀ name, name ∈ registry.known ↔ name ∈ added
  /-- The list and the set have the same names, and equally many. -/
  same_names : ∀ name, name ∈ registry.known ↔ name ∈ registry.names
  size_known : registry.known.size = registry.size
  nodup : registry.names.Nodup
  names_eq : registry.names = added.eraseDups
  /-- The next addition says whether its name is new. -/
  add_eq_true_iff : ∀ name, (registry.add name).1 = true ↔ name ∉ added
  contains_iff : ∀ name, registry.contains name = true ↔ (registry.position? name).isSome = true
  position_iff : ∀ name position,
    registry.position? name = some position ↔ registry.names[position]? = some name
  /-- No column is moved by later additions. -/
  stable : ∀ later name position, registry.position? name = some position →
    (ofList (added ++ later)).position? name = some position

theorem fixesColumns_ofList (added : List String) : (ofList added).FixesColumns added where
  mem_known name := by rw [(ofList added).mem_known, mem_names_ofList]
  same_names := (ofList added).mem_known
  size_known := size_known (nodup_names_ofList added)
  nodup := nodup_names_ofList added
  names_eq := names_ofList added
  add_eq_true_iff name := by rw [add_fst, mem_names_ofList]
  contains_iff _ := contains_iff.trans isSome_position?.symm
  position_iff _ _ := position?_eq_some_iff (nodup_names_ofList added)
  stable later _ _ := position?_of_extends (nodup_names_ofList (added ++ later))
    (names_ofList_append added later)

end Registry

end ClassSelection
