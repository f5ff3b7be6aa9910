import ClassSelection.Proofs.Condition.Outline

/-!
# Flattened guards in closed form

What several entries come to together, with no fold left in the statement.
Merging keeps the conditions of the innermost guard and gives each of them all
tests of the guards around it.  Distributing has one condition for each way to
take one from every guard, in the lexicographic order of their places, the
innermost guard first.  In either mode the number of conditions depends on the
sizes of the guards only (`length_flatten`).
-/

namespace ClassSelection

/-! ## Picking one condition from each guard -/

abbrev Pick := Condition × Nat

/-- Every way to take one condition from each guard, the first guard changing slowest. -/
def picks : List Alternatives → List (List Pick)
  | [] => [[]]
  | guard :: others => guard.zipIdx.flatMap fun pick => (picks others).map (pick :: ·)

def places (picked : List Pick) : List Nat :=
  picked.map Prod.snd

def pickedTests (picked : List Pick) : Finset Test :=
  Alternatives.testSet (picked.map Prod.fst)

/-- The list has every way to take one condition from each guard, and has them in lexicographic
order: the place in the first guard decides, then that in the second, and so on. -/
structure EnumeratesPicks (guards : List Alternatives) (all : List (List Pick)) : Prop where
  mem_iff : ∀ picked, picked ∈ all ↔
    List.Forall₂ (fun pick guard => guard[pick.2]? = some pick.1) picked guards
  ordered : all.Pairwise fun first second => places first < places second

theorem mem_picks {guards : List Alternatives} {picked : List Pick} :
    picked ∈ picks guards ↔
      List.Forall₂ (fun pick guard => guard[pick.2]? = some pick.1) picked guards := by
  induction guards generalizing picked with
  | nil => simp [picks]
  | cons guard guards ih =>
      simp only [picks, List.mem_flatMap, List.mem_map, List.mem_zipIdx_iff_getElem?, ih]
      constructor
      · rintro ⟨pick, hpick, others, hothers, rfl⟩
        exact .cons hpick hothers
      · rintro (_ | ⟨hpick, hothers⟩)
        exact ⟨_, hpick, _, hothers, rfl⟩

theorem pairwise_places_zipIdx (guard : Alternatives) :
    guard.zipIdx.Pairwise fun first second => first.2 < second.2 := by
  have hrange : (guard.zipIdx.map Prod.snd).Pairwise (· < ·) := by
    rw [List.zipIdx_map_snd]
    exact List.pairwise_lt_range'
  exact List.pairwise_map.1 hrange

theorem pairwise_picks (guards : List Alternatives) :
    (picks guards).Pairwise fun first second => places first < places second := by
  induction guards with
  | nil => exact List.pairwise_singleton _ _
  | cons guard guards ih =>
      refine List.pairwise_flatMap.2 ⟨fun pick _ => ?_, ?_⟩
      · exact List.pairwise_map.2 (ih.imp fun h => List.cons_lt_cons_iff.2 (.inr ⟨rfl, h⟩))
      · refine (pairwise_places_zipIdx guard).imp fun hplace first hfirst second hsecond => ?_
        obtain ⟨_, -, rfl⟩ := List.mem_map.1 hfirst
        obtain ⟨_, -, rfl⟩ := List.mem_map.1 hsecond
        exact List.cons_lt_cons_iff.2 (.inl hplace)

theorem enumeratesPicks_picks (guards : List Alternatives) :
    EnumeratesPicks guards (picks guards) :=
  ⟨fun _ => mem_picks, pairwise_picks guards⟩

theorem pickedTests_cons (pick : Pick) (picked : List Pick) :
    pickedTests (pick :: picked) = pick.1.testSet ∪ pickedTests picked := by
  ext test
  simp [pickedTests]

/-! ## The constraints among the entries -/

def constraints (entries : List Alternatives) : List Alternatives :=
  entries.filter (· ≠ [])

theorem ne_nil_of_mem_constraints {entries : List Alternatives} {entry : Alternatives}
    (h : entry ∈ constraints entries) : entry ≠ [] := by
  simpa using (List.mem_filter.1 h).2

namespace Alternatives

/-- The sets of tests of the conditions, where "no constraint" stands as one condition without
tests. -/
def rowSets (alternatives : Alternatives) : List (Finset Test) :=
  if alternatives = [] then [∅] else alternatives.map Condition.testSet

theorem rowSets_of_ne_nil {alternatives : Alternatives} (h : alternatives ≠ []) :
    rowSets alternatives = alternatives.map Condition.testSet :=
  if_neg h

end Alternatives

namespace CombineMode

open Alternatives (rowSets rowSets_of_ne_nil)

variable {mode : CombineMode}

/-- Entries without conditions leave no trace. -/
theorem flatten_constraints (entries : List Alternatives) :
    mode.flatten (constraints entries) = mode.flatten entries := by
  induction entries using List.reverseRecOn with
  | nil => rfl
  | append_singleton entries entry ih =>
      rw [constraints, List.filter_append, flatten_append_singleton, ← ih]
      rcases eq_or_ne entry [] with rfl | hentry
      · simp [constraints]
      · rw [List.filter_cons_of_pos (by simpa using hentry), List.filter_nil,
          flatten_append_singleton]
        rfl

/-! ## The closed forms -/

/-- Merging keeps the conditions of the innermost guard, and each takes in all tests around it. -/
theorem testSets_flatten_merge (outer : List Alternatives) {inner : Alternatives}
    (hinner : inner ≠ []) :
    (merge.flatten (outer ++ [inner])).map Condition.testSet =
      inner.map fun condition =>
        condition.testSet ∪ outer.toFinset.biUnion Alternatives.testSet := by
  rw [flatten_append_singleton, testSets_combine_merge hinner, testSet_flatten]

theorem rowSets_combine_distribute {left : Alternatives} (hleft : left ≠ [])
    (right : Alternatives) :
    rowSets (distribute.combine left right) =
      left.flatMap fun l => (rowSets right).map (l.testSet ∪ ·) := by
  have hne : distribute.combine left right ≠ [] := fun hnil => hleft (combine_eq_nil.1 hnil).1
  rw [rowSets_of_ne_nil hne]
  rcases eq_or_ne right [] with rfl | hright
  · simp [rowSets, List.map_eq_flatMap]
  · rw [rowSets_of_ne_nil hright, testSets_combine_distribute hleft hright]

/-- Distributing takes one condition from each guard in every possible way. -/
theorem rowSets_flatten_distribute {guards : List Alternatives}
    (hguards : ∀ guard ∈ guards, guard ≠ []) :
    rowSets (distribute.flatten guards) = (picks guards.reverse).map pickedTests := by
  induction guards using List.reverseRecOn with
  | nil => rfl
  | append_singleton outer inner ih =>
      have hinner : inner ≠ [] := hguards inner (by simp)
      have houter := ih fun guard hguard => hguards guard (List.mem_append_left _ hguard)
      have hzip (f : Condition → List (Finset Test)) :
          inner.flatMap f = inner.zipIdx.flatMap fun pick => f pick.1 := by
        conv_lhs => rw [← List.zipIdx_map_fst 0 inner, List.flatMap_map]
      rw [flatten_append_singleton, rowSets_combine_distribute hinner, houter, hzip,
        List.reverse_append, List.reverse_singleton, List.singleton_append, picks,
        List.map_flatMap]
      simp only [List.map_map, Function.comp_def, pickedTests_cons]

theorem length_picks (guards : List Alternatives) :
    (picks guards).length = (guards.map List.length).prod := by
  induction guards with
  | nil => rfl
  | cons guard guards ih => simp [picks, List.length_flatMap, ih]

theorem flatten_ne_nil {guards : List Alternatives} (hne : guards ≠ [])
    (hguards : ∀ guard ∈ guards, guard ≠ []) : mode.flatten guards ≠ [] := by
  obtain ⟨guard, hguard⟩ := List.exists_mem_of_ne_nil _ hne
  exact fun hnil => hguards guard hguard (flatten_eq_nil.1 hnil guard hguard)

theorem length_flatten_merge (outer : List Alternatives) {inner : Alternatives}
    (hinner : inner ≠ []) : (merge.flatten (outer ++ [inner])).length = inner.length := by
  rw [flatten_append_singleton, length_combine_merge hinner]

theorem length_flatten_distribute {guards : List Alternatives} (hne : guards ≠ [])
    (hguards : ∀ guard ∈ guards, guard ≠ []) :
    (distribute.flatten guards).length = (guards.map List.length).prod := by
  have hrows := congrArg List.length (rowSets_flatten_distribute hguards)
  rw [rowSets_of_ne_nil (flatten_ne_nil hne hguards), List.length_map, List.length_map,
    length_picks, List.map_reverse, List.prod_reverse] at hrows
  exact hrows

end CombineMode

/-- What the entries come to, in terms of the constraints among them: nothing without a constraint,
else the conditions of the innermost one or all ways to pick from each of them. -/
structure FlattensInClosedForm (entries : List Alternatives) : Prop where
  unconstrained (mode : CombineMode) (h : constraints entries = []) : mode.flatten entries = []
  merge (outer : List Alternatives) (inner : Alternatives)
    (h : constraints entries = outer ++ [inner]) :
    (CombineMode.merge.flatten entries).length = inner.length ∧
      (CombineMode.merge.flatten entries).map Condition.testSet =
        inner.map fun condition =>
          condition.testSet ∪ outer.toFinset.biUnion Alternatives.testSet
  distribute (outer : List Alternatives) (inner : Alternatives)
    (h : constraints entries = outer ++ [inner]) :
    (CombineMode.distribute.flatten entries).length = ((outer ++ [inner]).map List.length).prod ∧
      ∃ all, EnumeratesPicks (inner :: outer.reverse) all ∧
        (CombineMode.distribute.flatten entries).map Condition.testSet = all.map pickedTests

theorem flattensInClosedForm (entries : List Alternatives) : FlattensInClosedForm entries where
  unconstrained mode h := by
    rw [← CombineMode.flatten_constraints, h]
    rfl
  merge outer inner h := by
    have hinner : inner ≠ [] := ne_nil_of_mem_constraints (h ▸ List.mem_concat_self)
    rw [← CombineMode.flatten_constraints, h]
    exact ⟨CombineMode.length_flatten_merge outer hinner,
      CombineMode.testSets_flatten_merge outer hinner⟩
  distribute outer inner h := by
    have hguards : ∀ guard ∈ outer ++ [inner], guard ≠ [] :=
      fun _ hguard => ne_nil_of_mem_constraints (h ▸ hguard)
    have hne : outer ++ [inner] ≠ [] := by simp
    have hrows := CombineMode.rowSets_flatten_distribute hguards
    rw [Alternatives.rowSets_of_ne_nil (CombineMode.flatten_ne_nil hne hguards),
      List.reverse_append, List.reverse_singleton, List.singleton_append] at hrows
    rw [← CombineMode.flatten_constraints, h]
    exact ⟨CombineMode.length_flatten_distribute hne hguards, picks (inner :: outer.reverse),
      enumeratesPicks_picks _, hrows⟩

/-! ## The number of conditions -/

namespace CombineMode

/-- The number of conditions that entries of the given sizes come to; those of size 0 do not
count. -/
def rowCount (mode : CombineMode) (sizes : List Nat) : Nat :=
  let guards := sizes.filter (· ≠ 0)
  if guards = [] then 0
  else
    match mode with
    | merge => guards.getLastD 0
    | distribute => guards.prod

theorem sizes_constraints (entries : List Alternatives) :
    (entries.map List.length).filter (· ≠ 0) = (constraints entries).map List.length := by
  rw [List.filter_map, constraints]
  congr 2
  funext entry
  simp

theorem length_flatten (mode : CombineMode) (entries : List Alternatives) :
    (mode.flatten entries).length = mode.rowCount (entries.map List.length) := by
  unfold rowCount
  rw [sizes_constraints]
  rcases List.eq_nil_or_concat' (constraints entries) with hnil | ⟨outer, inner, hconcat⟩
  · rw [(flattensInClosedForm entries).unconstrained mode hnil, hnil]
    rfl
  · rw [hconcat, if_neg (by simp)]
    cases mode with
    | merge =>
        rw [((flattensInClosedForm entries).merge outer inner hconcat).1, List.map_append,
          List.map_singleton, List.getLastD_concat]
    | distribute => exact ((flattensInClosedForm entries).distribute outer inner hconcat).1

end CombineMode

end ClassSelection
