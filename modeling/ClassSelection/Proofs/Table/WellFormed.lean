import ClassSelection.Proofs.Reader.Soundness
import ClassSelection.Proofs.Table.Emission

/-!
# Well-formed tables

The guards of a routine are well-formed when they are read, and everything that
is done to them on the way to a rule keeps them so.  No guard is empty, nor is
the negation of one, so a rule has no alternatives only if its SET stands
outside every IF and every SELECT.
-/

namespace ClassSelection

structure DecisionTable.WellFormed (table : DecisionTable) : Prop where
  nodup : table.registry.names.Nodup
  rules : ∀ rule ∈ table.rules, rule.alternatives.WellFormed table.registry.names

mutual

/-- Of each SET, in order, whether a guard has to hold for it, given whether there is one around
the statement. -/
def Statement.guarded (inside : Bool) : Statement → List Bool
  | .skip => []
  | .assign _ _ => [inside]
  | .exit => []
  | .seq first second => first.guarded inside ++ second.guarded inside
  | .block body => body.guarded inside
  | .ifThen _ body => body.guarded true
  | .ifElse _ body alternative => body.guarded true ++ alternative.guarded true
  | .select branches => branches.guarded inside false

/-- An OTHERWISE behind no WHEN at all is not guarded by its SELECT. -/
def Branches.guarded (inside afterWhen : Bool) : Branches → List Bool
  | .done => []
  | .otherwise body => body.guarded (inside || afterWhen)
  | .when _ body others => body.guarded true ++ others.guarded inside true

end

/-- A rule has alternatives just where a guard is around its SET. -/
def DecisionTable.GuardedAs (table : DecisionTable) (body : Statement) : Prop :=
  List.Forall₂ (fun rule guarded => rule.alternatives = [] ↔ guarded = false) table.rules
    (body.guarded false)

variable {mode : CombineMode} {names : List String}

/-! ## The conditions of rules -/

theorem forall_mem_append_singleton {P : Alternatives → Prop} {guards : List Alternatives}
    {guard : Alternatives} (hguards : ∀ entry ∈ guards, P entry) (hguard : P guard) :
    ∀ entry ∈ guards ++ [guard], P entry :=
  List.forall_mem_append.2 ⟨hguards, List.forall_mem_singleton.2 hguard⟩

section

variable {P : Alternatives → Prop} (hP : Alternatives.Kept mode P)

include hP

mutual

/-- What holds of the guards in a statement, and of those around it, holds of what it emits. -/
theorem Statement.of_mem_emissions {guards : List Alternatives} {target : String}
    {alternatives : Alternatives} {line : Nat} (statement : Statement)
    (hstatement : ∀ guard ∈ statement.guards, P (guard.alternatives mode))
    (hguards : ∀ entry ∈ guards, P entry)
    (h : .rule target alternatives line ∈ statement.emissions mode guards) : P alternatives := by
  match statement with
  | .skip => simp [Statement.emissions] at h
  | .assign value _ =>
      simp only [Statement.emissions, List.mem_singleton, Emission.rule.injEq] at h
      rw [h.2.1]
      exact hP.flatten hguards
  | .exit => simp [Statement.emissions] at h
  | .seq first second =>
      obtain ⟨hfirst, hsecond⟩ := List.forall_mem_append.1 hstatement
      rcases List.mem_append.1 h with h | h
      · exact first.of_mem_emissions hfirst hguards h
      · exact second.of_mem_emissions hsecond hguards h
  | .block body => exact body.of_mem_emissions hstatement hguards h
  | .ifThen guard body =>
      obtain ⟨hguard, hbody⟩ := List.forall_mem_cons.1 hstatement
      exact body.of_mem_emissions hbody (forall_mem_append_singleton hguards hguard) h
  | .ifElse guard body alternative =>
      obtain ⟨hguard, hbodies⟩ := List.forall_mem_cons.1 hstatement
      obtain ⟨hbody, halternative⟩ := List.forall_mem_append.1 hbodies
      rcases List.mem_append.1 h with h | h
      · exact body.of_mem_emissions hbody (forall_mem_append_singleton hguards hguard) h
      · exact alternative.of_mem_emissions halternative
          (forall_mem_append_singleton hguards (hP.negate hguard)) h
  | .select branches => exact branches.of_mem_emissions hstatement hguards (by simp) h

theorem Branches.of_mem_emissions {guards earlier : List Alternatives} {target : String}
    {alternatives : Alternatives} {line : Nat} (branches : Branches)
    (hbranches : ∀ guard ∈ branches.guards, P (guard.alternatives mode))
    (hguards : ∀ entry ∈ guards, P entry) (hearlier : ∀ branch ∈ earlier, P branch)
    (h : .rule target alternatives line ∈ branches.emissions mode guards earlier) :
    P alternatives := by
  match branches with
  | .done => simp [Branches.emissions] at h
  | .otherwise body =>
      exact body.of_mem_emissions hbranches
        (forall_mem_append_singleton hguards (hP.noneOf hearlier)) h
  | .when guard body others =>
      obtain ⟨hguard, hbodies⟩ := List.forall_mem_cons.1 hbranches
      obtain ⟨hbody, hothers⟩ := List.forall_mem_append.1 hbodies
      rcases List.mem_append.1 h with h | h
      · exact body.of_mem_emissions hbody (forall_mem_append_singleton hguards hguard) h
      · exact others.of_mem_emissions hothers hguards
          (forall_mem_append_singleton hearlier hguard) h

end

end

theorem Statement.wellFormed_of_mem_emissions {guards : List Alternatives} {target : String}
    {alternatives : Alternatives} {line : Nat} (statement : Statement)
    (hstatement : statement.WellFormed names) (hguards : ∀ entry ∈ guards, entry.WellFormed names)
    (h : .rule target alternatives line ∈ statement.emissions mode guards) :
    alternatives.WellFormed names :=
  statement.of_mem_emissions (.wellFormed mode names)
    (fun guard hguard => (hstatement guard hguard).alternatives) hguards h

/-! ## Guarded rules -/

def EmptyIfUnguarded (site : String × Alternatives × Nat) (guarded : Bool) : Prop :=
  site.2.1 = [] ↔ guarded = false

theorem flatten_append_ne_nil {guards : List Alternatives} {guard : Alternatives}
    (h : guard ≠ []) : mode.flatten (guards ++ [guard]) = [] ↔ true = false := by
  simp [CombineMode.flatten_append_singleton, CombineMode.combine_eq_nil, h]

theorem Expr.negate_alternatives_ne_nil (mode : CombineMode) (expr : Expr) :
    mode.negate (expr.alternatives mode) ≠ [] :=
  CombineMode.negate_ne_nil (expr.proper_alternatives mode)

mutual

theorem Statement.forall₂_guarded {guards : List Alternatives} {inside : Bool}
    (statement : Statement) (h : mode.flatten guards = [] ↔ inside = false) :
    List.Forall₂ EmptyIfUnguarded ((statement.emissions mode guards).filterMap Emission.site?)
      (statement.guarded inside) := by
  match statement with
  | .skip => exact .nil
  | .assign value line => exact .cons h .nil
  | .exit => exact .nil
  | .seq first second =>
      rw [Statement.emissions, List.filterMap_append]
      exact List.rel_append (first.forall₂_guarded h) (second.forall₂_guarded h)
  | .block body => exact body.forall₂_guarded h
  | .ifThen guard body =>
      exact body.forall₂_guarded (flatten_append_ne_nil (guard.proper_alternatives mode).ne_nil)
  | .ifElse guard body alternative =>
      rw [Statement.emissions, List.filterMap_append]
      exact List.rel_append
        (body.forall₂_guarded (flatten_append_ne_nil (guard.proper_alternatives mode).ne_nil))
        (alternative.forall₂_guarded
          (flatten_append_ne_nil (guard.negate_alternatives_ne_nil mode)))
  | .select branches =>
      exact branches.forall₂_guarded h (by simp [CombineMode.noneOf])

theorem Branches.forall₂_guarded {guards earlier : List Alternatives} {inside afterWhen : Bool}
    (branches : Branches) (h : mode.flatten guards = [] ↔ inside = false)
    (hearlier : mode.noneOf earlier = [] ↔ afterWhen = false) :
    List.Forall₂ EmptyIfUnguarded
      ((branches.emissions mode guards earlier).filterMap Emission.site?)
      (branches.guarded inside afterWhen) := by
  match branches with
  | .done => exact .nil
  | .otherwise body =>
      apply body.forall₂_guarded
      rw [CombineMode.flatten_append_singleton, CombineMode.combine_eq_nil, h, hearlier]
      simp [and_comm]
  | .when guard body others =>
      rw [Branches.emissions, List.filterMap_append]
      refine List.rel_append
        (body.forall₂_guarded (flatten_append_ne_nil (guard.proper_alternatives mode).ne_nil))
        (others.forall₂_guarded h ?_)
      rw [CombineMode.noneOf_append_singleton, CombineMode.combine_eq_nil]
      simp [guard.negate_alternatives_ne_nil mode]

end

/-! ## Tables -/

theorem Emission.mem_of_mem_rules {emissions : List Emission} {rule : Rule}
    (h : rule ∈ (emissions.foldl apply []).reverse) :
    .rule rule.target rule.alternatives rule.line ∈ emissions := by
  have hsite : rule.site ∈ emissions.filterMap site? := by
    rw [← sites_rules]
    exact List.mem_map_of_mem h
  obtain ⟨emission, hemission, hrule⟩ := List.mem_filterMap.1 hsite
  cases emission with
  | rule target alternatives line =>
      cases hrule
      exact hemission
  | exit => cases hrule

theorem Routine.wellFormed_of_parse {source : String} {routine : Routine}
    (h : Routine.parse source = .ok routine) :
    routine.registry.names.Nodup ∧ routine.body.WellFormed routine.registry.names := by
  rw [Routine.parse] at h
  cases hbody : Reader.routineBody (.ofSource source) with
  | error error last =>
      rw [hbody] at h
      cases h
  | ok body final =>
      rw [hbody] at h
      cases h
      obtain ⟨hfinal, -, hwellFormed⟩ := (Reader.keeps_routineBody _
        (Reading.sound_ofSource source) (List.nil_subset _)).1 _ _ hbody
      exact ⟨hfinal.nodup, hwellFormed⟩

/-- Every table is well-formed, and its rules have alternatives exactly where a guard is around
their SET, in either mode. -/
theorem wellFormed_of_ofSource {mode : CombineMode} {source : String} {table : DecisionTable}
    (h : DecisionTable.ofSource mode source = .ok table) :
    table.WellFormed ∧
      ∃ routine, Routine.parse source = .ok routine ∧ table.GuardedAs routine.body := by
  rw [DecisionTable.ofSource] at h
  cases hparse : Routine.parse source with
  | error error =>
      rw [hparse] at h
      cases h
  | ok routine =>
      rw [hparse] at h
      have hroutine := DecisionTable.ofRoutine_eq mode routine
      obtain rfl : _ = table := Except.ok.inj (hroutine.symm.trans h)
      obtain ⟨hnodup, hbody⟩ := Routine.wellFormed_of_parse hparse
      refine ⟨⟨hnodup, fun rule hrule => ?_⟩, routine, rfl, ?_⟩
      · have hemission := Emission.mem_of_mem_rules hrule
        exact routine.body.wellFormed_of_mem_emissions hbody (by simp) hemission
      · have hguarded : List.Forall₂ EmptyIfUnguarded
            ((routine.body.emissions mode []).filterMap Emission.site?)
            (routine.body.guarded false) :=
          routine.body.forall₂_guarded (by simp [CombineMode.flatten])
        rw [← Emission.sites_rules, List.forall₂_map_left_iff] at hguarded
        exact hguarded

def mixedSets : String :=
  "SET &STORCLAS = 'A'
   SELECT (&B) WHEN (1, 2) SET &STORCLAS = 'C' OTHERWISE SET &STORCLAS = 'D' END
   SELECT OTHERWISE SET &STORCLAS = 'E' END"

theorem mixedSets_wellFormed :
    ∃ table, DecisionTable.ofSource .merge mixedSets = .ok table ∧
      table.rules.map (·.alternatives.length) = [0, 2, 1, 0] ∧ table.WellFormed ∧
      ∃ routine, Routine.parse mixedSets = .ok routine ∧ table.GuardedAs routine.body := by
  have hrules : (DecisionTable.ofSource .merge mixedSets).map
      (fun table => table.rules.map (·.alternatives.length)) = .ok [0, 2, 1, 0] := by
    decide +kernel
  cases htable : DecisionTable.ofSource .merge mixedSets with
  | error error =>
      rw [htable] at hrules
      cases hrules
  | ok table =>
      obtain ⟨hwellFormed, hguarded⟩ := wellFormed_of_ofSource htable
      rw [htable] at hrules
      exact ⟨table, rfl, Except.ok.inj hrules, hwellFormed, hguarded⟩

end ClassSelection
