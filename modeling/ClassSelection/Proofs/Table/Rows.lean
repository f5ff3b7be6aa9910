import ClassSelection.Proofs.Condition.Flatten
import ClassSelection.Proofs.Table.Exclusion

/-!
# The rows of a table

Each rule belongs to a SET that the unfolding comes to, and its alternatives are
the flattened guards that are open there.  So the closed form of
`Condition.Flatten` is one of rules, and the number of a rule's rows is fixed by
the sizes of the open guards.
-/

namespace ClassSelection

variable {mode : CombineMode} {site : String × Alternatives × Nat}

/-- The unfolding of a statement comes to the SET of this site when there are this many rules, and
the site's alternatives are the guards that are open there. -/
def Statement.SetsAt (mode : CombineMode) (site : String × Alternatives × Nat) (count : Nat)
    (statement : Statement) (state : Unfolding) : Prop :=
  ∃ there, Statement.Meets mode (.assign site.1 site.2.2) there statement state ∧
    there.rules.length = count ∧ site.2.1 = there.scopes.flatten mode

def Branches.SetsAt (mode : CombineMode) (site : String × Alternatives × Nat) (count : Nat)
    (branches : Branches) (earlier : List Alternatives) (state : Unfolding) : Prop :=
  ∃ there, Branches.Meets mode (.assign site.1 site.2.2) there branches earlier state ∧
    there.rules.length = count ∧ site.2.1 = there.scopes.flatten mode

theorem Emission.site_append {first second : List Emission} {i : Nat}
    (h : ((first ++ second).filterMap site?)[i]? = some site) :
    (first.filterMap site?)[i]? = some site ∨
      ∃ j, i = (first.filterMap site?).length + j ∧ (second.filterMap site?)[j]? = some site := by
  rw [List.filterMap_append] at h
  rcases Nat.lt_or_ge i (first.filterMap site?).length with hlt | hge
  · exact .inl (by rwa [List.getElem?_append_left hlt] at h)
  · rw [List.getElem?_append_right hge] at h
    exact .inr ⟨_, (Nat.add_sub_cancel' hge).symm, h⟩

/-- After some emissions there are as many more rules as the emissions have sites. -/
theorem Unfolding.length_rules_after (state : Unfolding) (emissions : List Emission)
    (fresh : ScopeHandle) (j : Nat) :
    (state.after emissions fresh).rules.length + j =
      state.rules.length + ((emissions.filterMap Emission.site?).length + j) := by
  rw [rules_after, Emission.length_foldl_apply, Nat.add_assoc]

mutual

/-- Every site that a statement emits is that of a SET to which its unfolding comes. -/
theorem Statement.setsAt (statement : Statement) (state : Unfolding) {i : Nat}
    (h : ((statement.emissions mode state.scopes.guards).filterMap Emission.site?)[i]? =
      some site) :
    statement.SetsAt mode site (state.rules.length + i) state := by
  match statement with
  | .skip => cases h
  | .assign value line =>
      cases i with
      | zero =>
          cases h
          exact ⟨state, .itself, rfl, rfl⟩
      | succ i => cases h
  | .exit => cases h
  | .seq first second =>
      rcases Emission.site_append h with hsite | ⟨j, rfl, hsite⟩
      · obtain ⟨there, hmeets, hthere⟩ := first.setsAt state hsite
        exact ⟨there, .first hmeets, hthere⟩
      · obtain ⟨fresh, hfirst⟩ := first.unfold_eq mode state
        obtain ⟨there, hmeets, hcount, hguards⟩ := second.setsAt (state.after _ fresh) hsite
        exact ⟨there, .second hfirst hmeets, hcount.trans (state.length_rules_after _ fresh j),
          hguards⟩
  | .block body =>
      obtain ⟨there, hmeets, hthere⟩ := body.setsAt { state with depth := state.depth + 1 } h
      exact ⟨there, .block hmeets, hthere⟩
  | .ifThen guard body =>
      rw [Statement.emissions, ← Unfolding.guards_inside] at h
      obtain ⟨there, hmeets, hthere⟩ := body.setsAt (state.inside _) h
      exact ⟨there, .ifThen hmeets, hthere⟩
  | .ifElse guard body alternative =>
      rcases Emission.site_append h with hsite | ⟨j, rfl, hsite⟩
      · rw [← Unfolding.guards_inside] at hsite
        obtain ⟨there, hmeets, hthere⟩ := body.setsAt (state.inside _) hsite
        exact ⟨there, .ifElse hmeets, hthere⟩
      · obtain ⟨fresh, hbody⟩ := Unfolding.within_eq "IF"
          (body.unfold_eq mode (state.inside (guard.alternatives mode)))
        rw [Unfolding.guards_inside] at hbody
        let emitted := body.emissions mode (state.scopes.guards ++ [guard.alternatives mode])
        have hinside := Unfolding.guards_inside (state.after emitted fresh)
          (mode.negate (guard.alternatives mode))
        rw [Unfolding.guards_after] at hinside
        rw [← hinside] at hsite
        obtain ⟨there, hmeets, hcount, hguards⟩ := alternative.setsAt _ hsite
        exact ⟨there, .alternative hbody hmeets, hcount.trans (state.length_rules_after _ fresh j),
          hguards⟩
  | .select branches =>
      obtain ⟨there, hmeets, hthere⟩ := branches.setsAt [] state h
      exact ⟨there, .select hmeets, hthere⟩

theorem Branches.setsAt (branches : Branches) (earlier : List Alternatives) (state : Unfolding)
    {i : Nat}
    (h : ((branches.emissions mode state.scopes.guards earlier).filterMap Emission.site?)[i]? =
      some site) :
    branches.SetsAt mode site (state.rules.length + i) earlier state := by
  match branches with
  | .done => cases h
  | .otherwise body =>
      rw [Branches.emissions, ← Unfolding.guards_inside] at h
      obtain ⟨there, hmeets, hthere⟩ := body.setsAt (state.inside _) h
      exact ⟨there, .otherwise hmeets, hthere⟩
  | .when guard body others =>
      rcases Emission.site_append h with hsite | ⟨j, rfl, hsite⟩
      · rw [← Unfolding.guards_inside] at hsite
        obtain ⟨there, hmeets, hthere⟩ := body.setsAt (state.inside _) hsite
        exact ⟨there, .when hmeets, hthere⟩
      · obtain ⟨fresh, hbody⟩ := Unfolding.within_eq "WHEN"
          (body.unfold_eq mode (state.inside (guard.alternatives mode)))
        rw [Unfolding.guards_inside] at hbody
        obtain ⟨there, hmeets, hcount, hguards⟩ := others.setsAt _ (state.after _ fresh) hsite
        exact ⟨there, .others hbody hmeets, hcount.trans (state.length_rules_after _ fresh j),
          hguards⟩

end

/-! ## Rows -/

/-- The rules of the table are, one for one, those of the SETs that the unfolding comes to, and
each has as many rows as the sizes of the guards that are open there call for. -/
def DecisionTable.RowsFollowGuards (table : DecisionTable) (mode : CombineMode)
    (routine : Routine) : Prop :=
  ∀ (i : Nat) (rule : Rule), table.rules[i]? = some rule →
    ∃ there, Statement.Meets mode (.assign rule.target rule.line) there routine.body .start ∧
      there.rules.length = i ∧ rule.alternatives = there.scopes.flatten mode ∧
      rule.alternatives.length = mode.rowCount (there.scopes.guards.map List.length)

theorem rowsFollowGuards_of_ofSource {source : String} {table : DecisionTable}
    (h : DecisionTable.ofSource mode source = .ok table) :
    ∃ routine, Routine.parse source = .ok routine ∧ table.RowsFollowGuards mode routine := by
  rw [DecisionTable.ofSource] at h
  cases hparse : Routine.parse source with
  | error error =>
      rw [hparse] at h
      cases h
  | ok routine =>
      rw [hparse] at h
      obtain rfl : _ = table :=
        Except.ok.inj ((DecisionTable.ofRoutine_eq mode routine).symm.trans h)
      refine ⟨routine, rfl, fun i rule hrule => ?_⟩
      have hsite : ((routine.body.emissions mode []).filterMap Emission.site?)[i]? =
          some rule.site := by
        rw [← Emission.sites_rules, List.getElem?_map, hrule, Option.map_some]
      obtain ⟨there, hmeets, hcount, hguards⟩ := routine.body.setsAt .start hsite
      have hflatten : rule.alternatives = there.scopes.flatten mode := hguards
      refine ⟨there, hmeets, hcount.trans (Nat.zero_add i), hflatten, ?_⟩
      rw [hflatten]
      exact CombineMode.length_flatten mode there.scopes.guards

/-- Flattened guards have a closed form in either mode, and with it the rows of every rule: their
number is fixed by the sizes of the guards that are open at its SET. -/
theorem flatten_closedForm :
    (∀ entries : List Alternatives, FlattensInClosedForm entries) ∧
    ∀ (mode : CombineMode) (source : String) (table : DecisionTable),
      DecisionTable.ofSource mode source = .ok table →
        ∃ routine, Routine.parse source = .ok routine ∧ table.RowsFollowGuards mode routine :=
  ⟨flattensInClosedForm, fun _ _ _ => rowsFollowGuards_of_ofSource⟩

def nestedGuards : String :=
  "PROC STORCLAS
     IF &A = 1 OR &B = 2 THEN DO
       SELECT (&C) WHEN (3, 4, 5) SET &STORCLAS = 'X' END
     END
     ELSE SET &STORCLAS = 'Y'
   END"

/-- Distributing gives the inner SET six rows and the ELSE one.  On bare entries, one of them
without conditions, the closed forms count three and six conditions. -/
theorem flatten_closedForm_of_nestedGuards :
    let a : Alternatives := [.single ⟨"&A", .eq, "1"⟩, .single ⟨"&B", .eq, "2"⟩]
    let c : Alternatives := [.single ⟨"&C", .eq, "3"⟩, .single ⟨"&C", .eq, "4"⟩,
      .single ⟨"&C", .eq, "5"⟩]
    constraints [[], []] = [] ∧ CombineMode.merge.flatten [[], []] = [] ∧
      constraints [a, [], c] = [a] ++ [c] ∧
      (CombineMode.merge.flatten [a, [], c]).length = 3 ∧
      (CombineMode.distribute.flatten [a, [], c]).length = 6 ∧
      ∃ table routine, DecisionTable.ofSource .distribute nestedGuards = .ok table ∧
        table.rules.map (·.alternatives.length) = [6, 1] ∧
        Routine.parse nestedGuards = .ok routine ∧ table.RowsFollowGuards .distribute routine := by
  intro a c
  obtain ⟨hclosed, hrows⟩ := flatten_closedForm
  refine ⟨rfl, (hclosed [[], []]).unconstrained .merge rfl, rfl,
    ((hclosed [a, [], c]).merge [a] c rfl).1, ((hclosed [a, [], c]).distribute [a] c rfl).1, ?_⟩
  have hlengths : (DecisionTable.ofSource .distribute nestedGuards).map
      (fun table => table.rules.map (·.alternatives.length)) = .ok [6, 1] := by
    decide +kernel
  cases htable : DecisionTable.ofSource .distribute nestedGuards with
  | error error =>
      rw [htable] at hlengths
      cases hlengths
  | ok table =>
      obtain ⟨routine, hparse, hfollow⟩ := hrows .distribute nestedGuards table htable
      rw [htable] at hlengths
      exact ⟨table, routine, rfl, Except.ok.inj hlengths, hparse, hfollow⟩

end ClassSelection
