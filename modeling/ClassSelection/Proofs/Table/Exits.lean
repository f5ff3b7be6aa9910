import ClassSelection.Proofs.Reader.Dispatch
import ClassSelection.Proofs.Table.Emission

/-!
# Which rules an EXIT marks

Rules are added at the end, and an EXIT marks the latest one; nothing else
touches a rule.  The emissions of a routine are those of the SETs and EXITs that
its reading dispatches (`exists_visits`), so the marks of a table can be told
from them: a rule has one exactly if an EXIT is dispatched after its SET and
before the next one.
-/

namespace ClassSelection

def Emission.mark : Emission → Statement
  | rule target _ line => .assign target line
  | exit => .exit

def Emission.isRule : Emission → Bool
  | rule _ _ _ => true
  | exit => false

mutual

theorem Statement.map_mark_emissions (mode : CombineMode) (statement : Statement)
    (guards : List Alternatives) :
    (statement.emissions mode guards).map Emission.mark = statement.marks := by
  match statement with
  | .skip => rfl
  | .assign value line => rfl
  | .exit => rfl
  | .seq first second =>
      simp only [Statement.emissions, Statement.marks, List.map_append,
        first.map_mark_emissions mode, second.map_mark_emissions mode]
  | .block body => exact body.map_mark_emissions mode guards
  | .ifThen guard body => exact body.map_mark_emissions mode _
  | .ifElse guard body alternative =>
      simp only [Statement.emissions, Statement.marks, List.map_append,
        body.map_mark_emissions mode, alternative.map_mark_emissions mode]
  | .select branches => exact branches.map_mark_emissions mode guards []

theorem Branches.map_mark_emissions (mode : CombineMode) (branches : Branches)
    (guards earlier : List Alternatives) :
    (branches.emissions mode guards earlier).map Emission.mark = branches.marks := by
  match branches with
  | .done => rfl
  | .otherwise body => exact body.map_mark_emissions mode _
  | .when guard body others =>
      simp only [Branches.emissions, Branches.marks, List.map_append,
        body.map_mark_emissions mode, others.map_mark_emissions mode]

end

/-! ## Steps -/

/-- What an emission does to the rules: a SET adds one at the end, and an EXIT marks the last. -/
inductive RuleStep : Emission → List Rule → List Rule → Prop
  | set {rules : List Rule} {target : String} {alternatives : Alternatives} {line : Nat} :
      RuleStep (.rule target alternatives line) rules
        (rules ++ [{ target, alternatives, sequence := rules.length + 1, line, hasExit := false }])
  | exit {earlier : List Rule} {latest : Rule} :
      RuleStep .exit (earlier ++ [latest]) (earlier ++ [{ latest with hasExit := true }])

inductive RuleSteps : List Emission → List Rule → List Rule → Prop
  | nil {rules : List Rule} : RuleSteps [] rules rules
  | cons {emission : Emission} {emissions : List Emission} {rules rules' rules'' : List Rule}
      (hstep : RuleStep emission rules rules') (h : RuleSteps emissions rules' rules'') :
      RuleSteps (emission :: emissions) rules rules''

theorem ruleStep_apply {emission : Emission} {rules : List Rule}
    (h : emission = .exit → rules ≠ []) :
    RuleStep emission rules.reverse (emission.apply rules).reverse := by
  cases emission with
  | rule target alternatives line =>
      have hstep : RuleStep (.rule target alternatives line) rules.reverse _ := .set
      rw [List.length_reverse] at hstep
      simpa [Emission.apply] using hstep
  | exit =>
      cases rules with
      | nil => exact absurd rfl (h rfl)
      | cons latest earlier =>
          have hstep : RuleStep .exit (earlier.reverse ++ [latest]) _ := .exit
          simpa [Emission.apply] using hstep

theorem Emission.apply_ne_nil {emission : Emission} {rules : List Rule}
    (h : emission = .exit → rules ≠ []) : emission.apply rules ≠ [] := by
  cases emission with
  | rule target alternatives line => simp [apply]
  | exit =>
      cases rules with
      | nil => exact absurd rfl (h rfl)
      | cons latest earlier => simp [apply]

open Reader (Visits routineBody statement? exists_visits mark_of_statement?)

/-- In a run that succeeds, an EXIT comes after a SET, so every emission is a step. -/
theorem ruleSteps_of_visits {α : Type} {a : α} {s : Reading} {assigned last : Bool}
    {places : List Reading} {marks : List Statement}
    (h : Visits (.ok a s : EStateM.Result Error Reading α) assigned places marks last)
    (hplaces : ∀ place ∈ places, place.AtMark) {emissions : List Emission} {rules : List Rule}
    (hmarks : emissions.map Emission.mark = marks) (hrules : assigned = true → rules ≠ []) :
    RuleSteps emissions rules.reverse (emissions.foldl Emission.apply rules).reverse := by
  induction h generalizing emissions rules with
  | nil =>
      obtain rfl := List.map_eq_nil_iff.1 hmarks
      exact .nil
  | @completed assigned last place s places mark marks hassigned hrun _ ih =>
      obtain ⟨emission, emissions, rfl, rfl, rfl⟩ := List.map_eq_cons_iff.1 hmarks
      obtain ⟨hplace, hplaces⟩ := List.forall_mem_cons.1 hplaces
      obtain ⟨_, hmark, -, -, hexit, -⟩ := mark_of_statement? hplace hrun
      obtain rfl := Option.some.inj hmark
      have hlatest (heq : emission = .exit) : rules ≠ [] := by
        subst heq
        exact hrules (hassigned ▸ hexit rfl)
      exact .cons (ruleStep_apply hlatest)
        (ih hplaces rfl fun _ => Emission.apply_ne_nil hlatest)
  | failed _ _ hresult => cases hresult

/-! ## Marks of rules -/

/-- After so many SETs, and before the next one, there is an EXIT; SETs are `true`. -/
def ExitAfter (count : Nat) (sets : List Bool) : Prop :=
  ∃ before after, sets = before ++ false :: after ∧ before.count true = count

theorem exitAfter_concat {count : Nat} {sets : List Bool} {set : Bool} :
    ExitAfter count (sets ++ [set]) ↔
      ExitAfter count sets ∨ set = false ∧ sets.count true = count := by
  constructor
  · rintro ⟨before, after, hsets, rfl⟩
    obtain rfl | ⟨after, last, rfl⟩ := List.eq_nil_or_concat' after
    · obtain ⟨rfl, hset⟩ := List.append_inj' hsets rfl
      exact .inr ⟨List.singleton_inj.1 hset, rfl⟩
    · rw [← List.cons_append, ← List.append_assoc] at hsets
      exact .inl ⟨before, after, (List.append_inj' hsets rfl).1, rfl⟩
  · rintro (⟨before, after, rfl, rfl⟩ | ⟨rfl, rfl⟩)
    · exact ⟨before, after ++ [set], by simp, rfl⟩
    · exact ⟨sets, [], rfl, rfl⟩

theorem ExitAfter.le {count : Nat} {sets : List Bool} (h : ExitAfter count sets) :
    count ≤ sets.count true := by
  obtain ⟨before, after, rfl, rfl⟩ := h
  rw [List.count_append]
  exact Nat.le_add_right _ _

theorem getElem?_concat_eq_some {α : Type} {list : List α} {a b : α} {k : Nat} :
    (list ++ [a])[k]? = some b ↔ list[k]? = some b ∨ k = list.length ∧ b = a := by
  rcases Nat.lt_trichotomy k list.length with hlt | rfl | hlt
  · rw [List.getElem?_append_left hlt]
    exact ⟨.inl, fun h => h.resolve_right fun h => absurd h.1 (by omega)⟩
  · simp [eq_comm]
  · rw [List.getElem?_eq_none (by simp; omega), List.getElem?_eq_none (by omega)]
    simp only [reduceCtorEq, false_or, false_iff, not_and]
    omega

/-- A rule is marked exactly if an EXIT comes after its SET and before the next one. -/
theorem hasExit_iff (emissions : List Emission) :
    (emissions.foldl Emission.apply []).length = (emissions.map Emission.isRule).count true ∧
      ∀ k rule, (emissions.foldl Emission.apply []).reverse[k]? = some rule →
        (rule.hasExit = true ↔ ExitAfter (k + 1) (emissions.map Emission.isRule)) := by
  induction emissions using List.reverseRecOn with
  | nil => simp
  | append_singleton emissions emission ih =>
      obtain ⟨hlength, hrules⟩ := ih
      rw [List.foldl_concat, List.map_append, List.map_singleton]
      generalize emissions.foldl Emission.apply [] = rules at hlength hrules
      generalize emissions.map Emission.isRule = sets at hlength hrules
      cases emission with
      | rule target alternatives line =>
          refine ⟨by simp [Emission.apply, Emission.isRule, hlength], fun k rule hrule => ?_⟩
          rw [Emission.apply, List.reverse_cons, getElem?_concat_eq_some] at hrule
          rw [Emission.isRule, exitAfter_concat]
          obtain hrule | ⟨rfl, rfl⟩ := hrule
          · simp [hrules k rule hrule]
          · -- no EXIT comes after the new rule
            have hnone : ¬ExitAfter (rules.length + 1) sets := fun h => by
              have := h.le
              omega
            simp [hnone]
      | exit =>
          cases rules with
          | nil => exact ⟨by simpa [Emission.apply, Emission.isRule] using hlength, by
              simp [Emission.apply]⟩
          | cons latest earlier =>
              refine ⟨by simpa [Emission.apply, Emission.isRule] using hlength,
                fun k rule hrule => ?_⟩
              rw [Emission.apply, List.reverse_cons, getElem?_concat_eq_some] at hrule
              rw [Emission.isRule, exitAfter_concat]
              rw [List.length_cons] at hlength
              obtain hrule | ⟨rfl, rfl⟩ := hrule
              · have hlt := (List.getElem?_eq_some_iff.1 hrule).1
                rw [List.length_reverse] at hlt
                rw [hrules k rule (by rw [List.reverse_cons, getElem?_concat_eq_some]
                                      exact .inl hrule)]
                exact ⟨.inl, fun h => h.resolve_right fun h => absurd h.2 (by omega)⟩
              · simp [hlength.symm]

/-! ## Runs -/

/-- The place of a run completes with the SET or EXIT that the emission comes from. -/
def Emits (place : Reading) (emission : Emission) : Prop :=
  ∃ s, statement? place = .ok (some emission.mark) s

theorem atSet_eq_isRule {place : Reading} {emission : Emission} (hplace : place.AtMark)
    (h : Emits place emission) : place.atSet = emission.isRule := by
  obtain ⟨s, hrun⟩ := h
  obtain ⟨_, hmark, -, -, -, hexit⟩ := mark_of_statement? hplace hrun
  obtain rfl := Option.some.inj hmark
  cases emission with
  | rule target alternatives line => simpa [Emission.mark, Emission.isRule] using hexit
  | exit => simpa [Emission.mark, Emission.isRule] using hexit

theorem map_atSet {places : List Reading} {emissions : List Emission}
    (hplaces : ∀ place ∈ places, place.AtMark) (h : List.Forall₂ Emits places emissions) :
    places.map Reading.atSet = emissions.map Emission.isRule := by
  induction h with
  | nil => rfl
  | cons hemits _ ih =>
      obtain ⟨hplace, hplaces⟩ := List.forall_mem_cons.1 hplaces
      rw [List.map_cons, List.map_cons, atSet_eq_isRule hplace hemits, ih hplaces]

theorem exit_of_atSet_eq_false {place : Reading} (hplace : place.AtMark)
    (h : place.atSet = false) : place.tokens.next.1 = .word "EXIT" :=
  hplace.resolve_left fun hset => by simp [Reading.atSet, hset] at h

theorem exitAfter_map_atSet_iff {count : Nat} {places : List Reading}
    (hplaces : ∀ place ∈ places, place.AtMark) :
    ExitAfter count (places.map Reading.atSet) ↔ ∃ before place after,
      places = before ++ place :: after ∧ place.tokens.next.1 = .word "EXIT" ∧
        before.countP Reading.atSet = count := by
  constructor
  · rintro ⟨_, _, hsets, rfl⟩
    obtain ⟨before, rest, rfl, rfl, hrest⟩ := List.map_eq_append_iff.1 hsets
    obtain ⟨place, after, rfl, hplace, -⟩ := List.map_eq_cons_iff.1 hrest
    refine ⟨before, place, after, rfl, exit_of_atSet_eq_false (hplaces place (by simp)) hplace, ?_⟩
    simp [List.count, List.countP_map, Function.comp_def]
  · rintro ⟨before, place, after, rfl, hexit, rfl⟩
    refine ⟨before.map Reading.atSet, after.map Reading.atSet, ?_, ?_⟩
    · simp [Reading.atSet, hexit]
    · simp [List.count, List.countP_map, Function.comp_def]

theorem ofSource_of_error {mode : CombineMode} {source : String} {error : Error} {s : Reading}
    (h : routineBody (.ofSource source) = .error error s) :
    DecisionTable.ofSource mode source = .error error := by
  rw [DecisionTable.ofSource, Routine.parse, h]
  rfl

theorem ofSource_of_ok {mode : CombineMode} {source : String} {table : DecisionTable}
    (h : DecisionTable.ofSource mode source = .ok table) :
    ∃ body s, routineBody (.ofSource source) = .ok body s ∧
      table.rules = ((body.emissions mode []).foldl Emission.apply []).reverse := by
  cases hrun : routineBody (.ofSource source) with
  | ok body s =>
      rw [DecisionTable.ofSource, Routine.parse, hrun] at h
      obtain rfl := Except.ok.inj ((DecisionTable.ofRoutine_eq mode _).symm.trans h)
      exact ⟨body, s, rfl, rfl⟩
  | error error s =>
      rw [ofSource_of_error hrun] at h
      cases h

open Reader (ComesTo ExitCode exists_statement?_exit)

/-- What becomes of the rules is told by the readings at which a run dispatches a SET or an EXIT, in
their order.  All but the last complete, and a well-formed EXIT ends the run exactly if no SET has
come before it.  In a run that succeeds each SET adds a rule at the end, each EXIT marks the latest
rule, and nothing else happens to a rule; so a rule is marked exactly if an EXIT is dispatched
after its SET and before the next one. -/
theorem exits_of_ofSource (mode : CombineMode) (source : String) : ∃ places : List Reading,
    (∀ place, place ∈ places ↔ ComesTo source place ∧ place.AtMark) ∧
    places.Pairwise (fun place later => later.tokens.remaining < place.tokens.remaining) ∧
    (∀ before place after, places = before ++ place :: after →
      (∀ earlier ∈ before, ∃ mark s, statement? earlier = .ok (some mark) s) ∧
      ∀ tokens rest, place.tokens.toList = .word "EXIT" :: tokens → ExitCode tokens rest →
        let error := Error.exitWithoutRule place.tokens.next.2.line
        ((∃ s, statement? place = .error error s ∧ after = [] ∧
            DecisionTable.ofSource mode source = .error error) ↔
          ∀ earlier ∈ before, earlier.tokens.next.1 ≠ .word "SET")) ∧
    ∀ table, DecisionTable.ofSource mode source = .ok table →
      ∃ emissions, List.Forall₂ Emits places emissions ∧ RuleSteps emissions [] table.rules ∧
        ∀ k rule, table.rules[k]? = some rule →
          (rule.hasExit = true ↔ ∃ before place after, places = before ++ place :: after ∧
            place.tokens.next.1 = .word "EXIT" ∧ before.countP Reading.atSet = k + 1) := by
  obtain ⟨places, marks, last, hmem, hordered, hvisits, hmarks⟩ := exists_visits source
  have hplaces : ∀ place ∈ places, place.AtMark := fun place hplace => ((hmem place).1 hplace).2
  refine ⟨places, hmem, hordered, ?_, fun table htable => ?_⟩
  · rintro before place after rfl
    obtain ⟨hassigned, hbefore, herror⟩ := hvisits.place
    refine ⟨hbefore, fun tokens rest htokens hcode => ?_⟩
    obtain ⟨s, -, hrun⟩ := exists_statement?_exit htokens hcode
    have hset : place.assigned = false ↔
        ∀ earlier ∈ before, earlier.tokens.next.1 ≠ .word "SET" := by
      simp [hassigned, Reading.atSet]
    rw [← hset]
    cases hbefore : place.assigned with
    | true =>
        rw [hbefore, if_pos rfl] at hrun
        simp [hrun]
    | false =>
        rw [hbefore, if_neg (by simp)] at hrun
        obtain ⟨hafter, hresult⟩ := herror _ _ hrun
        exact ⟨fun _ => rfl, fun _ => ⟨s, hrun, hafter, ofSource_of_error hresult⟩⟩
  · obtain ⟨body, s, hrun, hrules⟩ := ofSource_of_ok htable
    rw [hrun, hmarks body s hrun, ← body.map_mark_emissions mode []] at hvisits
    have hcompletes := hvisits.completes
    rw [List.forall₂_map_right_iff] at hcompletes
    have hemits : List.Forall₂ Emits places (body.emissions mode []) := hcompletes
    refine ⟨_, hemits, ?_, fun k rule hrule => ?_⟩
    · rw [hrules]
      have hsteps : RuleSteps _ (List.reverse []) _ :=
        ruleSteps_of_visits hvisits hplaces rfl fun hassigned => absurd hassigned (by simp)
      exact hsteps
    · rw [hrules] at hrule
      rw [(hasExit_iff _).2 k rule hrule, ← map_atSet hplaces hemits,
        exitAfter_map_atSet_iff hplaces]

/-- The EXIT of an inner block marks the rule of the SET before that block. -/
example :
    let source := "PROC STORCLAS SET &STORCLAS = 'A' IF &X = 1 THEN DO EXIT CODE(0) END " ++
      "SET &STORCLAS = 'B'"
    (DecisionTable.ofSource .merge source).map (·.rules.map (·.hasExit)) = .ok [true, false] := by
  decide +kernel

end ClassSelection
