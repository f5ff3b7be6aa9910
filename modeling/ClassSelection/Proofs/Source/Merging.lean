import ClassSelection.Proofs.Source.Walk
import Mathlib.Data.List.Forall2

/-!
# Walking a written routine after merging

A rule of the merge mode is met only where the walk enters every IF and WHEN on
the path of its SET.  An ELSE or OTHERWISE negates what merging has made of its
guards, and merging can lose a guard that holds.  `ofSource_merge_walk` says that
nothing else comes between a rule that is met and the SET.
-/

namespace ClassSelection.Source

mutual

/-- For each SET of a statement the guards that are negated on the way to it, after those that are
negated around the statement. -/
def Tree.negated (outer : List Expr) : {o : Bool} → Tree o → List (List Expr)
  | _, .set .. => [outer]
  | _, .ifThen _ body => body.negated outer
  | _, .ifElse guard body alternative =>
    body.negated outer ++ alternative.negated (outer ++ [guard.expr])
  | _, .block body => body.negated outer
  | _, .select _ choices => choices.negated outer []

def Body.negated (outer : List Expr) : Body → List (List Expr)
  | .nil => []
  | .cons first others => first.negated outer ++ others.negated outer

/-- An OTHERWISE negates the questions of all branches before it. -/
def Choices.negated (outer earlier : List Expr) :
    {subject : Option Variable} → Choices subject → List (List Expr)
  | _, .done => []
  | _, .otherwise body => body.negated (outer ++ earlier)
  | _, .when question body others =>
    body.negated outer ++ others.negated outer (earlier ++ [question.expr])

end

mutual

theorem Tree.length_walk (v : Valuation) {o : Bool} (tree : Tree o) (reached : Bool)
    (outer : List Expr) : (tree.walk v reached).length = (tree.negated outer).length := by
  match tree with
  | .set .. => rfl
  | .ifThen _ body => exact body.length_walk v _ outer
  | .ifElse _ body alternative =>
      rw [Tree.walk, Tree.negated, List.length_append, List.length_append,
        body.length_walk v _ outer, alternative.length_walk v]
  | .block body => exact body.length_walk v reached outer
  | .select _ choices => exact choices.length_walk v reached false outer []

theorem Body.length_walk (v : Valuation) (body : Body) (reached : Bool) (outer : List Expr) :
    (body.walk v reached).length = (body.negated outer).length := by
  match body with
  | .nil => rfl
  | .cons first others =>
      rw [Body.walk, Body.negated, List.length_append, List.length_append,
        first.length_walk v _ outer, others.length_walk v _ outer]

theorem Choices.length_walk (v : Valuation) {subject : Option Variable} (choices : Choices subject)
    (reached held : Bool) (outer earlier : List Expr) :
    (choices.walk v reached held).length = (choices.negated outer earlier).length := by
  match choices with
  | .done => rfl
  | .otherwise body => exact body.length_walk v _ _
  | .when _ body others =>
      rw [Choices.walk, Choices.negated, List.length_append, List.length_append,
        body.length_walk v _ outer, others.length_walk v]

end

/-! ## Paths that are met -/

/-- Where all guards of a path are met, the walk has come along it exactly if merging has lost none
of the guards that are negated on the way. -/
def Follows (v : Valuation) (path : List Alternatives) (visit : Bool × List Expr) : Prop :=
  (∀ guard ∈ path, v.meets guard = true) → (visit.1 = true ↔ ∀ guard ∈ visit.2, ¬v.Loses guard)

namespace Follows

variable {v : Valuation} {path : List Alternatives} {reached : Bool} {negated : List Expr}

theorem guard (h : Follows v path (reached, negated)) (guard : Expr) :
    Follows v (path ++ [guard.alternatives .merge]) (reached && v.holdsExpr guard, negated) := by
  intro hpath
  have hmeets : v.meets (guard.alternatives .merge) = true := hpath _ (by simp)
  have hguard := v.holdsExpr_of_meets hmeets
  have hreached := h fun other hother => hpath other (List.mem_append_left _ hother)
  simpa [hguard] using hreached

theorem negate (h : Follows v path (reached, negated)) (guards : List Expr) {entry : Alternatives}
    (hentry : v.meets entry = true →
      ∀ guard ∈ guards, v.meets (guard.alternatives .merge) = false) :
    Follows v (path ++ [entry]) (reached && !guards.any v.holdsExpr, negated ++ guards) := by
  intro hpath
  have hfails := hentry (hpath entry (by simp))
  have hreached := h fun other hother => hpath other (List.mem_append_left _ hother)
  have hguards : guards.any v.holdsExpr = false ↔ ∀ guard ∈ guards, ¬v.Loses guard := by
    rw [List.any_eq_false]
    refine forall₂_congr fun guard hmem => ?_
    rw [Bool.not_eq_true, v.holdsExpr_eq_false_iff (hfails guard hmem)]
  simp only [List.mem_append, or_imp, forall_and, Bool.and_eq_true, Bool.not_eq_true']
  exact and_congr hreached hguards

end Follows

theorem meets_negate_guard {v : Valuation} {guard : Expr}
    (h : v.meets (CombineMode.merge.negate (guard.alternatives .merge)) = true) :
    ∀ other ∈ [guard], v.meets (other.alternatives .merge) = false := by
  intro other hother
  obtain rfl := List.mem_singleton.1 hother
  exact v.meets_negate (other.proper_alternatives .merge) h

theorem meets_noneOf_guards {v : Valuation} {guards : List Expr}
    (h : v.meets (CombineMode.merge.noneOf (guards.map (Expr.alternatives .merge))) = true) :
    ∀ guard ∈ guards, v.meets (guard.alternatives .merge) = false := by
  intro guard hguard
  have hproper : ∀ branch ∈ guards.map (Expr.alternatives .merge), branch.Proper := by
    intro branch hbranch
    obtain ⟨other, -, rfl⟩ := List.mem_map.1 hbranch
    exact other.proper_alternatives .merge
  exact v.meets_noneOf hproper h _ (List.mem_map_of_mem hguard)

abbrev FollowsEach (v : Valuation) (assignments : List Assignment) (walk : List Bool)
    (negated : List (List Expr)) : Prop :=
  List.Forall₂ (fun assignment visit => Follows v assignment.path visit) assignments
    (walk.zip negated)

theorem FollowsEach.append {v : Valuation} {left right : List Assignment} {walk walk' : List Bool}
    {negated negated' : List (List Expr)} (hlength : walk.length = negated.length)
    (hleft : FollowsEach v left walk negated) (hright : FollowsEach v right walk' negated') :
    FollowsEach v (left ++ right) (walk ++ walk') (negated ++ negated') := by
  rw [FollowsEach, List.zip_append hlength]
  exact List.rel_append hleft hright

mutual

theorem Tree.followsEach (v : Valuation) {o : Bool} (tree : Tree o) {path : List Alternatives}
    {reached : Bool} {outer : List Expr} (h : Follows v path (reached, outer)) :
    FollowsEach v (tree.assignments .merge path) (tree.walk v reached) (tree.negated outer) := by
  match tree with
  | .set .. => exact .cons h .nil
  | .ifThen guard body => exact body.followsEach v (h.guard guard.expr)
  | .ifElse guard body alternative =>
      have hnegate := h.negate [guard.expr] meets_negate_guard
      rw [List.any_cons, List.any_nil, Bool.or_false] at hnegate
      exact (body.followsEach v (h.guard guard.expr)).append (body.length_walk v _ outer)
        (alternative.followsEach v hnegate)
  | .block body => exact body.followsEach v h
  | .select _ choices => exact choices.followsEach v [] h

theorem Body.followsEach (v : Valuation) (body : Body) {path : List Alternatives}
    {reached : Bool} {outer : List Expr} (h : Follows v path (reached, outer)) :
    FollowsEach v (body.assignments .merge path) (body.walk v reached) (body.negated outer) := by
  match body with
  | .nil => exact .nil
  | .cons first others =>
      exact (first.followsEach v h).append (first.length_walk v _ outer) (others.followsEach v h)

theorem Choices.followsEach (v : Valuation) {subject : Option Variable} (choices : Choices subject)
    (earlier : List Expr) {path : List Alternatives} {reached : Bool} {outer : List Expr}
    (h : Follows v path (reached, outer)) :
    FollowsEach v (choices.assignments .merge path (earlier.map (Expr.alternatives .merge)))
      (choices.walk v reached (earlier.any v.holdsExpr)) (choices.negated outer earlier) := by
  match choices with
  | .done => exact .nil
  | .otherwise body => exact body.followsEach v (h.negate earlier meets_noneOf_guards)
  | .when question body others =>
      have hothers := others.followsEach v (earlier ++ [question.expr]) h
      simp only [List.map_append, List.map_cons, List.map_nil, List.any_append, List.any_cons,
        List.any_nil, Bool.or_false] at hothers
      exact (body.followsEach v (h.guard question.expr)).append (body.length_walk v _ outer) hothers

end

/-! ## Rules that are met -/

theorem exists_getElem?_of_forall₂ {α β : Type} {R : α → β → Prop} {left : List α} {right : List β}
    (h : List.Forall₂ R left right) {i : Nat} {a : α} (hleft : left[i]? = some a) :
    ∃ b, right[i]? = some b ∧ R a b := by
  induction h generalizing i with
  | nil => simp at hleft
  | cons hhead _ ih =>
      cases i with
      | zero =>
          obtain rfl : _ = a := by simpa using hleft
          exact ⟨_, rfl, hhead⟩
      | succ i => exact ih (by simpa using hleft)

/-- The table of the merge mode has one rule for each SET, and where a rule is met, the walk through
the routine reaches its SET exactly if merging has lost no guard that is negated on the way.  So a
rule is sound if every AND in those guards has a single alternative on its right. -/
theorem ofSource_merge_walk {source : String} {kind : RoutineKind} {body : Body}
    (hsource : Renders source kind body) (hending : body.ending false ≠ .misread) :
    ∃ table, DecisionTable.ofSource .merge source = .ok table ∧
      table.rules.map Rule.target = body.values ∧
      ∀ (v : Valuation) (i : Nat) (rule : Rule), table.rules[i]? = some rule →
        v.meets rule.alternatives = true →
        ∃ reached negated, (body.walk v true)[i]? = some reached ∧
          (body.negated [])[i]? = some negated ∧
          (reached = true ↔ ∀ guard ∈ negated, ¬v.Loses guard) ∧
          ((∀ guard ∈ negated, guard.MergesExactly) → reached = true) := by
  obtain ⟨routine, hparse, -, hreads⟩ := exists_readsAs hsource hending
  obtain ⟨table, htable, hrules⟩ := rules_of_readsAs .merge hreads
  refine ⟨table, ?_, ?_, fun v i rule hrule hmeets => ?_⟩
  · rw [DecisionTable.ofSource, hparse]
    exact htable
  · have htargets := congrArg (List.map Prod.fst) hrules
    rw [List.map_map, List.map_map] at htargets
    exact htargets.trans (body.map_value_assignments .merge [])
  · have hassignment : ((body.assignments .merge []).map (Assignment.flatten .merge))[i]? =
        some rule.assignment := by
      rw [← hrules, List.getElem?_map, hrule, Option.map_some]
    rw [List.getElem?_map] at hassignment
    obtain ⟨assignment, hi, hflatten⟩ := Option.map_eq_some_iff.1 hassignment
    have hstart : Follows v [] (true, []) := fun _ => by simp
    obtain ⟨⟨reached, negated⟩, hzip, hfollows⟩ :=
      exists_getElem?_of_forall₂ (body.followsEach v hstart) hi
    obtain ⟨hwalk, hnegated⟩ := List.getElem?_zip_eq_some.1 hzip
    have hpath : v.meets (CombineMode.merge.flatten assignment.path) = true := by
      rw [show CombineMode.merge.flatten assignment.path = rule.alternatives from
        congrArg Prod.snd hflatten]
      exact hmeets
    have hreached := hfollows (v.meets_of_flatten hpath)
    exact ⟨reached, negated, hwalk, hnegated, hreached,
      fun hexact => hreached.2 fun guard hguard =>
        v.not_loses_of_mergesExactly (hexact guard hguard)⟩

/-! ## A guard that is lost -/

def Atom.equals (subject word : String) (hsubject : isVariable subject = true)
    (hword : isVariable word = false) : Atom :=
  .test ⟨⟨subject, hsubject, none⟩, .equals, .word word hword⟩

/-- The guard has two alternatives on the right of its AND, which merging takes for one. -/
def lossy : Body :=
  .cons
    (.ifElse
      (.join (.equals "&X" "10" (by decide) (by decide)) .and
        (.atom (.group
          (.join (.equals "&Y" "20" (by decide) (by decide)) .or
            (.equals "&Z" "30" (by decide) (by decide))))))
      (.setLiteral "X") (.setLiteral "Y"))
    .nil

def lossySource : String :=
  "PROC STORCLAS
     IF &X = 10 AND (&Y = 20 OR &Z = 30) THEN SET &STORCLAS = 'X' ELSE SET &STORCLAS = 'Y' END"

def allButY : Valuation where
  holds test :=
    (test.comparator == .eq || test.comparator == .gt || test.comparator == .lt) ==
      (test.subject != "&Y")
  holds_negate test := by
    obtain ⟨subject, comparator, value⟩ := test
    cases comparator <;> cases hsubject : subject != "&Y" <;>
      simp [Test.negate, Comparator.negate, hsubject]

theorem renders_lossy : Renders lossySource .storageClass lossy :=
  ⟨[.word "END"], .inr rfl, by decide +kernel⟩

/-- In the ELSE the row `&Y NE 20` is met, though the guard holds and the walk takes the IF. -/
theorem lossy_else_unsound :
    Renders lossySource .storageClass lossy ∧ lossy.Closed false ∧
      ∃ table rule condition, DecisionTable.ofSource .merge lossySource = .ok table ∧
        table.rules[1]? = some rule ∧ condition ∈ rule.alternatives ∧
        allButY.satisfies condition = true ∧ (lossy.walk allButY true)[1]? = some false := by
  refine ⟨renders_lossy, ?_, ?_⟩
  · simp [lossy, Body.Closed, Tree.Closed, Tree.setLiteral]
  · have hrow : (DecisionTable.ofSource .merge lossySource).map
        (fun table => table.rules[1]?.map Rule.alternatives) =
          .ok (some [.single ⟨"&X", .ne, "10"⟩, .single ⟨"&Y", .ne, "20"⟩,
            .single ⟨"&Z", .ne, "30"⟩]) := by
      decide +kernel
    cases htable : DecisionTable.ofSource .merge lossySource with
    | error error =>
        rw [htable] at hrow
        cases hrow
    | ok table =>
        rw [htable] at hrow
        obtain ⟨rule, hrule, halternatives⟩ := Option.map_eq_some_iff.1 (Except.ok.inj hrow)
        refine ⟨table, rule, .single ⟨"&Y", .ne, "20"⟩, rfl, hrule, ?_, by decide, ?_⟩
        · rw [halternatives]
          simp
        · decide +kernel

theorem lossy_walk :
    ∃ table, DecisionTable.ofSource .merge lossySource = .ok table ∧
      table.rules.map Rule.target = lossy.values ∧
      ∀ (v : Valuation) (i : Nat) (rule : Rule), table.rules[i]? = some rule →
        v.meets rule.alternatives = true →
        ∃ reached negated, (lossy.walk v true)[i]? = some reached ∧
          (lossy.negated [])[i]? = some negated ∧
          (reached = true ↔ ∀ guard ∈ negated, ¬v.Loses guard) ∧
          ((∀ guard ∈ negated, guard.MergesExactly) → reached = true) :=
  ofSource_merge_walk renders_lossy (by decide)

end ClassSelection.Source
