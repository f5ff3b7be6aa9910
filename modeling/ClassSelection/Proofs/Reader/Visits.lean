import ClassSelection.Proofs.Reader.Termination

/-!
# The SETs and EXITs of a run

`Visits` says of a list of readings that a run comes to them with a SET or EXIT
statement next: each one completes with its statement in the tree, or is the last
one and fails the run; and the flag of a reading tells whether a SET has come
before.

`Passage` finds such a list.  A probe is a reader that stops at a given reading: if
the reading is on the list the probe stops there, and else it does what the
reader does.
-/

namespace ClassSelection

def Reading.atSet (s : Reading) : Bool :=
  s.tokens.next.1 == .word "SET"

def Reading.AtMark (s : Reading) : Prop :=
  s.tokens.next.1 = .word "SET" ∨ s.tokens.next.1 = .word "EXIT"

mutual

def Statement.marks : Statement → List Statement
  | .skip => []
  | .assign value line => [.assign value line]
  | .exit => [.exit]
  | .seq first second => first.marks ++ second.marks
  | .block body => body.marks
  | .ifThen _ body => body.marks
  | .ifElse _ body alternative => body.marks ++ alternative.marks
  | .select branches => branches.marks

def Branches.marks : Branches → List Statement
  | .done => []
  | .otherwise body => body.marks
  | .when _ body others => body.marks ++ others.marks

end

theorem Statement.marks_sequence (statements : List Statement) :
    (sequence statements).marks = statements.flatMap marks := by
  induction statements with
  | nil => rfl
  | cons first others ih => rw [sequence, marks, ih, List.flatMap_cons]

theorem Branches.marks_prepend (whens : List (Expr × Statement)) (others : Branches) :
    (prepend whens others).marks = whens.flatMap (·.2.marks) ++ others.marks := by
  induction whens with
  | nil => rfl
  | cons branch whens ih =>
      rw [prepend, List.foldr_cons, marks, List.flatMap_cons, List.append_assoc, ← ih]
      rfl

namespace Reader

variable {α β : Type}

/-- The places are visited one after the other by a run with this result: a place completes with the
mark that stands for it, or fails and ends the run with its error.  The flags say whether there has
been a SET before, and in all. -/
inductive Visits (result : EStateM.Result Error Reading α) :
    Bool → List Reading → List Statement → Bool → Prop
  | nil {assigned : Bool} : Visits result assigned [] [] assigned
  | completed {assigned last : Bool} {place s : Reading} {places : List Reading} {mark : Statement}
      {marks : List Statement} (hassigned : place.assigned = assigned)
      (hrun : statement? place = .ok (some mark) s)
      (h : Visits result (assigned || place.atSet) places marks last) :
      Visits result assigned (place :: places) (mark :: marks) last
  | failed {assigned : Bool} {place s : Reading} {e : Error}
      (hassigned : place.assigned = assigned) (hrun : statement? place = .error e s)
      (hresult : result = .error e s) : Visits result assigned [place] [] assigned

namespace Visits

variable {assigned middle last : Bool} {places places' : List Reading}
  {marks marks' : List Statement} {a : α} {s : Reading} {e : Error}
  {result : EStateM.Result Error Reading β}

theorem append (h : Visits (.ok a s : EStateM.Result Error Reading α) assigned places marks middle)
    (h' : Visits result middle places' marks' last) :
    Visits result assigned (places ++ places') (marks ++ marks') last := by
  induction h with
  | nil => exact h'
  | completed hassigned hrun _ ih => exact .completed hassigned hrun (ih h')
  | failed _ _ hresult => cases hresult

theorem of_error
    (h : Visits (.error e s : EStateM.Result Error Reading α) assigned places marks last) :
    Visits (.error e s : EStateM.Result Error Reading β) assigned places marks last := by
  induction h with
  | nil => exact .nil
  | completed hassigned hrun _ ih => exact .completed hassigned hrun ih
  | failed hassigned hrun hresult =>
      cases hresult
      exact .failed hassigned hrun rfl

end Visits

/-- The statement at the place has been read where the run comes to the later reading. -/
def Precedes (place later : Reading) : Prop :=
  ∃ mark s, statement? place = .ok (some mark) s ∧ later.tokens.remaining ≤ s.tokens.remaining

theorem Precedes.remaining_lt {place later : Reading} (h : Precedes place later) :
    later.tokens.remaining < place.tokens.remaining := by
  obtain ⟨mark, s, hrun, hle⟩ := h
  have htaken := remaining_add_count_le (fun _ => agree_statement?) hrun
  simp only [ifSome] at htaken
  omega

theorem Precedes.trans_le {place later last : Reading} (h : Precedes place later)
    (hle : last.tokens.remaining ≤ later.tokens.remaining) : Precedes place last := by
  obtain ⟨mark, s, hrun, hlater⟩ := h
  exact ⟨mark, s, hrun, hle.trans hlater⟩

/-- From `s` the reader visits the places of the list: the probe for one of them stops there, and
the probe for any other reading at a SET or EXIT does what the reader does. -/
structure Passage (probe : Reading → Reader α) (x : Reader α) (good : α → List Statement → Prop)
    (s : Reading) (places : List Reading) : Prop where
  stops : ∀ place ∈ places, probe place s = .error (.tokenPutBackTwice 0) place
  passes : ∀ place : Reading, place.AtMark → place ∉ places → probe place s = x s
  ordered : places.Pairwise Precedes
  within : ∀ place ∈ places, place.AtMark ∧ place.tokens.remaining ≤ s.tokens.remaining
  ok : ∀ a s', x s = .ok a s' → s'.tokens.remaining ≤ s.tokens.remaining ∧
    (∀ place ∈ places, Precedes place s') ∧
    ∃ marks, good a marks ∧ Visits (x s) s.assigned places marks s'.assigned
  error : ∀ e s', x s = .error e s' → ∃ marks last, Visits (x s) s.assigned places marks last

/-- The reader visits some places, and its value is a good one for their marks. -/
def TracedAt (probe : Reading → Reader α) (x : Reader α) (good : α → List Statement → Prop)
    (s : Reading) : Prop :=
  ∃ places, Passage probe x good s places

def Traced (probe : Reading → Reader α) (x : Reader α) (good : α → List Statement → Prop) : Prop :=
  ∀ s, TracedAt probe x good s

namespace Passage

variable {probe : Reading → Reader α} {x : Reader α} {good : α → List Statement → Prop}
  {s : Reading} {places : List Reading} {g : Reading → α → Reader β} {f : α → Reader β}
  {good' : β → List Statement → Prop}

theorem bind_error {e : Error} {s' : Reading} (h : Passage probe x good s places)
    (hrun : x s = .error e s') :
    Passage (fun place => probe place >>= g place) (x >>= f) good' s places := by
  have hbind : (x >>= f) s = .error e s' := by rw [bind_run, hrun]
  refine ⟨fun place hplace => ?_, fun place hmark hplace => ?_, h.ordered, h.within,
    fun b s'' hok => ?_, fun e' s'' _ => ?_⟩
  · rw [bind_run, h.stops place hplace]
  · rw [bind_run, h.passes place hmark hplace, hrun, hbind]
  · rw [hbind] at hok
    cases hok
  · obtain ⟨marks, last, hvisits⟩ := h.error e s' hrun
    rw [hrun] at hvisits
    rw [hbind]
    exact ⟨marks, last, hvisits.of_error⟩

theorem bind_ok {a : α} {s' : Reading} {places' : List Reading} {marks : List Statement}
    (h : Passage probe x good s places) (hrun : x s = .ok a s')
    (hvisits : Visits (x s) s.assigned places marks s'.assigned)
    (h' : Passage (fun place => g place a) (f a) (fun b marks' => good' b (marks ++ marks')) s'
      places') :
    Passage (fun place => probe place >>= g place) (x >>= f) good' s (places ++ places') := by
  obtain ⟨hle, hbefore, -⟩ := h.ok a s' hrun
  rw [hrun] at hvisits
  have hbind : (x >>= f) s = f a s' := by rw [bind_run, hrun]
  refine ⟨fun place hplace => ?_, fun place hmark hplace => ?_, ?_, fun place hplace => ?_,
    fun b s'' hok => ?_, fun e s'' herror => ?_⟩
  · rcases List.mem_append.1 hplace with hplace | hplace
    · rw [bind_run, h.stops place hplace]
    · -- the later places have less left, so they are none of the earlier ones
      obtain ⟨hmark, hwithin⟩ := h'.within place hplace
      have hnot : place ∉ places := fun hmem => by
        have := (hbefore place hmem).remaining_lt
        omega
      rw [bind_run, h.passes place hmark hnot, hrun]
      exact h'.stops place hplace
  · rw [List.mem_append, not_or] at hplace
    rw [bind_run, h.passes place hmark hplace.1, hrun, hbind]
    exact h'.passes place hmark hplace.2
  · refine List.pairwise_append.2 ⟨h.ordered, h'.ordered, fun place hplace later hlater => ?_⟩
    exact (hbefore place hplace).trans_le (h'.within later hlater).2
  · rcases List.mem_append.1 hplace with hplace | hplace
    · exact h.within place hplace
    · exact ⟨(h'.within place hplace).1, Nat.le_trans (h'.within place hplace).2 hle⟩
  · rw [hbind] at hok
    obtain ⟨hle', hbefore', marks', hgood', hvisits'⟩ := h'.ok b s'' hok
    refine ⟨Nat.le_trans hle' hle, fun place hplace => ?_, marks ++ marks', hgood', ?_⟩
    · rcases List.mem_append.1 hplace with hplace | hplace
      · exact (hbefore place hplace).trans_le hle'
      · exact hbefore' place hplace
    · rw [hbind]
      exact hvisits.append hvisits'
  · rw [hbind] at herror
    obtain ⟨marks', last, hvisits'⟩ := h'.error e s'' herror
    rw [hbind]
    exact ⟨marks ++ marks', last, hvisits.append hvisits'⟩

end Passage

section

variable {probe probe' : Reading → Reader α} {x y : Reader α} {good : α → List Statement → Prop}
  {g : Reading → α → Reader β} {f : α → Reader β} {good' : β → List Statement → Prop} {s : Reading}

theorem TracedAt.congr (h : TracedAt probe x good s)
    (hprobe : ∀ place : Reading, place.AtMark → probe' place s = probe place s) (hx : y s = x s) :
    TracedAt probe' y good s := by
  obtain ⟨places, h⟩ := h
  refine ⟨places, fun place hplace => ?_, fun place hmark hplace => ?_, h.ordered, h.within,
    fun a s' hrun => ?_, fun e s' hrun => ?_⟩
  · rw [hprobe place (h.within place hplace).1, h.stops place hplace]
  · rw [hprobe place hmark, hx, h.passes place hmark hplace]
  · rw [hx] at hrun ⊢
    exact h.ok a s' hrun
  · rw [hx] at hrun ⊢
    exact h.error e s' hrun

theorem TracedAt.bind (hx : TracedAt probe x good s)
    (hf : ∀ a s' marks, x s = .ok a s' → good a marks →
      TracedAt (fun place => g place a) (f a) (fun b marks' => good' b (marks ++ marks')) s') :
    TracedAt (fun place => probe place >>= g place) (x >>= f) good' s := by
  obtain ⟨places, hplaces⟩ := hx
  cases hrun : x s with
  | error e s' => exact ⟨places, hplaces.bind_error hrun⟩
  | ok a s' =>
      obtain ⟨-, -, marks, hgood, hvisits⟩ := hplaces.ok a s' hrun
      obtain ⟨places', hplaces'⟩ := hf a s' marks hrun hgood
      exact ⟨_, hplaces.bind_ok hrun hvisits hplaces'⟩

theorem Traced.bind (hx : Traced probe x good)
    (hf : ∀ a marks, good a marks → Traced (fun place => g place a) (f a)
      fun b marks' => good' b (marks ++ marks')) :
    Traced (fun place => probe place >>= g place) (x >>= f) good' :=
  fun s => (hx s).bind fun a s' marks _ hgood => hf a marks hgood s'

end

/-- The first place completes, or it is the only one and fails the run. -/
theorem Visits.head {result : EStateM.Result Error Reading α} {assigned last : Bool}
    {place : Reading} {places : List Reading} {marks : List Statement}
    (h : Visits result assigned (place :: places) marks last) :
    place.assigned = assigned ∧
      ((∃ mark s marks', statement? place = .ok (some mark) s ∧
          Visits result (assigned || place.atSet) places marks' last) ∨
        places = [] ∧ ∃ e s, statement? place = .error e s ∧ result = .error e s) := by
  cases h with
  | completed hassigned hrun h => exact ⟨hassigned, .inl ⟨_, _, _, hrun, h⟩⟩
  | failed hassigned hrun hresult => exact ⟨hassigned, .inr ⟨rfl, _, _, hrun, hresult⟩⟩

/-- The places before a place of a run have completed, and there has been a SET if one of them is a
SET; the place itself completes, or is the last one and fails the run. -/
theorem Visits.place {result : EStateM.Result Error Reading α} {assigned last : Bool}
    {before after : List Reading} {place : Reading} {marks : List Statement}
    (h : Visits result assigned (before ++ place :: after) marks last) :
    place.assigned = (assigned || before.any Reading.atSet) ∧
      (∀ earlier ∈ before, ∃ mark s, statement? earlier = .ok (some mark) s) ∧
      ∀ e s, statement? place = .error e s → after = [] ∧ result = .error e s := by
  induction before generalizing assigned marks with
  | nil =>
      obtain ⟨hassigned, ⟨mark, s, _, hrun, -⟩ | ⟨hafter, e, s, hrun, hresult⟩⟩ := h.head
      · refine ⟨by simpa using hassigned, by simp, fun e s herror => ?_⟩
        rw [hrun] at herror
        cases herror
      · refine ⟨by simpa using hassigned, by simp, fun e s herror => ?_⟩
        rw [hrun] at herror
        cases herror
        exact ⟨hafter, hresult⟩
  | cons first before ih =>
      obtain ⟨-, ⟨mark, s, _, hrun, h⟩ | ⟨hafter, -⟩⟩ := h.head
      · obtain ⟨hplace, hbefore, herror⟩ := ih h
        refine ⟨?_, List.forall_mem_cons.2 ⟨⟨mark, s, hrun⟩, hbefore⟩, herror⟩
        rw [hplace, List.any_cons, Bool.or_assoc]
      · simp at hafter

theorem Visits.completes {assigned last : Bool} {places : List Reading} {marks : List Statement}
    {a : α} {s : Reading}
    (h : Visits (.ok a s : EStateM.Result Error Reading α) assigned places marks last) :
    List.Forall₂ (fun place mark => ∃ s, statement? place = .ok (some mark) s) places marks := by
  induction h with
  | nil => exact .nil
  | completed _ hrun _ ih => exact .cons ⟨_, hrun⟩ ih
  | failed _ _ hresult => cases hresult

end Reader

end ClassSelection
