import ClassSelection.Proofs.Source.Respelling
import ClassSelection.Proofs.Table.Lines

/-!
# One table for both ways to write a SELECT

The readings of the two sources are alike from the first statement to the last,
so the tables are the same, lines apart.
-/

namespace ClassSelection

open Reader

namespace Source.Respelled

variable {source other : String} {subject : Variable}

theorem endAlike (h : Respelled source subject (TokenStream.ofSource other).toList) :
    EndAlike Statement.Alike (routineBody (.ofSource source)) (routineBody (.ofSource other)) := by
  generalize hother : (TokenStream.ofSource other).toList = tokens at h
  cases h with
  | @read place before tail rest hplace hselect hbranches hsource =>
      rw [hselect] at hsource
      have hne : subjectTokens (some subject) ++ .word "WHEN" :: tail ≠ [] := by simp
      have hfork := (Parting.ofSource hsource hother).tail.forked hne
      refine endAlike_of_comesTo (fun t ht => ?_) hfork hplace
        (TokenStream.not_beyond (by simp [hselect]))
      exact endAlike_statement? (ht.mono (·.exhausted)) hselect
        (ht.tokens.toList_cons hselect) hbranches
  | unread hrun hsource hlast =>
      exact (Parting.ofSource hsource hother).tail.endAlike (fun _ => lockstepAt_routineBody) hlast
        hrun

end Source.Respelled

namespace DecisionTable

theorem outcome_of_endAlike (mode : CombineMode) {source other : String}
    (h : EndAlike Statement.Alike (routineBody (.ofSource source))
      (routineBody (.ofSource other))) :
    outcome mode source = outcome mode other := by
  unfold outcome ofSource Routine.parse
  generalize routineBody (.ofSource source) = run, routineBody (.ofSource other) = run' at h ⊢
  cases h with
  | error herror => exact congrArg Except.error herror
  | ok hbody hfinal =>
      have hrules := hbody.rules mode
      have hkinds := congrArg (List.map (Anomaly.mk 0)) hfinal.anomalies
      rw [List.map_map, List.map_map] at hkinds
      have hanomalies (reading : Reading) : reading.anomalies.map Anomaly.withoutLine =
          reading.anomalies.map (Anomaly.mk 0 ∘ Anomaly.kind) := rfl
      simp only [bind, Except.bind, ofRoutine_eq, Except.mapError, Except.map, withoutLines,
        List.map_reverse, hrules, hanomalies, hkinds, hfinal.kind, hfinal.registry,
        hfinal.filterLists]

open Source

/-- A SELECT on a subject has the same outcome as the SELECT without it whose guards compare the
subject with each value of the lists. -/
theorem outcome_of_respelled (mode : CombineMode) {source other : String} {subject : Variable}
    (h : Respelled source subject (TokenStream.ofSource other).toList) :
    outcome mode source = outcome mode other :=
  outcome_of_endAlike mode h.endAlike

/-- A subject with a qualifier, and a list of two values. -/
theorem outcome_of_respelled_qualifiedSubject :
    let source := "PROC STORCLAS SELECT (&X(1)) WHEN ('A', B) SET &STORCLAS = 'C' OTHERWISE END"
    let other := "PROC STORCLAS SELECT WHEN (&X(1) = 'A' OR &X(1) = B)" ++
      " SET &STORCLAS = 'C' OTHERWISE END"
    let subject : Variable := ⟨"&X", by decide, some ⟨.word "1", by decide⟩⟩
    Respelled source subject (TokenStream.ofSource other).toList ∧
      ∀ mode, outcome mode source = outcome mode other := by
  intro source other subject
  let question : Question (some subject) := .oneOf ⟨.literal "A", by simp⟩ [⟨.word "B", by simp⟩]
  let body : List Token := [.word "SET", .word "&STORCLAS", .punct '=', .literal "C"]
  let place := { (Reading.ofSource source).skip 2 with kind := some .storageClass }
  let after := final (whenWith? statement? (some subject.text) (place.skip 7))
  have hlist : (place.skip 7).tokens.toList =
      whenTokens question.tokens ++ (body ++ after.tokens.toList) := by
    decide +kernel
  have hbranch : whenWith? statement? (some subject.text) (place.skip 7) =
      .ok (some (question.expr, .seq (.assign "'C'" 1) .skip)) after := by
    decide +kernel
  have hselect : place.tokens.toList = .word "SELECT" :: (subjectTokens (some subject) ++
      .word "WHEN" :: (place.skip 8).tokens.toList) := by
    decide +kernel
  have hsource : (TokenStream.ofSource source).toList =
      [.word "PROC", .word "STORCLAS"] ++ place.tokens.toList := by
    decide +kernel
  have hother : (TokenStream.ofSource other).toList = [.word "PROC", .word "STORCLAS"] ++
      .word "SELECT" :: (whenTokens question.comparisons ++ (body ++ after.tokens.toList)) := by
    decide +kernel
  have hrespelled : Respelled source subject (TokenStream.ofSource other).toList := by
    rw [hother]
    exact .read (by decide +kernel) hselect (.branch hlist hbranch (.done (by decide +kernel)))
      hsource
  exact ⟨hrespelled, fun mode => outcome_of_respelled mode hrespelled⟩

end DecisionTable

end ClassSelection
