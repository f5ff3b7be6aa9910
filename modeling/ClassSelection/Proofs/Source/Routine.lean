import ClassSelection.Proofs.Source.Reading
import ClassSelection.Routine.Basic

/-!
# Reading written routines

A source text renders a routine if its tokens are those of the routine, in
whatever layout.  `readsAs_iff` says which routines are read as written.
-/

namespace ClassSelection

namespace Source

/-- The source has the tokens of a PROC statement and a body, closed by an END or by nothing. -/
def Renders (source : String) (kind : RoutineKind) (body : Body) : Prop :=
  ∃ closing, (closing = [] ∨ closing = [.word "END"]) ∧
    (TokenStream.ofSource source).toList =
      .word "PROC" :: .word kind.name :: (body.tokens kind ++ closing)

/-- The routine's statements are those of the body, after a `skip` for the PROC statement; nothing
but empty blocks may follow. -/
def ReadsAs (routine : Routine) (body : Body) : Prop :=
  ∃ blocks, routine.body.withoutLines =
    .sequence (.sequence (.skip :: body.statements) :: List.replicate blocks .skip)

end Source

namespace Reader

open Source

variable {kind : Option RoutineKind} {rest : List Token}

theorem at_ofSource (source : String) :
    (Reading.ofSource source).At none (TokenStream.ofSource source).toList :=
  ⟨rfl, rfl, TokenStream.endRepeats_of_pending_eq_none rfl⟩

theorem statement?_run_proc {kind : RoutineKind} {kind' : Option RoutineKind} {s : Reading}
    (h : s.At kind' (.word "PROC" :: .word kind.name :: rest)) :
    ∃ s', statement? s = .ok (some .skip) s' ∧ s'.At (some kind) rest := by
  have hproc : Runs kind' statement? (.word "PROC" :: .word kind.name :: rest) fun result =>
      ∃ s', result = .ok (some .skip) s' ∧ s'.At (some kind) rest := by
    have hlabel : (Token.word kind.name).isNumber = false := by cases kind <;> decide
    have hname : RoutineKind.ofName? (Token.word kind.name).text = some kind :=
      kind.ofName?_name
    rw [statement?_eq]
    apply runs_next
    simp only [Keyword.ofToken?, Keyword.ofWord?, proc, bind_assoc]
    apply runs_next
    rw [if_neg (by simp [hlabel]), pure_bind, hname]
    exact fun s hs => ⟨_, rfl, hs.toList, rfl, hs.endRepeats⟩
  exact hproc s h

theorem strayBranch_run_end {s : Reading} (h : s.At kind []) :
    ∃ s', strayBranch s = .ok () s' ∧ s'.At kind [] ∧ s'.tokens.exhausted = true := by
  have hrun : ∃ s', strayBranch s = (pure () : Reader Unit) s' ∧ s'.At kind [] ∧
      s'.tokens.exhausted = s.tokens.next.2.exhausted :=
    exists_run_putBack h (bind_pure _).symm
  obtain ⟨s', hrun, hs', hexhausted⟩ := hrun
  exact ⟨s', hrun, hs', by rw [hexhausted, (h.endRepeats (next_eq_upcoming h)).1]⟩

theorem takes_strayBranch_end :
    Takes kind strayBranch [.word "END"] [.word "END"] (fun _ => True) := by
  apply runs_putBack
  · exact (bind_pure _).symm
  · exact Takes.pure trivial

/-! ## Blocks of a routine -/

/-- What is left behind a body, an END or nothing, makes at most an empty block. -/
theorem many_topLevel?_run_closing {s : Reading} {closing : List Token} (h : s.At kind closing)
    (hclosing : closing = [] ∧ s.tokens.exhausted = true ∨ closing = [.word "END"]) :
    ∃ blocks s', many topLevel? s = .ok (List.replicate blocks .skip) s' ∧ s'.kind = kind := by
  by_cases hexhausted : s.tokens.exhausted = true
  · exact ⟨0, s, many_run_none (topLevel?_run_exhausted hexhausted), h.kind⟩
  rcases hclosing with ⟨-, hend⟩ | rfl
  · exact absurd hend hexhausted
  have hblock : Takes kind (blockWith statement?) [.word "END"] [] (· = .skip) :=
    (takes_many_nil (takes_statement?_none (.last []))).map fun _ heq => by rw [heq]; rfl
  obtain ⟨_, s', hrun, rfl, hs'⟩ := hblock s h
  obtain ⟨s'', hrun', hs'', hend⟩ := strayBranch_run_end hs'
  have hitem : topLevel? s = .ok (some .skip) s'' := by
    rw [topLevel?_run (by simpa using hexhausted), bind_run, hrun]
    dsimp only
    rw [bind_run, hrun']
    rfl
  refine ⟨1, s'', ?_, hs''.kind⟩
  rw [many, hitem]
  dsimp only
  rw [many_run_none (topLevel?_run_exhausted hend)]
  split <;> rfl

end Reader

namespace Source

open Reader

variable {source : String} {kind : RoutineKind} {body : Body} {closing : List Token}

theorem Body.exists_endsBlock (ending : Ending) (h : closing = [] ∨ closing = [.word "END"]) :
    ∃ after, EndsBlock (ending.left ++ closing) after ∧ (after = [] ∨ after = [.word "END"]) := by
  rcases h with rfl | rfl
  · cases ending with
    | early => exact ⟨[], .last [], .inl rfl⟩
    | exact | misread => exact ⟨[], .endOfSource, .inl rfl⟩
  · refine ⟨ending.left ++ [], ending.endsBlock [], ?_⟩
    cases ending <;> simp [Ending.left]

theorem opensBranch_closing (h : closing = [] ∨ closing = [.word "END"]) :
    opensBranch closing = false := by
  rcases h with rfl | rfl <;> simp [opensBranch]

/-- The first block of a routine is the PROC statement and the body. -/
theorem exists_topLevel?_run {s : Reading}
    (hs : s.At none (.word "PROC" :: .word kind.name :: (body.tokens kind ++ closing)))
    (hopen : s.tokens.exhausted = false) (hclosing : closing = [] ∨ closing = [.word "END"])
    (hending : body.ending false ≠ .misread) :
    ∃ block s' after, topLevel? s = .ok (some block) s' ∧
      block.withoutLines = .sequence (.skip :: body.statements) ∧ s'.At (some kind) after ∧
      (after = [] ∧ s'.tokens.exhausted = true ∨ after = [.word "END"]) := by
  obtain ⟨s₁, hproc, hs₁⟩ := statement?_run_proc hs
  obtain ⟨after, hafter, hcases⟩ := Body.exists_endsBlock (body.ending false) hclosing
  obtain ⟨values, s₂, hvalues, heq, hs₂⟩ :=
    body.takes kind (by rw [opensBranch_closing hclosing]) hending hafter s₁ hs₁
  have hstray : ∃ s₃, strayBranch s₂ = .ok () s₃ ∧ s₃.At (some kind) after ∧
      (after = [] ∧ s₃.tokens.exhausted = true ∨ after = [.word "END"]) := by
    rcases hcases with rfl | rfl
    · obtain ⟨s₃, hrun, hs₃, hend⟩ := strayBranch_run_end hs₂
      exact ⟨s₃, hrun, hs₃, .inl ⟨rfl, hend⟩⟩
    · obtain ⟨_, s₃, hrun, -, hs₃⟩ := takes_strayBranch_end s₂ hs₂
      exact ⟨s₃, hrun, hs₃, .inr rfl⟩
  obtain ⟨s₃, hrun, hs₃, hend⟩ := hstray
  refine ⟨.sequence (.skip :: values), s₃, after, ?_, ?_, hs₃, hend⟩
  · have hblock : blockWith statement? s = .ok (.sequence (.skip :: values)) s₂ := by
      refine bind_eq_ok.2 ⟨.skip :: values, s₂, ?_, rfl⟩
      rw [many_run_some agree_statement? hproc, hvalues]
    rw [topLevel?_run hopen]
    exact bind_eq_ok.2 ⟨_, s₂, hblock, bind_eq_ok.2 ⟨(), s₃, hrun, rfl⟩⟩
  · rw [Statement.withoutLines_sequence, List.map_cons, heq]
    rfl

/-- A routine without misread statements is read, and as it is written. -/
theorem exists_readsAs (h : Renders source kind body) (hending : body.ending false ≠ .misread) :
    ∃ routine, Routine.parse source = .ok routine ∧ routine.kind = some kind ∧
      ReadsAs routine body := by
  obtain ⟨closing, hclosing, htokens⟩ := h
  have hs := at_ofSource source
  rw [htokens] at hs
  obtain ⟨block, s', after, hitem, hblock, hs', hend⟩ :=
    exists_topLevel?_run hs rfl hclosing hending
  obtain ⟨blocks, s'', hblocks, hkind⟩ := many_topLevel?_run_closing hs' hend
  have hmany : ∃ blocks final, many topLevel? (Reading.ofSource source) =
      .ok (block :: List.replicate blocks .skip) final ∧ final.kind = some kind := by
    rw [many, hitem]
    dsimp only
    split
    · exact ⟨blocks, s'', by rw [hblocks], hkind⟩
    · exact ⟨0, s', rfl, hs'.kind⟩
  obtain ⟨blocks, final, hmany, hkind⟩ := hmany
  have hbody : routineBody (Reading.ofSource source) =
      .ok (.sequence (block :: List.replicate blocks .skip)) final :=
    bind_eq_ok.2 ⟨_, final, hmany, rfl⟩
  rw [Routine.parse, hbody]
  refine ⟨_, rfl, hkind, blocks, ?_⟩
  rw [Statement.withoutLines_sequence, List.map_cons, hblock, List.map_replicate]
  rfl

/-- The first block of a routine with a misread statement is another one. -/
theorem never_topLevel? (hclosing : closing = [] ∨ closing = [.word "END"])
    (hending : body.ending false = .misread) :
    Never none topLevel? (.word "PROC" :: .word kind.name :: (body.tokens kind ++ closing))
      (·.map Statement.withoutLines = some (.sequence (.skip :: body.statements))) := by
  have hstatements : Never none (many statement?)
      (.word "PROC" :: .word kind.name :: (body.tokens kind ++ closing))
      (·.map Statement.withoutLines = .skip :: body.statements) := by
    intro s hs values final hrun heq
    obtain ⟨s', hproc, hs'⟩ := statement?_run_proc hs
    rw [many_run_some agree_statement? hproc] at hrun
    split at hrun
    · rename_i hmany
      cases hrun
      exact body.never kind (by rw [opensBranch_closing hclosing]; exact hending) s' hs' _ _ hmany
        (List.cons.inj heq).2
    · cases hrun
  intro s hs a final hrun heq
  cases hexhausted : s.tokens.exhausted with
  | true =>
      rw [topLevel?_run_exhausted hexhausted] at hrun
      cases hrun
      cases heq
  | false =>
      rw [topLevel?_run hexhausted] at hrun
      obtain ⟨block, s', hblock, hrun⟩ := bind_eq_ok.1 hrun
      obtain ⟨_, s'', -, hrun⟩ := bind_eq_ok.1 hrun
      cases hrun
      exact never_blockWith hstatements s hs block s' hblock (Option.some.inj heq)

/-- The routines that are read as they are written: those without misread statements. -/
theorem readsAs_iff (h : Renders source kind body) :
    (∃ routine, Routine.parse source = .ok routine ∧ ReadsAs routine body) ↔
      body.ending false ≠ .misread := by
  constructor
  · rintro ⟨routine, hparse, blocks, hbody⟩ hending
    obtain ⟨closing, hclosing, htokens⟩ := h
    have hs := at_ofSource source
    rw [htokens] at hs
    rw [Routine.parse] at hparse
    split at hparse
    · rename_i statement final hrun
      cases hparse
      obtain ⟨values, _, hmany, hfinal⟩ := bind_eq_ok.1 hrun
      cases hfinal
      rw [Statement.withoutLines_sequence] at hbody
      exact never_many_head (never_topLevel? hclosing hending) _ hs values _ hmany
        (Statement.sequence_injective hbody)
    · cases hparse
  · intro hending
    obtain ⟨routine, hparse, -, hreads⟩ := exists_readsAs h hending
    exact ⟨routine, hparse, hreads⟩

end Source

end ClassSelection
