import ClassSelection.Proofs.Reader.FilterList
import ClassSelection.Proofs.Reader.Termination
import ClassSelection.Proofs.Reader.Visits

/-!
# What SET and EXIT do

SET is the only statement that assigns, and EXIT the only one that asks whether
something has been assigned: a well-formed EXIT fails exactly where nothing has.
-/

namespace ClassSelection

namespace Reader

variable {α β : Type}

/-! ## Readers that assign nothing -/

def KeepsAssigned (x : Reader α) : Prop :=
  ∀ s a s', x s = .ok a s' → s'.assigned = s.assigned

namespace KeepsAssigned

theorem pure (a : α) : KeepsAssigned (pure a) := by
  rintro s b s' ⟨⟩
  rfl

theorem throw (e : Error) : KeepsAssigned (throw e : Reader α) :=
  fun _ _ _ hrun => by cases hrun

theorem bind {x : Reader α} {f : α → Reader β} (hx : KeepsAssigned x)
    (hf : ∀ a, KeepsAssigned (f a)) : KeepsAssigned (x >>= f) := by
  intro s b s' hrun
  obtain ⟨a, middle, hx', hf'⟩ := bind_eq_ok.1 hrun
  exact (hf a middle b s' hf').trans (hx s a middle hx')

theorem next : KeepsAssigned next := by
  rintro s token s' ⟨⟩
  rfl

theorem get : KeepsAssigned (MonadState.get : Reader Reading) := by
  rintro s a s' ⟨⟩
  rfl

theorem modify {f : Reading → Reading} (h : ∀ s, (f s).assigned = s.assigned) :
    KeepsAssigned (modify f : Reader Unit) := by
  rintro s a s' ⟨⟩
  exact h s

theorem line : KeepsAssigned line :=
  get.bind fun _ => pure _

theorem missing (expected : String) (found : Token) :
    KeepsAssigned (missing expected found : Reader α) :=
  line.bind fun _ => throw _

theorem putBack (token : Token) : KeepsAssigned (putBack token) := by
  intro s a s' hrun
  unfold Reader.putBack at hrun
  split at hrun <;> cases hrun
  rfl

theorem report (kind : AnomalyKind) : KeepsAssigned (report kind) :=
  line.bind fun _ => modify fun _ => rfl

theorem register (name : String) : KeepsAssigned (register name) :=
  modify fun _ => rfl

theorem accept (wanted : Token → Bool) : KeepsAssigned (accept wanted) := by
  refine next.bind fun token => ?_
  split
  · exact pure true
  · exact (putBack token).bind fun _ => pure false

theorem expect (symbol : Char) (expected : String) : KeepsAssigned (expect symbol expected) := by
  refine next.bind fun token => ?_
  split
  · exact pure ()
  · exact missing _ _

theorem many {item : Reader (Option α)} (h : KeepsAssigned item) : KeepsAssigned (many item) := by
  intro s values s' hrun
  induction hleft : s.tokens.remaining using Nat.strongRecOn generalizing s values s' with
  | _ n ih =>
      subst hleft
      rw [many_run_eq] at hrun
      obtain ⟨found, after, hitem, hrun⟩ := bind_eq_ok.1 hrun
      have hafter := h s found after hitem
      cases found with
      | none =>
          cases hrun
          exact hafter
      | some first =>
          dsimp only [again] at hrun
          split at hrun
          · rename_i hlt
            obtain ⟨others, _, hothers, hrun⟩ := bind_eq_ok.1 hrun
            cases hrun
            exact (ih _ hlt after others s' hothers rfl).trans hafter
          · cases hrun
            exact hafter

theorem of_accepts {γ : Type} {x : Reader α} {view : α → γ} {form : Form γ}
    (h : ∀ bound, Accepts bound x view form) : KeepsAssigned x := by
  intro s a s' hrun
  obtain ⟨-, _, -, hgains⟩ := (h _).sound (Nat.lt_succ_self _) hrun
  exact hgains.assigned

end KeepsAssigned

theorem keepsAssigned_expr : KeepsAssigned expr := by
  have haccepts (bound : Nat) : Accepts bound expr (Expr.alternatives .merge) _ := accepts_expr
  exact .of_accepts haccepts

theorem keepsAssigned_whenValue (subject : String) : KeepsAssigned (whenValue subject) := by
  refine KeepsAssigned.next.bind fun value => ?_
  split
  · exact (KeepsAssigned.missing _ _).bind fun _ =>
      (KeepsAssigned.register _).bind fun _ => .pure _
  · exact (KeepsAssigned.register _).bind fun _ => .pure _

theorem keepsAssigned_whenValues (subject : String) : KeepsAssigned (whenValues subject) := by
  have hlisted : KeepsAssigned (listedValue? subject) := by
    refine (KeepsAssigned.accept _).bind fun taken => ?_
    split
    · exact (keepsAssigned_whenValue subject).bind fun _ => .pure _
    · exact .pure none
  exact (keepsAssigned_whenValue subject).bind fun _ => hlisted.many.bind fun _ => .pure _

theorem keepsAssigned_selectSubject : KeepsAssigned selectSubject := by
  have hname : KeepsAssigned variableName? := .of_accepts fun _ => accepts_variableName?
  refine hname.bind fun name => ?_
  split
  · exact .pure _
  · exact KeepsAssigned.next.bind fun _ => KeepsAssigned.line.bind fun _ => .throw _

theorem keepsAssigned_proc : KeepsAssigned proc := by
  have hkind (kind : RoutineKind) :
      KeepsAssigned (modify fun reading => { reading with kind := some kind } : Reader Unit) :=
    .modify fun _ => rfl
  refine KeepsAssigned.next.bind fun label => ?_
  dsimp only
  split
  · refine KeepsAssigned.next.bind fun token => ?_
    split
    · exact hkind _
    · exact KeepsAssigned.line.bind fun _ => .throw _
  · rw [pure_bind]
    split
    · exact hkind _
    · exact KeepsAssigned.line.bind fun _ => .throw _

theorem keepsAssigned_filtlist : KeepsAssigned filtlist := by
  have hlists (name : Token) : KeepsAssigned (do
      let sections ← many filterSection?
      let list := sections.foldl (fun list enter => enter list) ⟨name.text, "", ""⟩
      modify fun reading => { reading with filterLists := reading.filterLists ++ [list] }) := by
    have hsections : KeepsAssigned filterSection? := .of_accepts fun _ => accepts_filterSection?
    exact hsections.many.bind fun _ => .modify fun _ => rfl
  refine KeepsAssigned.next.bind fun name => ?_
  split
  · exact (KeepsAssigned.missing _ _).bind fun _ => hlists name
  · exact hlists name

theorem keepsAssigned_write : KeepsAssigned write := by
  have htext : KeepsAssigned writtenText? := by
    refine (KeepsAssigned.accept _).bind fun taken => ?_
    split
    · exact .pure _
    · exact .pure _
  exact htext.many.bind fun _ => .pure ()

theorem keepsAssigned_strayBranch : KeepsAssigned strayBranch := by
  refine KeepsAssigned.next.bind fun token => ?_
  split
  · exact .report _
  · exact .report _
  · exact .putBack token

/-! ## SETs and EXITs -/

theorem assignment_ok {s s' : Reading} {statement : Statement}
    (hrun : assignment s = .ok statement s') :
    (∃ value line, statement = .assign value line) ∧ s'.assigned = true := by
  have hvalue {s : Reading} (hrun : assignedValue s = .ok statement s') :
      (∃ value line, statement = .assign value line) ∧ s'.assigned = true := by
    rw [assignedValue, bind_run, next_run] at hrun
    dsimp only at hrun
    split at hrun
    · exact absurd hrun missing_bind_ne_ok
    · cases hrun
      exact ⟨⟨_, _, rfl⟩, rfl⟩
  have hsign {s : Reading} (hrun : signAndValue s = .ok statement s') :
      (∃ value line, statement = .assign value line) ∧ s'.assigned = true := by
    rw [signAndValue, bind_run, next_run] at hrun
    dsimp only at hrun
    split at hrun
    · exact hvalue hrun
    · exact absurd hrun missing_bind_ne_ok
  replace hrun := next_bind_eq_ok.1 hrun
  dsimp only at hrun
  cases hkind : if s.tokens.next.1.isVariable then RoutineKind.ofName? s.tokens.next.1.text
    else none with
  | some kind =>
      rw [hkind] at hrun
      dsimp only at hrun
      rw [pure_bind] at hrun
      obtain ⟨reading, _, -, hrun⟩ := bind_eq_ok.1 hrun
      cases hroutine : reading.kind with
      | some routine =>
          rw [hroutine] at hrun
          dsimp only at hrun
          split at hrun
          · exact hsign hrun
          · cases hrun
      | none =>
          rw [hroutine] at hrun
          exact hsign hrun
  | none =>
      rw [hkind] at hrun
      obtain ⟨_, _, -, hrun⟩ := bind_eq_ok.1 hrun
      cases hrun

def exitCode : Reader Unit := do
  if ← accept (· == .word "CODE") then
    expect '(' "( after CODE"
    let code ← next
    if code == .endOfSource then
      missing "exit code" code
    expect ')' "closing parenthesis"

theorem exit_eq : exit = do
    let line ← line
    exitCode
    unless (← get).assigned do
      throw (.exitWithoutRule line)
    return .exit := by
  rw [exit]
  refine bind_congr fun line => ?_
  rw [exitCode, bind_assoc]
  refine bind_congr fun taken => ?_
  cases taken with
  | true =>
      simp only [if_true, bind_assoc]
      refine bind_congr fun _ => bind_congr fun code => ?_
      split
      · simp only [bind_assoc]
      · rfl
  | false => rfl

theorem exit_run (s : Reading) : exit s = match exitCode s with
    | .ok _ s' =>
      if s'.assigned then .ok .exit s' else .error (.exitWithoutRule s.tokens.line) s'
    | .error e s' => .error e s' := by
  have hline (f : Nat → Reader Statement) : (line >>= f) s = f s.tokens.line s := rfl
  rw [exit_eq, hline, bind_run]
  cases exitCode s with
  | error e s' => rfl
  | ok a s' =>
      have hget (f : Reading → Reader Statement) : (MonadState.get >>= f) s' = f s' s' := rfl
      dsimp only
      rw [hget]
      cases hassigned : s'.assigned with
      | true => rfl
      | false => rfl

theorem keepsAssigned_exitCode : KeepsAssigned exitCode := by
  refine (KeepsAssigned.accept _).bind fun taken => ?_
  split
  · refine (KeepsAssigned.expect _ _).bind fun _ => KeepsAssigned.next.bind fun code => ?_
    split
    · exact (KeepsAssigned.missing _ _).bind fun _ => .expect _ _
    · exact .expect _ _
  · exact .pure ()

theorem exit_ok {s s' : Reading} {statement : Statement} (hrun : exit s = .ok statement s') :
    statement = .exit ∧ s.assigned = true ∧ s'.assigned = true := by
  rw [exit_run] at hrun
  cases hcode : exitCode s with
  | error e middle =>
      rw [hcode] at hrun
      cases hrun
  | ok a middle =>
      rw [hcode] at hrun
      dsimp only at hrun
      split at hrun
      · rename_i hassigned
        cases hrun
        exact ⟨rfl, (keepsAssigned_exitCode s a _ hcode).symm.trans hassigned, hassigned⟩
      · cases hrun

inductive ExitCode : List Token → List Token → Prop
  | plain {rest : List Token} (hnext : upcoming rest ≠ .word "CODE") : ExitCode rest rest
  | code {code : Token} {rest : List Token} (hne : code ≠ .endOfSource) :
      ExitCode (.word "CODE" :: .punct '(' :: code :: .punct ')' :: rest) rest

theorem accepts_exitCode {bound : Nat} :
    Accepts bound exitCode id (Quiet fun before after _ => ExitCode before after) := by
  have hnumber {bound : Nat} : Accepts bound
      (do
        let code ← next
        if code == .endOfSource then
          missing "exit code" code
        expect ')' "closing parenthesis") id
      (Quiet fun before after _ => ∃ code, code ≠ .endOfSource ∧
        before = code :: .punct ')' :: after) := by
    have hlater (code : Token) (hne : code ≠ .endOfSource) : Accepts (bound - 1)
        (do
          if code == .endOfSource then
            missing "exit code" code
          expect ')' "closing parenthesis") id
        (Quiet fun before after _ => before = .punct ')' :: after) := by
      rw [if_neg (by simp [hne])]
      exact accepts_expect
    refine (Accepts.next hlater fun s a s' h => missing_bind_ne_ok h).congr
      fun before after _ tests => ⟨?_, ?_⟩
    · rintro ⟨code, _, rfl, hne, rfl, rfl⟩
      exact ⟨⟨code, hne, rfl⟩, rfl⟩
    · rintro ⟨⟨code, hne, rfl⟩, rfl⟩
      exact ⟨code, _, rfl, hne, rfl, rfl⟩
  have hcode : Accepts bound exitCode id _ :=
    accepts_accept rfl (accepts_expect.andThen fun _ => hnumber) (.pure rfl)
  refine hcode.congr fun before after _ tests => ⟨?_, ?_⟩
  · rintro (⟨_, _, rfl, htoken, _, _, rfl, ⟨code, hne, rfl⟩, rfl⟩ | ⟨hnext, ⟨rfl, -⟩, rfl⟩)
    · obtain rfl := eq_of_beq htoken
      exact ⟨.code hne, rfl⟩
    · exact ⟨.plain (by simpa using hnext), rfl⟩
  · rintro ⟨h, rfl⟩
    cases h with
    | plain hnext => exact .inr ⟨by simpa using hnext, ⟨rfl, rfl⟩, rfl⟩
    | code hne => exact .inl ⟨_, _, rfl, rfl, _, (), rfl, ⟨_, hne, rfl⟩, rfl⟩

section

variable {s s' : Reading} {rest : List Token}

theorem statement?_set (h : s.tokens.next.1 = .word "SET") :
    statement? s = (do return some (← assignment) : Reader (Option Statement))
      { s with tokens := s.tokens.next.2 } := by
  rw [statement?_eq, statementWith?, bind_run, next_run, h]
  rfl

theorem statement?_exit (h : s.tokens.next.1 = .word "EXIT") :
    statement? s = (do return some (← exit) : Reader (Option Statement))
      { s with tokens := s.tokens.next.2 } := by
  rw [statement?_eq, statementWith?, bind_run, next_run, h]
  rfl

/-- A well-formed EXIT is read, and fails exactly where no SET has been before. -/
theorem exists_statement?_exit {tokens : List Token}
    (htokens : s.tokens.toList = .word "EXIT" :: tokens)
    (hcode : ExitCode tokens rest) : ∃ s', s'.tokens.toList = rest ∧ statement? s =
      if s.assigned then .ok (some .exit) s'
      else .error (.exitWithoutRule s.tokens.next.2.line) s' := by
  obtain ⟨hkeyword, -, hlater⟩ := TokenStream.toList_eq_cons_iff.1 htokens
  have hform : Quiet (fun before after (_ : Unit) => ExitCode before after)
      s.tokens.next.2.toList rest () [] := ⟨hlater ▸ hcode, rfl⟩
  have haccepts : Accepts (s.tokens.next.2.toList.length + 1) exitCode id _ := accepts_exitCode
  obtain ⟨_, s', hrun, -, hrest, hgains⟩ :=
    haccepts.complete (s := { s with tokens := s.tokens.next.2 }) (Nat.lt_succ_self _) hform
  refine ⟨s', hrest, ?_⟩
  rw [statement?_exit hkeyword, bind_run, exit_run, hrun]
  have hassigned : s'.assigned = s.assigned := hgains.assigned
  dsimp only
  rw [hassigned]
  cases s.assigned <;> rfl

/-- A SET or EXIT that completes is a mark of its own. -/
theorem mark_of_statement? {found : Option Statement} (hs : s.AtMark)
    (hrun : statement? s = .ok found s') : ∃ mark, found = some mark ∧ mark.marks = [mark] ∧
      s'.assigned = (s.assigned || s.atSet) ∧ (mark = .exit → s.assigned = true) ∧
      (mark = .exit ↔ s.atSet = false) := by
  rcases hs with hset | hexit
  · rw [statement?_set hset] at hrun
    obtain ⟨mark, _, hassignment, hrun⟩ := bind_eq_ok.1 hrun
    cases hrun
    obtain ⟨⟨value, line, rfl⟩, hassigned⟩ := assignment_ok hassignment
    refine ⟨_, rfl, rfl, ?_, by simp, ?_⟩
    · rw [hassigned, Reading.atSet, hset]
      simp
    · simp [Reading.atSet, hset]
  · rw [statement?_exit hexit] at hrun
    obtain ⟨mark, _, hexit', hrun⟩ := bind_eq_ok.1 hrun
    cases hrun
    obtain ⟨rfl, hbefore, hassigned⟩ := exit_ok hexit'
    dsimp only at hbefore
    refine ⟨_, rfl, rfl, ?_, fun _ => hbefore, ?_⟩
    · rw [hassigned, hbefore]
      rfl
    · simp [Reading.atSet, hexit]

end

end Reader

end ClassSelection
