import ClassSelection.Proofs.Reader.Progress

/-!
# Recursive equations of the readers

Each reader takes what it has read, a nested one included, so the recursion
through `nest` unrolls: `expr_eq` and `statement?_eq` are the equations that
the grammar suggests, and `agree_statement?` says that a statement is never
empty.
-/

namespace ClassSelection.Reader

variable {α β : Type} {bound : Int}

def Shrinks (reader : Reader α) : Prop :=
  ∀ bound, Agree bound (fun _ => 0) reader reader

namespace Shrinks

theorem agree {reader : Reader α} (h : Shrinks reader) {count : α → Int}
    (hcount : ∀ a, count a ≤ 0) : Agree bound count reader reader :=
  (h bound).mono (Int.le_refl _) hcount

theorem pure (a : α) : Shrinks (pure a) :=
  fun _ => Agree.pure (Int.le_refl _)

theorem throw (e : Error) : Shrinks (throw e : Reader α) :=
  fun _ => Agree.throw

theorem next : Shrinks next :=
  fun _ => Agree.next.mono (Int.le_refl _) fun _ => by simp

theorem get : Shrinks (MonadState.get : Reader Reading) :=
  fun _ => Agree.get

theorem modify {f : Reading → Reading} (h : ∀ s, (f s).tokens = s.tokens) :
    Shrinks (modify f : Reader Unit) :=
  fun _ => Agree.modify h

theorem bind {x : Reader α} {f : α → Reader β} (hx : Shrinks x) (hf : ∀ a, Shrinks (f a)) :
    Shrinks (x >>= f) :=
  fun bound => (hx bound).bind fun a => (hf a).agree (by simp)

theorem map {x : Reader α} (f : α → β) (hx : Shrinks x) : Shrinks (f <$> x) :=
  hx.bind fun a => pure (f a)

theorem many {item : Reader (Option α)} (h : ∀ bound, Agree bound ifSome item item) :
    Shrinks (many item) :=
  fun bound => Agree.many (h bound)

theorem line : Shrinks line :=
  get.bind fun _ => pure _

theorem missing (expected : String) (found : Token) :
    Shrinks (missing expected found : Reader α) :=
  line.bind fun _ => throw _

theorem report (kind : AnomalyKind) : Shrinks (report kind) := by
  refine line.bind fun _ => ?_
  apply modify
  exact fun _ => rfl

theorem register (name : String) : Shrinks (register name) :=
  modify fun _ => rfl

theorem expect (symbol : Char) (expected : String) : Shrinks (expect symbol expected) := by
  refine next.bind fun token => ?_
  split
  · exact pure _
  · exact missing _ _

end Shrinks

theorem agree_bind {x y : Reader α} {f g : α → Reader β} (h : Agree bound (fun _ => 0) x y)
    (hf : ∀ a, Agree bound (fun _ => 0) (f a) (g a)) :
    Agree bound (fun _ => 0) (x >>= f) (y >>= g) :=
  h.bind fun a => (hf a).mono (by omega) (by intro; omega)

/-- What would come after a failure does not matter. -/
theorem agree_missing {count : α → Int} {expected : String} {found : Token} {f g : β → Reader α} :
    Agree bound count (missing expected found >>= f) (missing expected found >>= g) := by
  intro s _
  exact ⟨rfl, fun _ _ hrun => by cases hrun⟩

/-- A token that is put back right away counts for nothing. -/
theorem agree_putBack {token : Token} {count : α → Int} {f g : Unit → Reader α}
    (h : Agree bound count (f ()) (g ())) :
    Agree (bound - token.weight) (fun a => count a - token.weight) (putBack token >>= f)
      (putBack token >>= g) :=
  Agree.putBack.bind fun _ => h.mono (by omega) fun a => by omega

theorem agree_accept {wanted : Token → Bool} (h : wanted .endOfSource = false) :
    Agree bound (fun taken => if taken then 1 else 0) (accept wanted) (accept wanted) := by
  refine Agree.next.bind fun token => ?_
  split
  · rename_i hwanted
    have hne : token ≠ .endOfSource := by
      rintro rfl
      simp [h] at hwanted
    exact Agree.pure (by simp [Token.weight_of_ne hne])
  · exact agree_putBack (Agree.pure (by simp))

theorem shrinks_accept {wanted : Token → Bool} (h : wanted .endOfSource = false) :
    Shrinks (accept wanted) :=
  fun _ => (agree_accept h).mono (Int.le_refl _) fun taken => by cases taken <;> simp

/-! ## Guards -/

theorem shrinks_variableName? : Shrinks variableName? := by
  intro bound
  refine Agree.next.bind fun token => ?_
  split
  · refine Shrinks.agree ?_ (by simp)
    refine (shrinks_accept rfl).bind fun taken => ?_
    split
    · refine Shrinks.next.bind fun qualifier => ?_
      split
      · exact (Shrinks.missing _ _).bind fun _ => (Shrinks.expect _ _).bind fun _ => Shrinks.pure _
      · exact (Shrinks.expect _ _).bind fun _ => Shrinks.pure _
    · exact Shrinks.pure _
  · exact agree_putBack (Agree.pure (Int.le_refl _))

theorem shrinks_secondSymbol : Shrinks secondSymbol := by
  intro bound
  refine Agree.next.bind fun token => ?_
  split
  · exact Agree.pure (by simp)
  · exact agree_putBack (Agree.pure (Int.le_refl _))

theorem shrinks_comparator : Shrinks comparator := by
  refine Shrinks.next.bind fun token => ?_
  dsimp only
  split
  · refine shrinks_secondSymbol.bind fun second => ?_
    split
    · exact Shrinks.pure _
    · exact Shrinks.line.bind fun _ => Shrinks.throw _
  · refine (Shrinks.pure "").bind fun second => ?_
    split
    · exact Shrinks.pure _
    · exact Shrinks.line.bind fun _ => Shrinks.throw _

theorem shrinks_operand : Shrinks operand := by
  refine shrinks_variableName?.bind fun name => ?_
  split
  · exact Shrinks.pure _
  · refine Shrinks.next.bind fun token => ?_
    split
    · exact (Shrinks.missing _ _).bind fun _ => Shrinks.pure _
    · exact Shrinks.pure _

theorem shrinks_test : Shrinks test := by
  have hlast (test : Test) : Shrinks (do register test.subject; return test) :=
    (Shrinks.register _).bind fun _ => Shrinks.pure _
  refine shrinks_operand.bind fun left => shrinks_comparator.bind fun comparator =>
    shrinks_operand.bind fun right => ?_
  split
  · exact (Shrinks.pure _).bind hlast
  · split
    · exact (Shrinks.report _).bind fun _ => (Shrinks.pure _).bind hlast
    · exact Shrinks.line.bind fun _ => (Shrinks.throw _).bind hlast

def connected (nested : Reader Expr) (first : Expr) : Reader Expr := do
  let connective ← next
  if connective == .word "AND" || connective == .word "&&" then
    return .both first (← nested)
  else if connective == .word "OR" || connective == .punct '|' then
    return .either first (← nested)
  else
    putBack connective
    return first

theorem weight_of_beq {token wanted : Token} (h : (token == wanted) = true)
    (hne : wanted ≠ .endOfSource) : token.weight = 1 := by
  rw [beq_iff_eq] at h
  exact Token.weight_of_ne (h ▸ hne)

theorem agree_connected {f g : Reader Expr} (h : Agree (bound - 1) (fun _ => 0) f g)
    (first : Expr) : Agree bound (fun _ => 0) (connected f first) (connected g first) := by
  refine Agree.next.bind fun token => ?_
  have hsecond (combine : Expr → Expr → Expr) (hweight : token.weight = 1) :
      Agree (bound - token.weight) (fun _ => 0 - token.weight)
        (do return combine first (← f)) (do return combine first (← g)) := by
    rw [hweight]
    exact h.bind fun _ => Agree.pure (by simp)
  split
  · rename_i htoken
    rw [Bool.or_eq_true] at htoken
    exact hsecond .both (htoken.elim (weight_of_beq · (by simp)) (weight_of_beq · (by simp)))
  · split
    · rename_i htoken
      rw [Bool.or_eq_true] at htoken
      exact hsecond .either (htoken.elim (weight_of_beq · (by simp)) (weight_of_beq · (by simp)))
    · exact agree_putBack (Agree.pure (Int.le_refl _))

theorem agree_exprWith {f g : Reader Expr} (h : Agree (bound - 1) (fun _ => 0) f g) :
    Agree bound (fun _ => 0) (exprWith f) (exprWith g) := by
  have hconnected := agree_connected h
  refine Agree.next.bind fun token => ?_
  dsimp only
  split
  · rename_i htoken
    rw [weight_of_beq htoken (by simp)]
    refine h.bind fun inner => (Shrinks.expect _ _ _).bind fun _ =>
      (Shrinks.pure inner _).bind fun first => ?_
    exact (hconnected first).mono (by omega) (by intro; omega)
  · split
    · exact (Shrinks.missing _ _ _).bind fun _ => (hconnected _).mono (by omega) (by intro; omega)
    · refine agree_putBack ?_
      exact (shrinks_test.map _ _).bind fun _ => (hconnected _).mono (by omega) (by intro; omega)

/-- The equation of the grammar of guards. -/
theorem expr_eq : expr = exprWith expr :=
  (nest_spec fun _ _ _ h => agree_exprWith h).1

theorem shrinks_expr : Shrinks expr :=
  (nest_spec fun _ _ _ h => agree_exprWith h).2

/-! ## Declarations -/

theorem shrinks_proc : Shrinks proc := by
  have hkind (kind : RoutineKind) :
      Shrinks (modify fun reading => { reading with kind := some kind }) := by
    apply Shrinks.modify
    exact fun _ => rfl
  refine Shrinks.next.bind fun label => ?_
  dsimp only
  split
  · refine Shrinks.next.bind fun token => ?_
    split
    · exact hkind _
    · exact Shrinks.line.bind fun _ => Shrinks.throw _
  · refine (Shrinks.pure label).bind fun token => ?_
    split
    · exact hkind _
    · exact Shrinks.line.bind fun _ => Shrinks.throw _

def closingText? : Reader (Option String) := do
  let token ← next
  if token == .punct ')' then
    return none
  if token == .endOfSource then
    missing "closing parenthesis" token
  return some token.text

theorem agree_closingText? : Agree bound ifSome closingText? closingText? := by
  refine Agree.next.bind fun token => ?_
  split
  · exact Agree.pure (by simp [ifSome])
  · split
    · exact agree_missing
    · rename_i htoken
      rw [beq_iff_eq] at htoken
      exact Agree.pure (by simp [ifSome, Token.weight_of_ne htoken])

theorem shrinks_textToClose : Shrinks textToClose :=
  (Shrinks.many fun _ => agree_closingText?).bind fun _ => Shrinks.pure _

theorem agree_filterSection? : Agree bound ifSome filterSection? filterSection? := by
  refine (agree_accept rfl).bind fun taken => ?_
  have hsection (f : String → FilterList → FilterList) : Shrinks (do
      expect '(' "( after INCLUDE or EXCLUDE"
      let patterns ← textToClose
      return some (f patterns)) :=
    (Shrinks.expect _ _).bind fun _ => shrinks_textToClose.bind fun _ => Shrinks.pure _
  split
  · exact (hsection _).agree (by intro a; cases a <;> simp [ifSome])
  · refine (agree_accept rfl).bind fun taken => ?_
    split
    · exact (hsection _).agree (by intro a; cases a <;> simp [ifSome])
    · exact Agree.pure (by simp [ifSome])

theorem shrinks_filtlist : Shrinks filtlist := by
  have hlast (name : Token) : Shrinks (do
      let sections ← many filterSection?
      let list := sections.foldl (fun list enter => enter list) ⟨name.text, "", ""⟩
      modify fun reading => { reading with filterLists := reading.filterLists ++ [list] }) := by
    refine (Shrinks.many fun _ => agree_filterSection?).bind fun _ => ?_
    apply Shrinks.modify
    exact fun _ => rfl
  refine Shrinks.next.bind fun name => ?_
  split
  · exact (Shrinks.missing _ _).bind fun _ => hlast name
  · exact hlast name

/-! ## Statements -/

theorem shrinks_assignment : Shrinks assignment := by
  have hmark : Shrinks (modify fun reading => { reading with assigned := true }) := by
    apply Shrinks.modify
    exact fun _ => rfl
  refine Shrinks.next.bind fun target => ?_
  dsimp only
  repeat' first
    | exact hmark
    | exact Shrinks.next
    | exact Shrinks.get
    | exact Shrinks.line
    | exact Shrinks.pure _
    | exact Shrinks.throw _
    | exact Shrinks.missing _ _
    | refine Shrinks.bind ?_ fun _ => ?_
    | split

theorem shrinks_exit : Shrinks exit := by
  have hlast (line : Nat) : Shrinks (do
      unless (← get).assigned do
        throw (.exitWithoutRule line)
      return Statement.exit) := by
    refine Shrinks.get.bind fun reading => ?_
    split
    · exact Shrinks.pure _
    · exact (Shrinks.throw _).bind fun _ => Shrinks.pure _
  refine Shrinks.line.bind fun line => (shrinks_accept rfl).bind fun taken => ?_
  split
  · refine (Shrinks.expect _ _).bind fun _ => Shrinks.next.bind fun code => ?_
    split
    · exact (Shrinks.missing _ _).bind fun _ => (Shrinks.expect _ _).bind fun _ => hlast line
    · exact (Shrinks.expect _ _).bind fun _ => hlast line
  · exact hlast line

def writtenText? : Reader (Option Unit) := do
  if ← accept (fun token => token.isLiteral || token.isVariable) then
    return some ()
  else
    return none

theorem agree_writtenText? : Agree bound ifSome writtenText? writtenText? := by
  refine (agree_accept rfl).bind fun taken => ?_
  split
  · exact Agree.pure (by simp [ifSome])
  · exact Agree.pure (by simp [ifSome])

theorem shrinks_write : Shrinks write :=
  (Shrinks.many fun _ => agree_writtenText?).bind fun _ => Shrinks.pure _

variable {f g : Reader (Option Statement)}

theorem agree_blockWith (h : Agree bound ifSome f g) :
    Agree bound (fun _ => 0) (blockWith f) (blockWith g) :=
  (Agree.many h).bind fun _ => Agree.pure (Int.le_refl _)

def thenWith (nested : Reader (Option Statement)) (guard : Expr) : Reader Statement := do
  let body := (← nested).getD .skip
  if ← accept (· == .word "ELSE") then
    return .ifElse guard body ((← nested).getD .skip)
  else
    return .ifThen guard body

theorem agree_conditionalWith (h : Agree bound ifSome f g) :
    Agree bound (fun _ => 0) (conditionalWith f) (conditionalWith g) := by
  have hnested : Agree bound (fun _ => 0) f g :=
    h.mono (Int.le_refl _) fun statement => by cases statement <;> simp [ifSome]
  have hthen (guard : Expr) : Agree bound (fun _ => 0) (thenWith f guard) (thenWith g guard) := by
    refine agree_bind hnested fun _ => agree_bind (shrinks_accept rfl _) fun taken => ?_
    split
    · exact agree_bind hnested fun _ => Shrinks.pure _ _
    · exact Shrinks.pure _ _
  refine agree_bind (shrinks_expr _) fun guard => agree_bind (Shrinks.next _) fun token => ?_
  dsimp only
  split
  · exact hthen guard
  · exact agree_missing

theorem shrinks_whenValue (subject : String) : Shrinks (whenValue subject) := by
  refine Shrinks.next.bind fun value => ?_
  split
  · exact (Shrinks.missing _ _).bind fun _ => (Shrinks.register _).bind fun _ => Shrinks.pure _
  · exact (Shrinks.register _).bind fun _ => Shrinks.pure _

def listedValue? (subject : String) : Reader (Option String) := do
  if ← accept (· == .punct ',') then
    return some (← whenValue subject)
  else
    return none

theorem agree_listedValue? {subject : String} :
    Agree bound ifSome (listedValue? subject) (listedValue? subject) := by
  refine (agree_accept rfl).bind fun taken => ?_
  split
  · refine (shrinks_whenValue subject _).bind fun _ => Agree.pure ?_
    simp [ifSome]
  · exact Agree.pure (by simp [ifSome])

theorem shrinks_whenValues (subject : String) : Shrinks (whenValues subject) :=
  (shrinks_whenValue subject).bind fun _ =>
    (Shrinks.many fun _ => agree_listedValue?).bind fun _ => Shrinks.pure _

theorem shrinks_selectSubject : Shrinks selectSubject := by
  refine shrinks_variableName?.bind fun name => ?_
  split
  · exact Shrinks.pure _
  · exact Shrinks.next.bind fun _ => Shrinks.line.bind fun _ => Shrinks.throw _

def branchWith (nested : Reader (Option Statement)) (subject : Option String) :
    Reader (Option (Expr × Statement)) := do
  expect '(' "( after WHEN"
  let guard ←
    match subject with
    | some subject => whenValues subject
    | none => expr
  expect ')' "closing parenthesis on WHEN"
  let body ← blockWith nested
  return some (guard, body)

/-- A branch takes its WHEN, so the statements inside it are read with less left. -/
theorem agree_whenWith? (subject : Option String) (h : Agree (bound - 1) ifSome f g) :
    Agree bound ifSome (whenWith? f subject) (whenWith? g subject) := by
  have hbranch :
      Agree (bound - 1) (fun _ => 0) (branchWith f subject) (branchWith g subject) := by
    have hbody (guard : Expr) : Agree (bound - 1) (fun _ => 0)
        (do let body ← blockWith f; return some (guard, body))
        (do let body ← blockWith g; return some (guard, body)) :=
      agree_bind (agree_blockWith h) fun _ => Shrinks.pure _ _
    refine agree_bind (Shrinks.expect _ _ _) fun _ => ?_
    split
    · exact agree_bind (shrinks_whenValues _ _) fun guard =>
        agree_bind (Shrinks.expect _ _ _) fun _ => hbody guard
    · exact agree_bind (shrinks_expr _) fun guard =>
        agree_bind (Shrinks.expect _ _ _) fun _ => hbody guard
  refine (agree_accept rfl).bind fun taken => ?_
  split
  · exact hbranch.mono (by omega) fun branch => by cases branch <;> simp [ifSome]
  · exact Agree.pure (by simp [ifSome])

def branchesWith (nested : Reader (Option Statement)) (subject : Option String) :
    Reader Statement := do
  let whens ← many (whenWith? nested subject)
  if ← accept (· == .word "OTHERWISE") then
    return .select (.prepend whens (.otherwise (← blockWith nested)))
  else
    return .select (.prepend whens .done)

theorem agree_selectWith (h : Agree bound ifSome f g) :
    Agree bound (fun _ => 0) (selectWith f) (selectWith g) := by
  have hbranches (subject : Option String) :
      Agree bound (fun _ => 0) (branchesWith f subject) (branchesWith g subject) := by
    refine agree_bind (Agree.many (agree_whenWith? subject (h.mono (by omega) (by simp))))
      fun whens => agree_bind (shrinks_accept rfl _) fun taken => ?_
    split
    · exact agree_bind (agree_blockWith h) fun _ => Shrinks.pure _ _
    · exact Shrinks.pure _ _
  refine agree_bind (shrinks_accept rfl _) fun taken => ?_
  split
  · exact agree_bind (shrinks_selectSubject _) fun subject =>
      agree_bind (Shrinks.expect _ _ _) fun _ => agree_bind (Shrinks.pure _ _) fun _ =>
        hbranches _
  · exact agree_bind (Shrinks.pure _ _) fun _ => hbranches _

theorem ne_endOfSource_of_keyword {token : Token} {keyword : Keyword}
    (h : Keyword.ofToken? token = some keyword) : token ≠ .endOfSource := by
  rintro rfl
  cases h

theorem eq_word_of_keyword {token : Token} {keyword : Keyword}
    (h : Keyword.ofToken? token = some keyword) : token = .word keyword.spelling := by
  cases token with
  | word text =>
      change Keyword.ofWord? text = some keyword at h
      unfold Keyword.ofWord? at h
      split at h <;> cases h <;> rfl
  | literal text => cases h
  | punct symbol => cases h
  | endOfSource => cases h

theorem agree_statementWith? (h : Agree (bound - 1) ifSome f g) :
    Agree bound ifSome (statementWith? f) (statementWith? g) := by
  refine Agree.next.bind fun token => ?_
  -- a statement after a token that was taken counts one, which is the weight of the token
  have hsome {x y : Reader Statement} (hne : token ≠ .endOfSource)
      (hxy : Agree (bound - 1) (fun _ => 0) x y) :
      Agree (bound - token.weight) (fun statement => ifSome statement - token.weight)
        (do return some (← x)) (do return some (← y)) := by
    rw [Token.weight_of_ne hne]
    exact Agree.bind hxy fun _ => Agree.pure (by simp [ifSome])
  have hskip {x : Reader Unit} (hne : token ≠ .endOfSource) (hx : Shrinks x) :
      Agree (bound - token.weight) (fun statement => ifSome statement - token.weight)
        (do x; return some Statement.skip) (do x; return some Statement.skip) := by
    rw [Token.weight_of_ne hne]
    exact (hx _).bind fun _ => Agree.pure (by simp [ifSome])
  split
  · rename_i hkeyword
    exact hskip (ne_endOfSource_of_keyword hkeyword) shrinks_proc
  · rename_i hkeyword
    exact hskip (ne_endOfSource_of_keyword hkeyword) shrinks_filtlist
  · rename_i hkeyword
    exact hskip (ne_endOfSource_of_keyword hkeyword) shrinks_write
  · rename_i hkeyword
    exact hsome (ne_endOfSource_of_keyword hkeyword) (shrinks_assignment _)
  · rename_i hkeyword
    exact hsome (ne_endOfSource_of_keyword hkeyword) (shrinks_exit _)
  · rename_i hkeyword
    rw [Token.weight_of_ne (ne_endOfSource_of_keyword hkeyword)]
    exact (agree_blockWith h).bind fun _ => Agree.pure (by simp [ifSome])
  · rename_i hkeyword
    exact hsome (ne_endOfSource_of_keyword hkeyword) (agree_conditionalWith h)
  · rename_i hkeyword
    exact hsome (ne_endOfSource_of_keyword hkeyword) (agree_selectWith h)
  · exact Agree.pure (by simp [ifSome])
  · exact agree_putBack (Agree.pure (by simp [ifSome]))
  · exact agree_putBack (Agree.pure (by simp [ifSome]))
  · split
    · exact Agree.pure (by simp [ifSome])
    · rename_i hne
      rw [beq_iff_eq] at hne
      exact hskip hne (Shrinks.report _)

/-- The equation of the grammar of statements. -/
theorem statement?_eq : statement? = statementWith? statement? :=
  (nest_spec fun _ _ _ h => agree_statementWith? h).1

theorem agree_statement? : Agree bound ifSome statement? statement? :=
  (nest_spec fun _ _ _ h => agree_statementWith? h).2 bound

/-! ## Routines -/

theorem topLevel?_run_exhausted {s : Reading} (h : s.tokens.exhausted = true) :
    topLevel? s = .ok none s := by
  change (if s.tokens.exhausted then _ else _ : Reader (Option Statement)) s = _
  rw [if_pos h]
  rfl

theorem topLevel?_run {s : Reading} (h : s.tokens.exhausted = false) :
    topLevel? s = (do
      let block ← blockWith statement?
      strayBranch
      return some block) s := by
  change (if s.tokens.exhausted then _ else _ : Reader (Option Statement)) s = _
  rw [if_neg (by simp [h])]

end ClassSelection.Reader
