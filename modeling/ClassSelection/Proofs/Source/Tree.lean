import ClassSelection.Proofs.Source.Guard

/-!
# Written statements

Statement trees as an author writes them: SET, IF, DO and SELECT, each with its
tokens and the statement that it stands for.  A `Tree true` ends in an IF
without ELSE, and the statement before an ELSE is a `Tree false`, so an ELSE
belongs to one IF only.
-/

namespace ClassSelection

mutual

def Statement.withoutLines : Statement → Statement
  | .skip => .skip
  | .assign value _ => .assign value 0
  | .exit => .exit
  | .seq first second => .seq first.withoutLines second.withoutLines
  | .block body => .block body.withoutLines
  | .ifThen guard body => .ifThen guard body.withoutLines
  | .ifElse guard body alternative => .ifElse guard body.withoutLines alternative.withoutLines
  | .select branches => .select branches.withoutLines

def Branches.withoutLines : Branches → Branches
  | .done => .done
  | .otherwise body => .otherwise body.withoutLines
  | .when guard body others => .when guard body.withoutLines others.withoutLines

end

namespace Source

/-- A value in a WHEN list: anything but the marks of the list itself. -/
abbrev ListValue :=
  { token : Token // token ≠ .endOfSource ∧ token ≠ .punct ')' ∧ token ≠ .punct ',' }

/-- What a WHEN asks: a guard, or, in a SELECT with a subject, whether that is one of the values. -/
inductive Question : Option Variable → Type where
  | guard (g : Guard) : Question none
  | oneOf {subject : Variable} (first : ListValue) (others : List ListValue) :
    Question (some subject)

namespace Question

def tokens {subject : Option Variable} : Question subject → List Token
  | guard g => g.tokens
  | oneOf first others => first.val :: others.flatMap fun value => [.punct ',', value.val]

def expr : {subject : Option Variable} → Question subject → Expr
  | _, guard g => g.expr
  | some subject, oneOf first others =>
    .oneOf subject.text first.val.text (others.map fun value => value.val.text)

end Question

mutual

inductive Tree : Bool → Type where
  | set (sign : { token : Token // token = .punct '=' ∨ token = .word "EQ" })
    (value : { token : Token // token ≠ .endOfSource }) : Tree false
  | ifThen {o : Bool} (guard : Guard) (body : Tree o) : Tree true
  | ifElse {o : Bool} (guard : Guard) (body : Tree false) (alternative : Tree o) : Tree o
  | block (body : Body) : Tree false
  | select (subject : Option Variable) (choices : Choices subject) : Tree false

inductive Body : Type where
  | nil
  | cons {o : Bool} (first : Tree o) (others : Body)

inductive Choices : Option Variable → Type where
  | done {subject : Option Variable} : Choices subject
  | otherwise {subject : Option Variable} (body : Body) : Choices subject
  | when {subject : Option Variable} (question : Question subject) (body : Body)
    (others : Choices subject) : Choices subject

end

def Tree.setLiteral (text : String) : Tree false :=
  .set ⟨.punct '=', .inl rfl⟩ ⟨.literal text, by simp⟩

/-! ## Tokens -/

def subjectTokens : Option Variable → List Token
  | some subject => .punct '(' :: (subject.tokens ++ [.punct ')'])
  | none => []

mutual

def Tree.tokens (kind : RoutineKind) : {o : Bool} → Tree o → List Token
  | _, .set sign value => [.word "SET", .word ("&" ++ kind.name), sign.val, value.val]
  | _, .ifThen guard body => .word "IF" :: (guard.tokens ++ .word "THEN" :: body.tokens kind)
  | _, .ifElse guard body alternative =>
    .word "IF" :: (guard.tokens ++
      .word "THEN" :: (body.tokens kind ++ .word "ELSE" :: alternative.tokens kind))
  | _, .block body => .word "DO" :: (body.tokens kind ++ [.word "END"])
  | _, .select subject choices =>
    .word "SELECT" :: (subjectTokens subject ++ choices.tokens kind)

def Body.tokens (kind : RoutineKind) : Body → List Token
  | .nil => []
  | .cons first others => first.tokens kind ++ others.tokens kind

def Choices.tokens (kind : RoutineKind) : {subject : Option Variable} → Choices subject → List Token
  | _, .done => [.word "END"]
  | _, .otherwise body => .word "OTHERWISE" :: (body.tokens kind ++ [.word "END"])
  | _, .when question body others =>
    .word "WHEN" :: .punct '(' :: (question.tokens ++
      .punct ')' :: (body.tokens kind ++ others.tokens kind))

end

/-! ## Meaning -/

mutual

def Tree.statement : {o : Bool} → Tree o → Statement
  | _, .set _ value => .assign value.val.text 0
  | _, .ifThen guard body => .ifThen guard.expr body.statement
  | _, .ifElse guard body alternative => .ifElse guard.expr body.statement alternative.statement
  | _, .block body => .block (.sequence body.statements)
  | _, .select _ choices => .select choices.branches

def Body.statements : Body → List Statement
  | .nil => []
  | .cons first others => first.statement :: others.statements

def Choices.branches : {subject : Option Variable} → Choices subject → Branches
  | _, .done => .done
  | _, .otherwise body => .otherwise (.sequence body.statements)
  | _, .when question body others =>
    .when question.expr (.sequence body.statements) others.branches

end

end Source

end ClassSelection
