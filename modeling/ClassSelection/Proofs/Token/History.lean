import ClassSelection.Proofs.Token.Position

/-!
# Histories of a token stream

A history of a stream is any sequence of its calls: tokens are read, and the one
just read may be put back.  It leads to the position of the source that comes
after the tokens it has delivered (`Follows.eq_stream`), where a token that was
put back counts when it is read again, so all that holds of positions holds
after every history (`TokenStream.faithful_of_follows`).
-/

namespace ClassSelection

inductive TokenEvent where
  | read (token : Token)
  /-- The token just read has been put back. -/
  | putBack (token : Token)
  deriving DecidableEq, Repr

namespace TokenEvent

/-- The tokens that a history has delivered, the latest event and the latest token first. What is
put back has not been delivered. -/
def delivered : List TokenEvent → List Token
  | [] => []
  | read token :: earlier => token :: delivered earlier
  | putBack _ :: earlier => (delivered earlier).tail

def position (history : List TokenEvent) : Position where
  count := (delivered history).length
  ahead := history.head?.any fun
    | read _ => false
    | putBack _ => true

end TokenEvent

open TokenEvent

namespace TokenStream

variable {source : String} {stream after : TokenStream} {token : Token}

/-! ## Steps -/

theorem advances_next (stream : TokenStream) :
    Cursor.Advances ⟨stream.line, stream.rest⟩ ⟨stream.next.2.line, stream.next.2.rest⟩ := by
  obtain ⟨line, rest, pending, exhausted⟩ := stream
  cases pending with
  | some token => exact .refl _
  | none => exact Token.advances_read line rest

theorem exists_scanned (h : stream.pending = none) (hnext : stream.next.1 ≠ .endOfSource) :
    ∃ passed, passed ≠ [] ∧ stream.rest = passed ++ stream.next.2.rest := by
  obtain ⟨passed, hrest, -⟩ := stream.advances_next
  refine ⟨passed, ?_, hrest⟩
  rintro rfl
  have hlt := remaining_next_lt hnext
  rw [remaining, remaining, pending_next, h, show stream.rest = _ from hrest] at hlt
  exact Nat.lt_irrefl _ hlt

theorem exhausted_next_iff (h : stream.ReadFrom source) :
    stream.next.2.exhausted = true ↔ stream.next.1 = .endOfSource ∨ stream.exhausted = true := by
  rw [← h.next.eq_end_iff, iff_self_or]
  exact fun hexhausted => h.next.eq_end_iff.2 (exhausted_next hexhausted)

theorem pushBack?_eq_some_iff :
    stream.pushBack? token = some after ↔
      stream.pending = none ∧ after = { stream with pending := some token } := by
  rw [pushBack?]
  split <;> simp_all [eq_comm]

end TokenStream

theorem Position.readFrom_stream (source : String) (position : Position) :
    (position.stream source).ReadFrom source := by
  obtain ⟨count, ahead⟩ := position
  cases ahead with
  | false => exact TokenStream.readFrom_after source count
  | true =>
      have hjust := (TokenStream.readFrom_after source count).next
      rw [TokenStream.next_after] at hjust
      obtain ⟨after, hback, hafter⟩ := hjust.pushBack?
      obtain rfl := Option.some.inj (hback.symm.trans (pushBack?_after source count))
      exact hafter

namespace TokenStream

variable {source : String} {history later earlier : List TokenEvent}
  {stream before after : TokenStream} {token : Token}

/-! ## Histories -/

inductive Follows (source : String) : List TokenEvent → TokenStream → Prop
  | start : Follows source [] (ofSource source)
  | read {history : List TokenEvent} {stream after : TokenStream} {token : Token}
      (h : Follows source history stream) (hnext : stream.next = (token, after)) :
      Follows source (.read token :: history) after
  | putBack {history : List TokenEvent} {stream after : TokenStream} {token : Token}
      (h : Follows source (.read token :: history) stream)
      (hback : stream.pushBack? token = some after) :
      Follows source (.putBack token :: .read token :: history) after

namespace Follows

theorem eq_stream (h : Follows source history stream) :
    stream = (position history).stream source ∧
      (delivered history).reverse =
        (List.range (delivered history).length).map (tokenAt source) := by
  induction h with
  | start => exact ⟨rfl, rfl⟩
  | @read history stream after token h hnext ih =>
      obtain ⟨rfl, hdelivered⟩ := ih
      rw [Position.next_stream] at hnext
      obtain ⟨rfl, rfl⟩ := Prod.mk.inj hnext
      refine ⟨rfl, ?_⟩
      rw [delivered, List.reverse_cons, hdelivered, List.length_cons, List.range_succ,
        List.map_append]
      rfl
  | @putBack history stream after token h hback ih =>
      obtain ⟨rfl, hdelivered⟩ := ih
      rw [delivered, List.reverse_cons, List.length_cons, List.range_succ,
        List.map_append] at hdelivered
      obtain ⟨hearlier, htoken⟩ := List.append_inj' hdelivered rfl
      obtain rfl : token = tokenAt source (delivered history).length := by simpa using htoken
      refine ⟨?_, hearlier⟩
      exact Option.some.inj (hback.symm.trans (Position.pushBack?_after source _))

theorem readFrom (h : Follows source history stream) : stream.ReadFrom source :=
  h.eq_stream.1 ▸ Position.readFrom_stream source (position history)

/-- What has been delivered are the tokens of the source, and then its end. -/
theorem delivered_eq (h : Follows source history stream) :
    (delivered history).reverse = (List.range (delivered history).length).map
      fun n => (Token.lex source.toList).getD n .endOfSource := by
  rw [h.eq_stream.2]
  exact List.map_congr_left fun n _ => token_ofSource source n

/-- The other tokens are still to come. -/
theorem toList_eq (h : Follows source history stream) :
    stream.toList = (Token.lex source.toList).drop (delivered history).length :=
  (congrArg toList h.eq_stream.1).trans (Position.toList_stream source _)

theorem pending_eq_some_iff (h : Follows source history stream) :
    stream.pending = some token ↔ ∃ earlier, history = .putBack token :: earlier := by
  cases h with
  | start => simp [ofSource]
  | read h hnext =>
      obtain rfl := congrArg Prod.snd hnext
      simp [pending_next]
  | putBack h hback =>
      obtain ⟨-, rfl⟩ := pushBack?_eq_some_iff.1 hback
      simp

theorem exhausted_iff (h : Follows source history stream) :
    stream.exhausted = true ↔ .read .endOfSource ∈ history := by
  induction h with
  | start => simp [ofSource]
  | read h hnext ih =>
      obtain rfl := congrArg Prod.fst hnext
      obtain rfl := congrArg Prod.snd hnext
      rw [exhausted_next_iff h.readFrom, ih, List.mem_cons, TokenEvent.read.injEq, eq_comm]
  | putBack h hback ih =>
      rw [exhausted_pushBack? hback, ih, List.mem_cons]
      simp

theorem advances (h : Follows source (later ++ earlier) stream)
    (hbefore : Follows source earlier before) :
    Cursor.Advances ⟨before.line, before.rest⟩ ⟨stream.line, stream.rest⟩ := by
  induction later generalizing stream with
  | nil =>
      rw [h.eq_stream.1, hbefore.eq_stream.1]
      exact .refl _
  | cons event later ih =>
      rw [List.cons_append] at h
      generalize hhistory : later ++ earlier = history at h ih
      cases h with
      | read h hnext =>
          obtain rfl := congrArg Prod.snd hnext
          exact (ih h).trans (advances_next _)
      | putBack h hback =>
          obtain ⟨-, rfl⟩ := pushBack?_eq_some_iff.1 hback
          have hadvances := ih h
          exact hadvances

end Follows

structure Faithful (source : String) (history : List TokenEvent) (stream : TokenStream) : Prop where
  /-- The delivered tokens are those of the source, in their order and each once, and from then on
  the end of the source. -/
  delivered_eq : (delivered history).reverse = (List.range (delivered history).length).map
    fun n => (Token.lex source.toList).getD n .endOfSource
  toList_eq : stream.toList = (Token.lex source.toList).drop (delivered history).length
  /-- The token just read can be put back, and is then the next one again. -/
  again (token : Token) (earlier : List TokenEvent) (h : history = .read token :: earlier) :
    ∃ after, stream.pushBack? token = some after ∧ after.next = (token, stream)
  /-- The text that has been scanned and the rest are the source, and the line counts what has been
  scanned. -/
  scanned : ∃ passed, source.toList = passed ++ stream.rest ∧ stream.line = 1 + passed.count '\n'
  /-- No call gives text back or lowers the line. -/
  advances (later earlier : List TokenEvent) (before : TokenStream)
    (h : history = later ++ earlier) (hbefore : Follows source earlier before) :
    before.line ≤ stream.line ∧ ∃ passed, before.rest = passed ++ stream.rest
  /-- Only behind a token that was put back is the next one there already. -/
  pending_eq_some_iff (token : Token) :
    stream.pending = some token ↔ ∃ earlier, history = .putBack token :: earlier
  /-- A token that is not there yet, and is not the end of the source, takes some text. -/
  fresh (h : stream.pending = none) (hnext : stream.next.1 ≠ .endOfSource) :
    ∃ passed, passed ≠ [] ∧ stream.rest = passed ++ stream.next.2.rest
  /-- The source is exhausted once its end has been read, and then nothing is left. -/
  exhausted_iff : stream.exhausted = true ↔ .read .endOfSource ∈ history
  consumed (h : stream.exhausted = true) : stream.Consumed

theorem faithful_of_follows (h : Follows source history stream) :
    stream.Faithful source history where
  delivered_eq := h.delivered_eq
  toList_eq := h.toList_eq
  again token earlier hhistory := by
    subst hhistory
    have hpending : stream.pending = none := by
      cases hpending : stream.pending with
      | none => rfl
      | some waiting =>
          obtain ⟨earlier, hhistory⟩ := h.pending_eq_some_iff.1 hpending
          cases hhistory
    have hback : stream.pushBack? token = some { stream with pending := some token } :=
      pushBack?_eq_some_iff.2 ⟨hpending, rfl⟩
    exact ⟨_, hback, next_pushBack? hback⟩
  scanned := h.readFrom.advances
  advances later earlier before hhistory hbefore := by
    subst hhistory
    have hline := (h.advances hbefore).line_le
    obtain ⟨passed, hrest, -⟩ := h.advances hbefore
    exact ⟨hline, passed, hrest⟩
  pending_eq_some_iff token := h.pending_eq_some_iff
  fresh hpending hnext := exists_scanned hpending hnext
  exhausted_iff := h.exhausted_iff
  consumed hexhausted := h.readFrom.consumed hexhausted

/-- A literal without its closing quote and the end of the source are both put back and read again,
behind a comment over two lines and a sequence number. -/
theorem faithful_of_openLiteral :
    let source := "/* A\n*/ 00000100 SET 'b\n"
    let history : List TokenEvent := [.read .endOfSource, .putBack .endOfSource, .read .endOfSource,
      .read (.literal "B"), .putBack (.literal "B"), .read (.literal "B"), .read (.word "SET")]
    let stream : TokenStream := ⟨3, [], none, true⟩
    Follows source history stream ∧
      delivered history = [.endOfSource, .literal "B", .word "SET"] ∧
      Token.lex source.toList = [.word "SET", .literal "B"] ∧
      stream.Consumed := by
  intro source history stream
  have hword : Follows source [.read (.word "SET")] ⟨2, " 'b\n".toList, none, false⟩ :=
    .read .start (by decide +kernel)
  have hliteral : Follows source [.read (.literal "B"), .read (.word "SET")]
      ⟨2, ['\n'], none, false⟩ :=
    .read hword (by decide +kernel)
  have hend : Follows source (history.drop 2) stream :=
    .read (.read (.putBack hliteral rfl) rfl) (by decide +kernel)
  have hfollows : Follows source history stream := .read (.putBack hend rfl) rfl
  have hfaithful := faithful_of_follows hfollows
  refine ⟨hfollows, rfl, ?_, hfaithful.consumed (hfaithful.exhausted_iff.2 (by decide))⟩
  decide +kernel

end TokenStream

end ClassSelection
