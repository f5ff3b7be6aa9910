import ClassSelection.Proofs.Token.Layout

/-!
# Places in a source

Scanning passes a beginning of the text and counts the line breaks in it
(`Cursor.Advances`), so the line of a stream never leaves its source.
`TokenStream.ReadFrom` adds what holds of the waiting token, and is kept by
reading a token and by putting that token back.
-/

namespace ClassSelection

namespace Cursor

/-- On the way from one place to another a part of the text has been passed, and its line breaks
have been counted. -/
def Advances (start after : Cursor) : Prop :=
  ∃ passed, start.rest = passed ++ after.rest ∧ after.line = start.line + passed.count '\n'

namespace Advances

variable {start middle after : Cursor}

theorem refl (place : Cursor) : place.Advances place :=
  ⟨[], rfl, rfl⟩

theorem trans (h : start.Advances middle) (h' : middle.Advances after) : start.Advances after := by
  obtain ⟨passed, hrest, hline⟩ := h
  obtain ⟨passed', hrest', hline'⟩ := h'
  refine ⟨passed ++ passed', by rw [hrest, hrest', List.append_assoc], ?_⟩
  rw [hline', hline, List.count_append]
  omega

theorem line_le (h : start.Advances after) : start.line ≤ after.line := by
  obtain ⟨passed, -, hline⟩ := h
  omega

theorem line_le_add_count (h : start.Advances after) :
    after.line ≤ start.line + start.rest.count '\n' := by
  obtain ⟨passed, hrest, hline⟩ := h
  rw [hline, hrest, List.count_append]
  omega

theorem cons {line : Nat} {c : Char} {rest : List Char}
    (h : Advances ⟨Token.lineAfter line c, rest⟩ after) : Advances ⟨line, c :: rest⟩ after := by
  have hchar : Advances ⟨line, c :: rest⟩ ⟨Token.lineAfter line c, rest⟩ := by
    refine ⟨[c], rfl, ?_⟩
    by_cases hc : c = '\n' <;> simp [Token.lineAfter, hc]
  exact hchar.trans h

theorem skip {line : Nat} {c : Char} {rest : List Char} (hc : c ≠ '\n')
    (h : Advances ⟨line, rest⟩ after) : Advances ⟨line, c :: rest⟩ after := by
  apply cons
  rwa [Token.lineAfter, if_neg (by simpa using hc)]

theorem dropWhile {line : Nat} {p : Char → Bool} (hp : p '\n' = false) (rest : List Char) :
    Advances ⟨line, rest⟩ ⟨line, rest.dropWhile p⟩ := by
  have hline : '\n' ∉ rest.takeWhile p := by
    intro hmem
    rw [List.mem_takeWhile_imp hmem] at hp
    cases hp
  refine ⟨rest.takeWhile p, List.takeWhile_append_dropWhile.symm, ?_⟩
  rw [List.count_eq_zero.2 hline]
  rfl

end Advances

end Cursor

open Cursor (Advances)

namespace Token

/-! ## Scanning -/

/-- Separators and comments are passed up to the next token, which does not begin with a line
break. -/
theorem advances_skipSeparators (line : Nat) (text : List Char) :
    Advances ⟨line, text⟩ (skipSeparators line text) ∧
      (skipSeparators line text).rest.head? ≠ some '\n' := by
  refine skipSeparators.induct
    (fun line text => Advances ⟨line, text⟩ (skipSeparators line text) ∧
      (skipSeparators line text).rest.head? ≠ some '\n')
    (fun line text => Advances ⟨line, text⟩ (skipComment line text) ∧
      (skipComment line text).rest.head? ≠ some '\n') ?_ ?_ ?_ ?_ ?_ ?_ ?_ line text
  · intro line rest ih
    rw [skipSeparators]
    exact ⟨.skip (by decide) (.skip (by decide) ih.1), ih.2⟩
  · intro line c rest hcomment hseparator ih
    rw [skipSeparators.eq_2 line c rest hcomment, if_pos hseparator]
    exact ⟨ih.1.cons, ih.2⟩
  · intro line c rest hcomment hseparator
    rw [skipSeparators.eq_2 line c rest hcomment, if_neg hseparator]
    refine ⟨.refl _, ?_⟩
    rintro hc
    obtain rfl : c = '\n' := by simpa using hc
    exact hseparator rfl
  · intro line
    exact ⟨.refl _, by simp [skipSeparators]⟩
  · intro line rest ih
    rw [skipComment]
    exact ⟨.skip (by decide) (.skip (by decide) ih.1), ih.2⟩
  · intro line c rest hclosed ih
    rw [skipComment.eq_2 line c rest hclosed]
    exact ⟨ih.1.cons, ih.2⟩
  · intro line
    exact ⟨.refl _, by simp [skipComment]⟩

theorem advances_dropQuote (line : Nat) (text : List Char) :
    Advances ⟨line, text⟩ ⟨line, dropQuote text⟩ := by
  unfold dropQuote
  split
  · exact .skip (by decide) (.refl _)
  · exact .refl _

theorem advances_scanToken (line : Nat) {text : List Char} (h : text.head? ≠ some '\n') :
    Advances ⟨line, text⟩ ⟨line, (scanToken text).2⟩ := by
  cases text with
  | nil => exact .refl _
  | cons c rest =>
      have hc : Advances ⟨line, c :: rest⟩ ⟨line, rest⟩ := .skip (by simpa using h) (.refl _)
      rw [scanToken]
      split
      · exact (hc.trans (.dropWhile (by decide) rest)).trans (advances_dropQuote line _)
      · split
        · exact hc.trans (.dropWhile (by decide) rest)
        · exact hc

theorem advances_read (line : Nat) (text : List Char) :
    Advances ⟨line, text⟩ (read line text).2 := by
  have hscan (line : Nat) (text : List Char) : Advances ⟨line, text⟩ (scan line text).2 := by
    obtain ⟨hskip, hhead⟩ := advances_skipSeparators line text
    exact hskip.trans (advances_scanToken _ hhead)
  fun_induction read line text with
  | case1 line text hnumber ih => exact (hscan line text).trans ih
  | case2 line text hnumber => exact hscan line text

end Token

/-! ## Streams -/

namespace TokenStream

structure ReadFrom (source : String) (stream : TokenStream) : Prop where
  advances : Advances ⟨1, source.toList⟩ ⟨stream.line, stream.rest⟩
  rest_eq_nil : stream.exhausted = true → stream.rest = []
  canonical : ∀ token, stream.pending = some token → token ≠ .endOfSource → token.Canonical
  /-- The token that waits is the end of the source if that has been scanned. -/
  eq_end_iff : ∀ token, stream.pending = some token →
    (token = .endOfSource ↔ stream.exhausted = true)
  suffix : stream.toList <:+ (ofSource source).toList

/-- The token has just been read, and can be put back. -/
structure JustRead (source : String) (token : Token) (stream : TokenStream) : Prop where
  readFrom : stream.ReadFrom source
  pending : stream.pending = none
  canonical : token ≠ .endOfSource → token.Canonical
  eq_end_iff : token = .endOfSource ↔ stream.exhausted = true
  suffix : token ≠ .endOfSource → token :: stream.toList <:+ (ofSource source).toList

variable {source : String} {stream : TokenStream}

theorem readFrom_ofSource (source : String) : (ofSource source).ReadFrom source where
  advances := .refl _
  rest_eq_nil h := by cases h
  canonical _ h := by cases h
  eq_end_iff _ h := by cases h
  suffix := List.suffix_rfl

theorem ReadFrom.line_pos (h : stream.ReadFrom source) : 1 ≤ stream.line :=
  h.advances.line_le

theorem ReadFrom.line_le (h : stream.ReadFrom source) :
    stream.line ≤ 1 + source.toList.count '\n' :=
  h.advances.line_le_add_count

theorem ReadFrom.endRepeats (h : stream.ReadFrom source) : stream.EndRepeats := by
  cases hpending : stream.pending with
  | none => exact endRepeats_of_pending_eq_none hpending
  | some token =>
      intro hend
      have hnext : stream.next = (token, { stream with pending := none }) := by
        simp [next, hpending]
      rw [hnext] at hend ⊢
      have hexhausted := (h.eq_end_iff token hpending).1 hend
      refine ⟨hexhausted, ?_⟩
      rw [toList_of_pending_eq_none rfl]
      simp [h.rest_eq_nil hexhausted]

theorem ReadFrom.next (h : stream.ReadFrom source) :
    stream.next.2.JustRead source stream.next.1 := by
  have hcons (hne : stream.next.1 ≠ .endOfSource) :
      stream.next.1 :: stream.next.2.toList <:+ (ofSource source).toList := by
    rw [← toList_of_next hne]
    exact h.suffix
  have hsuffix : stream.next.2.toList <:+ (ofSource source).toList := by
    by_cases hend : stream.next.1 = .endOfSource
    · simp [(h.endRepeats hend).2]
    · exact (List.suffix_cons _ _).trans (hcons hend)
  obtain ⟨line, rest, pending, exhausted⟩ := stream
  cases pending with
  | some token =>
      exact ⟨⟨h.advances, h.rest_eq_nil, by simp, by simp, hsuffix⟩, rfl, h.canonical token rfl,
        h.eq_end_iff token rfl, hcons⟩
  | none =>
      have hadvances := h.advances.trans (Token.advances_read line rest)
      have hcanonical (h : (Token.read line rest).1 ≠ .endOfSource) :
          (Token.read line rest).1.Canonical := (Token.canonical_read h).1
      have hend : exhausted = true → (Token.read line rest).1 = .endOfSource := by
        intro hexhausted
        obtain rfl : rest = [] := h.rest_eq_nil hexhausted
        rw [Token.read]
        rfl
      have hexhausted : (exhausted || (Token.read line rest).1 == .endOfSource) = true ↔
          (Token.read line rest).1 = .endOfSource := by
        rw [Bool.or_eq_true, beq_iff_eq]
        exact ⟨fun h => h.elim hend id, .inr⟩
      exact ⟨⟨hadvances, fun h => Token.rest_read_eq_nil (hexhausted.1 h), by simp [next],
        by simp [next], hsuffix⟩, rfl, hcanonical, hexhausted.symm, hcons⟩

theorem JustRead.pushBack? {token : Token} (h : stream.JustRead source token) :
    ∃ after, stream.pushBack? token = some after ∧ after.ReadFrom source := by
  have hback : stream.pushBack? token = some { stream with pending := some token } := by
    rw [TokenStream.pushBack?, h.pending]
  refine ⟨_, hback, h.readFrom.advances, h.readFrom.rest_eq_nil, ?_, ?_, ?_⟩
  · rintro _ ⟨⟩
    exact h.canonical
  · rintro _ ⟨⟩
    exact h.eq_end_iff
  · have hnext := next_pushBack? hback
    by_cases hend : token = .endOfSource
    · rw [toList_eq_nil_iff.2 (by rw [hnext]; exact hend)]
      exact List.nil_suffix
    · rw [toList_of_next (by rw [hnext]; exact hend), hnext]
      exact h.suffix hend

/-- What is left to read where no token is waiting is a source of its own. -/
theorem ReadFrom.exists_source (h : stream.ReadFrom source) (hpending : stream.pending = none) :
    ∃ left, stream.ReadFrom left ∧ (ofSource left).toList = stream.toList := by
  -- the line breaks before it bring the count to the line of the stream
  let breaks := List.replicate (stream.line - 1) '\n'
  have hpasses (n : Nat) : Token.lex (List.replicate n '\n' ++ stream.rest) =
      Token.lex stream.rest := by
    induction n with
    | zero => rfl
    | succ n ih => exact (Token.passes_separator rfl _).lex_eq.trans ih
  have htoList : (ofSource (String.ofList (breaks ++ stream.rest))).toList = stream.toList := by
    rw [toList_ofSource, String.toList_ofList, hpasses, toList_of_pending_eq_none hpending]
  refine ⟨_, ⟨⟨breaks, by simp, ?_⟩, h.rest_eq_nil, ?_, ?_, ?_⟩, htoList⟩
  · have hline := h.line_pos
    rw [List.count_replicate_self]
    exact (Nat.add_sub_cancel' hline).symm
  · simp [hpending]
  · simp [hpending]
  · exact ⟨[], htoList.symm⟩

/-- The whole source has been scanned, its end included, and no token is waiting but that end. -/
structure Consumed (stream : TokenStream) : Prop where
  exhausted : stream.exhausted = true
  rest_eq_nil : stream.rest = []
  toList_eq_nil : stream.toList = []

theorem exhausted_next (h : stream.exhausted = true) : stream.next.2.exhausted = true := by
  obtain ⟨line, rest, pending, exhausted⟩ := stream
  obtain rfl : exhausted = true := h
  cases pending <;> rfl

theorem ReadFrom.consumed (h : stream.ReadFrom source) (hexhausted : stream.exhausted = true) :
    stream.Consumed := by
  have hrest := h.rest_eq_nil hexhausted
  refine ⟨hexhausted, hrest, toList_eq_nil_iff.2 (h.next.eq_end_iff.2 ?_)⟩
  exact exhausted_next hexhausted

end TokenStream

end ClassSelection
