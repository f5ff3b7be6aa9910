import ClassSelection.Proofs.Token.Stream
import Mathlib.Logic.Function.Iterate

/-!
# The tokens of a text

What a stream yields depends on the text alone, not on lines: `Token.lex` is the
list of its tokens, and `TokenStream.token` says which token comes after so many
others, the end of the source included.  `Token.Passes` is how separators and
comments drop out.
-/

namespace ClassSelection

namespace Token

/-! ## Lines do not matter -/

theorem rest_skipSeparators (line line' : Nat) (text : List Char) :
    (skipSeparators line text).rest = (skipSeparators line' text).rest := by
  refine skipSeparators.induct
    (fun line text => ∀ line', (skipSeparators line text).rest = (skipSeparators line' text).rest)
    (fun line text => ∀ line', (skipComment line text).rest = (skipComment line' text).rest)
    ?_ ?_ ?_ ?_ ?_ ?_ ?_ line text line'
  · intro line rest ih line'
    rw [skipSeparators, skipSeparators]
    exact ih line'
  · intro line c rest hcomment hseparator ih line'
    rw [skipSeparators.eq_2 line c rest hcomment, skipSeparators.eq_2 line' c rest hcomment,
      if_pos hseparator, if_pos hseparator]
    exact ih _
  · intro line c rest hcomment hseparator line'
    rw [skipSeparators.eq_2 line c rest hcomment, skipSeparators.eq_2 line' c rest hcomment,
      if_neg hseparator, if_neg hseparator]
  · intro line line'
    rfl
  · intro line rest ih line'
    rw [skipComment, skipComment]
    exact ih line'
  · intro line c rest hclosed ih line'
    rw [skipComment.eq_2 line c rest hclosed, skipComment.eq_2 line' c rest hclosed]
    exact ih _
  · intro line line'
    rfl

theorem scan_line (line line' : Nat) (text : List Char) :
    (scan line text).1 = (scan line' text).1 ∧
      (scan line text).2.rest = (scan line' text).2.rest := by
  have hrest := rest_skipSeparators line line' text
  simp only [scan, hrest, and_self]

theorem read_line (line line' : Nat) (text : List Char) :
    (read line text).1 = (read line' text).1 ∧
      (read line text).2.rest = (read line' text).2.rest := by
  fun_induction read line text generalizing line' with
  | case1 line text hnumber ih =>
      obtain ⟨htoken, hrest⟩ := scan_line line line' text
      rw [read.eq_1 line' text, ← htoken, if_pos hnumber, ← hrest]
      exact ih _
  | case2 line text hnumber =>
      obtain ⟨htoken, hrest⟩ := scan_line line line' text
      rw [read.eq_1 line' text, ← htoken, if_neg hnumber]
      exact ⟨htoken, hrest⟩

def lex (text : List Char) : List Token :=
  TokenStream.toList ⟨1, text, none, false⟩

end Token

namespace TokenStream

theorem toList_mk (line : Nat) (rest : List Char) (exhausted : Bool) :
    toList ⟨line, rest, none, exhausted⟩ =
      if (Token.read line rest).1 = .endOfSource then []
      else (Token.read line rest).1 ::
        toList ⟨(Token.read line rest).2.line, (Token.read line rest).2.rest, none,
          exhausted || (Token.read line rest).1 == .endOfSource⟩ := by
  rw [toList]
  rfl

theorem toList_mk_congr (rest : List Char) (line line' : Nat) (exhausted exhausted' : Bool) :
    toList ⟨line, rest, none, exhausted⟩ = toList ⟨line', rest, none, exhausted'⟩ := by
  induction hlength : rest.length using Nat.strongRecOn generalizing rest line line' exhausted
    exhausted' with
  | _ n ih =>
      subst hlength
      obtain ⟨htoken, hrest⟩ := Token.read_line line line' rest
      rw [toList_mk line, toList_mk line', ← htoken, ← hrest]
      by_cases hend : (Token.read line rest).1 = .endOfSource
      · rw [if_pos hend, if_pos hend]
      · have hle := Token.length_read_add_weight_le line rest
        rw [Token.weight_of_ne hend] at hle
        rw [if_neg hend, if_neg hend, ih _ (by omega) _ _ _ _ _ rfl]

theorem toList_of_pending_eq_none {stream : TokenStream} (h : stream.pending = none) :
    stream.toList = Token.lex stream.rest := by
  obtain ⟨line, rest, pending, exhausted⟩ := stream
  subst h
  exact toList_mk_congr rest line 1 exhausted false

@[simp] theorem toList_ofSource (source : String) :
    (ofSource source).toList = Token.lex source.toList :=
  toList_of_pending_eq_none rfl

def token (stream : TokenStream) (n : Nat) : Token :=
  ((fun stream => stream.next.2)^[n] stream).next.1

/-- The tokens of a stream are those of its list, and then the end of the source for ever. -/
theorem token_eq {stream : TokenStream} (h : stream.EndRepeats) (n : Nat) :
    stream.token n = stream.toList.getD n .endOfSource := by
  induction n generalizing stream with
  | zero =>
      by_cases hend : stream.next.1 = .endOfSource
      · rw [toList_eq_nil_iff.2 hend]
        exact hend
      · rw [toList_of_next hend]
        rfl
  | succ n ih =>
      have hnext : stream.token (n + 1) = stream.next.2.token n := rfl
      rw [hnext, ih stream.endRepeats_next]
      by_cases hend : stream.next.1 = .endOfSource
      · rw [(h hend).2, toList_eq_nil_iff.2 hend]
        rfl
      · rw [toList_of_next hend, List.getD_cons_succ]

end TokenStream

namespace Token

theorem lex_eq (text : List Char) :
    lex text =
      if (read 1 text).1 = .endOfSource then []
      else (read 1 text).1 :: lex (read 1 text).2.rest := by
  rw [lex, TokenStream.toList_mk, TokenStream.toList_of_pending_eq_none rfl]

/-- Texts with the same tokens have the same first one, and the same ones after it. -/
theorem read_of_lex_eq {text other : List Char} (h : lex text = lex other) (line line' : Nat) :
    (read line text).1 = (read line' other).1 ∧
      lex (read line text).2.rest = lex (read line' other).2.rest := by
  obtain ⟨htoken, hrest⟩ := read_line line 1 text
  obtain ⟨htoken', hrest'⟩ := read_line line' 1 other
  rw [htoken, hrest, htoken', hrest']
  rw [lex_eq text, lex_eq other] at h
  by_cases hend : (read 1 text).1 = .endOfSource
  · by_cases hend' : (read 1 other).1 = .endOfSource
    · rw [hend, hend', rest_read_eq_nil hend, rest_read_eq_nil hend']
      exact ⟨rfl, rfl⟩
    · rw [if_pos hend, if_neg hend'] at h
      cases h
  · by_cases hend' : (read 1 other).1 = .endOfSource
    · rw [if_neg hend, if_pos hend'] at h
      cases h
    · rw [if_neg hend, if_neg hend', List.cons.injEq] at h
      exact h

theorem read_of_lex_eq_cons {text : List Char} {token : Token} {others : List Token}
    (h : lex text = token :: others) (line : Nat) :
    (read line text).1 = token ∧ lex (read line text).2.rest = others := by
  obtain ⟨htoken, hrest⟩ := read_line line 1 text
  rw [htoken, hrest]
  rw [lex_eq] at h
  by_cases hend : (read 1 text).1 = .endOfSource
  · rw [if_pos hend] at h
    cases h
  · rw [if_neg hend, List.cons.injEq] at h
    exact h

@[simp] theorem lex_nil : lex [] = [] := by
  rw [lex_eq, read]
  rfl

theorem length_lex_read_le (line : Nat) (text : List Char) :
    (lex (read line text).2.rest).length ≤ (lex text).length := by
  rw [(read_line line 1 text).2, lex_eq text]
  by_cases hend : (read 1 text).1 = .endOfSource
  · rw [rest_read_eq_nil hend, lex_nil]
    exact Nat.zero_le _
  · rw [if_neg hend, List.length_cons]
    exact Nat.le_succ _

/-! ## What drops out -/

/-- Reading comes from one text to the other without a token. -/
def Passes (text rest : List Char) : Prop :=
  ∀ line, ∃ line', read line text = read line' rest

theorem Passes.trans {text middle rest : List Char} (h : Passes text middle)
    (h' : Passes middle rest) : Passes text rest := by
  intro line
  obtain ⟨middleLine, hmiddle⟩ := h line
  obtain ⟨lastLine, hlast⟩ := h' middleLine
  exact ⟨lastLine, hmiddle.trans hlast⟩

theorem Passes.lex_eq {text rest : List Char} (h : Passes text rest) : lex text = lex rest := by
  obtain ⟨line, hread⟩ := h 1
  obtain ⟨htoken, hrest⟩ := read_line line 1 rest
  rw [Token.lex_eq text, Token.lex_eq rest, hread, htoken, hrest]

theorem passes_of_skipSeparators {text rest : List Char}
    (h : ∀ line, ∃ line', skipSeparators line text = skipSeparators line' rest) :
    Passes text rest := by
  intro line
  obtain ⟨line', hskip⟩ := h line
  have hscan : scan line text = scan line' rest := by simp only [scan, hskip]
  exact ⟨line', by rw [read.eq_1 line text, read.eq_1 line' rest, hscan]⟩

theorem passes_separator {c : Char} (h : isSeparator c = true) (rest : List Char) :
    Passes (c :: rest) rest := by
  refine passes_of_skipSeparators fun line => ⟨lineAfter line c, ?_⟩
  have hc : c ≠ '/' := by
    rintro rfl
    cases h
  rw [skipSeparators.eq_2 line c rest (by simp [hc]), if_pos h]

theorem exists_skipComment {body : List Char} (h : ¬['*', '/'] <:+: body) (rest : List Char)
    (line : Nat) :
    ∃ line', skipComment line (body ++ '*' :: '/' :: rest) = skipSeparators line' rest := by
  induction body generalizing line with
  | nil => exact ⟨line, by rw [List.nil_append, skipComment]⟩
  | cons c body ih =>
      obtain ⟨line', hskip⟩ :=
        ih (fun hbody => h (hbody.trans (List.suffix_cons c body).isInfix)) (lineAfter line c)
      refine ⟨line', ?_⟩
      have hopen : ∀ after, c = '*' → body ++ '*' :: '/' :: rest = '/' :: after → False := by
        -- a mark that closes the comment here would be in the body
        rintro after rfl hafter
        cases body with
        | nil => simp at hafter
        | cons d body =>
            obtain rfl : d = '/' := (List.cons.inj hafter).1
            exact h ⟨[], body, rfl⟩
      rw [List.cons_append, skipComment.eq_2 line c _ hopen]
      exact hskip

theorem passes_comment {body : List Char} (h : ¬['*', '/'] <:+: body) (rest : List Char) :
    Passes ('/' :: '*' :: (body ++ '*' :: '/' :: rest)) rest := by
  refine passes_of_skipSeparators fun line => ?_
  rw [skipSeparators]
  exact exists_skipComment h rest line

end Token

end ClassSelection
