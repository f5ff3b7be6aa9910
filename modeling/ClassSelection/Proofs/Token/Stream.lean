import ClassSelection.Token.Stream
import Mathlib.Data.List.Basic

/-!
# A token stream as a list

`TokenStream.toList` lists the tokens that are still to come, up to the end of
the source; reading takes its head off and putting back returns it.  What is
`remaining` bounds the reading: each token but the last weighs one.
-/

namespace ClassSelection

namespace Token

/-- What a token leaves less to read: nothing for the end of the source, which repeats. -/
def weight (token : Token) : Nat :=
  if token = .endOfSource then 0 else 1

@[simp] theorem weight_endOfSource : weight .endOfSource = 0 := rfl

theorem weight_of_ne {token : Token} (h : token ≠ .endOfSource) : token.weight = 1 := if_neg h

theorem scanToken_fst_eq_endOfSource {text : List Char}
    (h : (scanToken text).1 = .endOfSource) : text = [] := by
  cases text with
  | nil => rfl
  | cons c rest =>
      by_cases hquote : c == '\''
      · simp [scanToken, hquote] at h
      · by_cases hword : isWordChar c <;> simp [scanToken, hquote, hword] at h

theorem length_scan_add_weight_le (line : Nat) (text : List Char) :
    (scan line text).2.rest.length + (scan line text).1.weight ≤ text.length := by
  by_cases h : (scan line text).1 = .endOfSource
  · have hstart : (skipSeparators line text).rest = [] := scanToken_fst_eq_endOfSource h
    simp [scan, hstart, scanToken]
  · rw [weight_of_ne h]
    exact length_scan_lt h

/-- A token and what is left after it fit into what was left before. -/
theorem length_read_add_weight_le (line : Nat) (text : List Char) :
    (read line text).2.rest.length + (read line text).1.weight ≤ text.length := by
  fun_induction read line text with
  | case1 line text hnumber ih =>
      have := length_scan_add_weight_le line text
      omega
  | case2 line text hnumber => exact length_scan_add_weight_le line text

theorem rest_read_eq_nil {line : Nat} {text : List Char}
    (h : (read line text).1 = .endOfSource) : (read line text).2.rest = [] := by
  fun_induction read line text with
  | case1 line text hnumber ih => exact ih h
  | case2 line text hnumber =>
      have hstart : (skipSeparators line text).rest = [] := scanToken_fst_eq_endOfSource h
      simp [scan, hstart, scanToken]

end Token

namespace TokenStream

theorem remaining_next_add_weight_le (stream : TokenStream) :
    stream.next.2.remaining + stream.next.1.weight ≤ stream.remaining := by
  obtain ⟨line, rest, pending, exhausted⟩ := stream
  cases pending with
  | none =>
      have := Token.length_read_add_weight_le line rest
      simpa [next, remaining] using this
  | some token => cases token <;> simp [next, remaining, Token.weight]

theorem remaining_next_lt {stream : TokenStream} (h : stream.next.1 ≠ .endOfSource) :
    stream.next.2.remaining < stream.remaining := by
  have := stream.remaining_next_add_weight_le
  rw [Token.weight_of_ne h] at this
  omega

theorem remaining_pushBack? {stream after : TokenStream} {token : Token}
    (h : stream.pushBack? token = some after) :
    after.remaining = stream.remaining + token.weight := by
  obtain ⟨line, rest, pending, exhausted⟩ := stream
  cases pending with
  | none =>
      obtain rfl : _ = after := by simpa [pushBack?] using h
      cases token <;> simp [remaining, Token.weight]
  | some waiting => simp [pushBack?] at h

@[simp] theorem pending_next (stream : TokenStream) : stream.next.2.pending = none := by
  obtain ⟨line, rest, pending, exhausted⟩ := stream
  cases pending <;> rfl

def toList (stream : TokenStream) : List Token :=
  if stream.next.1 = .endOfSource then [] else stream.next.1 :: stream.next.2.toList
termination_by stream.remaining
decreasing_by
  rename_i h
  exact remaining_next_lt h

theorem toList_of_next {stream : TokenStream} (h : stream.next.1 ≠ .endOfSource) :
    stream.toList = stream.next.1 :: stream.next.2.toList := by
  rw [toList, if_neg h]

theorem toList_eq_nil_iff {stream : TokenStream} :
    stream.toList = [] ↔ stream.next.1 = .endOfSource := by
  by_cases h : stream.next.1 = .endOfSource
  · rw [toList, if_pos h]
    simp [h]
  · rw [toList_of_next h]
    simp [h]

theorem toList_eq_cons_iff {stream : TokenStream} {token : Token} {others : List Token} :
    stream.toList = token :: others ↔
      stream.next.1 = token ∧ token ≠ .endOfSource ∧ stream.next.2.toList = others := by
  by_cases h : stream.next.1 = .endOfSource
  · rw [toList, if_pos h]
    simp only [reduceCtorEq, h, false_iff]
    rintro ⟨rfl, hne, -⟩
    exact hne rfl
  · rw [toList_of_next h, List.cons.injEq]
    constructor
    · rintro ⟨rfl, rfl⟩
      exact ⟨rfl, h, rfl⟩
    · rintro ⟨rfl, -, rfl⟩
      exact ⟨rfl, rfl⟩

theorem next_pushBack? {stream after : TokenStream} {token : Token}
    (h : stream.pushBack? token = some after) : after.next = (token, stream) := by
  obtain ⟨line, rest, pending, exhausted⟩ := stream
  cases pending with
  | none =>
      obtain rfl : _ = after := by simpa [pushBack?] using h
      rfl
  | some waiting => simp [pushBack?] at h

theorem exhausted_pushBack? {stream after : TokenStream} {token : Token}
    (h : stream.pushBack? token = some after) : after.exhausted = stream.exhausted := by
  obtain ⟨line, rest, pending, exhausted⟩ := stream
  cases pending with
  | none =>
      obtain rfl : _ = after := by simpa [pushBack?] using h
      rfl
  | some waiting => simp [pushBack?] at h

theorem exists_pushBack?_next (stream : TokenStream) (token : Token) :
    ∃ after, stream.next.2.pushBack? token = some after := by
  rw [pushBack?, pending_next]
  exact ⟨_, rfl⟩

/-! ## The end of the source -/

def EndRepeats (stream : TokenStream) : Prop :=
  stream.next.1 = .endOfSource → stream.next.2.exhausted = true ∧ stream.next.2.toList = []

theorem endRepeats_of_pending_eq_none {stream : TokenStream} (h : stream.pending = none) :
    stream.EndRepeats := by
  obtain ⟨line, rest, pending, exhausted⟩ := stream
  subst h
  intro hend
  change (Token.read line rest).1 = .endOfSource at hend
  have hrest : (Token.read line rest).2.rest = [] := Token.rest_read_eq_nil hend
  have hread (line : Nat) : (Token.read line []).1 = .endOfSource := by
    rw [Token.read]
    rfl
  refine ⟨by simp [next, hend], toList_eq_nil_iff.2 ?_⟩
  change (Token.read _ (Token.read line rest).2.rest).1 = .endOfSource
  rw [hrest]
  exact hread _

theorem endRepeats_next (stream : TokenStream) : stream.next.2.EndRepeats :=
  endRepeats_of_pending_eq_none stream.pending_next

theorem endRepeats_pushBack? {stream after : TokenStream} (hstream : stream.EndRepeats)
    (h : stream.next.2.pushBack? stream.next.1 = some after) : after.EndRepeats := by
  rw [EndRepeats, next_pushBack? h]
  exact hstream

end TokenStream

end ClassSelection
