import ClassSelection.Proofs.Token.Place
import Mathlib.Logic.Function.Iterate

/-!
# Positions in a source

A stream that has come from the start of a source by reading tokens, and by
putting back the last one at times, is given by its source and by its position:
how many tokens it has taken, and whether it holds the next one already.  Its
line is the one on which the last token that it has scanned ends.
-/

namespace ClassSelection

structure Position where
  /-- The number of tokens that have been taken. -/
  count : Nat
  /-- Whether the token after them has been scanned and waits. -/
  ahead : Bool

variable {source : String} {n : Nat}

/-- The token of a source at an index; behind the last one the end of the source repeats. -/
def tokenAt (source : String) (n : Nat) : Token :=
  (TokenStream.ofSource source).token n

namespace TokenStream

def after (source : String) (n : Nat) : TokenStream :=
  (fun stream => stream.next.2)^[n] (ofSource source)

theorem after_succ (source : String) (n : Nat) :
    after source (n + 1) = (after source n).next.2 :=
  Function.iterate_succ_apply' _ _ _

theorem next_after (source : String) (n : Nat) :
    (after source n).next = (tokenAt source n, after source (n + 1)) := by
  rw [after_succ]
  rfl

theorem pending_after (source : String) (n : Nat) : (after source n).pending = none := by
  cases n with
  | zero => rfl
  | succ n =>
      rw [after_succ]
      exact pending_next _

theorem readFrom_after (source : String) (n : Nat) : (after source n).ReadFrom source := by
  induction n with
  | zero => exact readFrom_ofSource source
  | succ n ih =>
      rw [after_succ]
      exact ih.next.readFrom

theorem toList_after (source : String) (n : Nat) :
    (after source n).toList = (Token.lex source.toList).drop n := by
  induction n with
  | zero => exact toList_ofSource source
  | succ n ih =>
      rw [← List.tail_drop, ← ih, after_succ]
      by_cases hend : (after source n).next.1 = .endOfSource
      · rw [toList_eq_nil_iff.2 hend, ((readFrom_after source n).endRepeats hend).2]
        rfl
      · rw [toList_of_next hend, List.tail_cons]

end TokenStream

open TokenStream (after)

def textTo (source : String) (n : Nat) : List Char :=
  source.toList.take (source.toList.length - (after source (n + 1)).rest.length)

/-- The line on which a token of a source ends, counted from 1; the last line for the end of the
source. -/
def lineAt (source : String) (n : Nat) : Nat :=
  1 + (textTo source n).count '\n'

theorem line_after_succ (source : String) (n : Nat) :
    (after source (n + 1)).line = lineAt source n := by
  obtain ⟨passed, htext, hline⟩ := (TokenStream.readFrom_after source (n + 1)).advances
  dsimp only at htext hline
  have hpassed : textTo source n = passed := by
    rw [textTo, htext, List.length_append, Nat.add_sub_cancel, List.take_left]
  rw [hline, lineAt, hpassed]

theorem lineAt_of_end (h : tokenAt source n = .endOfSource) :
    lineAt source n = 1 + source.toList.count '\n' := by
  have hrest : (after source (n + 1)).rest = [] := by
    refine (TokenStream.readFrom_after source (n + 1)).rest_eq_nil ?_
    rw [TokenStream.after_succ]
    exact ((TokenStream.readFrom_after source n).endRepeats h).1
  rw [lineAt, textTo, hrest, List.length_nil, Nat.sub_zero, List.take_length]

namespace Position

def stream (source : String) (position : Position) : TokenStream :=
  if position.ahead then
    { after source (position.count + 1) with pending := some (tokenAt source position.count) }
  else
    after source position.count

theorem next_stream (source : String) (position : Position) :
    (position.stream source).next =
      (tokenAt source position.count, after source (position.count + 1)) := by
  obtain ⟨count, ahead⟩ := position
  cases ahead
  · exact TokenStream.next_after source count
  · have hpending := TokenStream.pending_after source (count + 1)
    simp only [stream, if_true, TokenStream.next]
    rw [← hpending]

theorem pushBack?_after (source : String) (n : Nat) :
    (after source (n + 1)).pushBack? (tokenAt source n) = some (stream source ⟨n, true⟩) := by
  rw [TokenStream.pushBack?, TokenStream.pending_after]
  rfl

theorem toList_stream (source : String) (position : Position) :
    (position.stream source).toList = (Token.lex source.toList).drop position.count := by
  rw [← TokenStream.toList_after]
  have hnext := next_stream source position
  rw [← TokenStream.next_after] at hnext
  rw [TokenStream.toList, hnext]
  conv_rhs => rw [TokenStream.toList]

theorem line_stream_taken (source : String) (n : Nat) :
    (stream source ⟨n + 1, false⟩).line = lineAt source n :=
  line_after_succ source n

theorem line_stream_ahead (source : String) (n : Nat) :
    (stream source ⟨n, true⟩).line = lineAt source n :=
  line_after_succ source n

end Position

end ClassSelection
