import ClassSelection.Proofs.Token.Position

/-!
# The lines of tokens

A token holds no line break, so all of it stands on the line where it ends
(`standsOn_lineAt`), and a later token stands on no earlier line.
-/

namespace ClassSelection

namespace Token

inductive Written : List Char → Token → Prop
  | word {text : List Char} (htext : ∀ c ∈ text, isWordChar c = true) :
      Written text (word (String.ofList (Text.uppercase text)))
  | literal {text : List Char} (htext : ∀ c ∈ text, isLiteralChar c = true) :
      Written ('\'' :: (text ++ ['\''])) (literal (String.ofList (Text.uppercase text)))
  /-- The closing quote is missing where the line ends before it. -/
  | openLiteral {text : List Char} (htext : ∀ c ∈ text, isLiteralChar c = true) :
      Written ('\'' :: text) (literal (String.ofList (Text.uppercase text)))
  | punct {symbol : Char} (hsymbol : isSeparator symbol = false) : Written [symbol] (punct symbol)

theorem Written.no_lineBreak {written : List Char} {token : Token} (h : Written written token) :
    '\n' ∉ written := by
  have hnone {p : Char → Bool} (hp : p '\n' = false) {text : List Char}
      (htext : ∀ c ∈ text, p c = true) : '\n' ∉ text := fun hmem => by
    rw [htext _ hmem] at hp
    cases hp
  cases h with
  | word htext => exact hnone (by decide) htext
  | literal htext => simpa using hnone (by decide) htext
  | openLiteral htext => simpa using hnone (by decide) htext
  | punct hsymbol => exact hnone (p := fun c => !isSeparator c) (by decide) (by simpa using hsymbol)

theorem exists_written_scanToken {text : List Char}
    (hhead : ∀ c ∈ text.head?, isSeparator c = false) (hend : (scanToken text).1 ≠ .endOfSource) :
    ∃ written, Written written (scanToken text).1 ∧ text = written ++ (scanToken text).2 := by
  cases text with
  | nil => exact absurd rfl hend
  | cons c rest =>
      rw [scanToken]
      split
      · rename_i hquote
        obtain rfl := eq_of_beq hquote
        have htext : ∀ d ∈ rest.takeWhile isLiteralChar, isLiteralChar d = true := fun d =>
          List.mem_takeWhile_imp
        have hrest := rest.takeWhile_append_dropWhile (p := isLiteralChar)
        unfold dropQuote
        split
        · rename_i after hafter
          refine ⟨_, .literal htext, ?_⟩
          rw [hafter] at hrest
          simp [hrest]
        · exact ⟨_, .openLiteral htext, congrArg _ hrest.symm⟩
      · split
        · rename_i hword
          refine ⟨c :: rest.takeWhile isWordChar, .word ?_, ?_⟩
          · rintro d (_ | ⟨_, hd⟩)
            · exact hword
            · exact List.mem_takeWhile_imp hd
          · exact congrArg _ List.takeWhile_append_dropWhile.symm
        · exact ⟨_, .punct (hhead c rfl), rfl⟩

theorem exists_written_read {line : Nat} {text : List Char}
    (h : (read line text).1 ≠ .endOfSource) : ∃ before written,
      Written written (read line text).1 ∧ text = before ++ written ++ (read line text).2.rest := by
  have hscan (line : Nat) (text : List Char) (h : (scan line text).1 ≠ .endOfSource) :
      ∃ before written, Written written (scan line text).1 ∧
        text = before ++ written ++ (scan line text).2.rest := by
    obtain ⟨before, htext, -⟩ := (advances_skipSeparators line text).1
    dsimp only at htext
    obtain ⟨written, hwritten, hstart⟩ :=
      exists_written_scanToken (isSeparator_head_skipSeparators line text) h
    refine ⟨before, written, hwritten, ?_⟩
    rw [List.append_assoc]
    exact htext.trans (congrArg _ hstart)
  fun_induction read line text with
  | case1 line text hnumber ih =>
      have hne : (scan line text).1 ≠ .endOfSource := fun hend => by
        rw [hend] at hnumber
        cases hnumber
      obtain ⟨passed, number, -, htext⟩ := hscan line text hne
      obtain ⟨before, written, hwritten, hrest⟩ := ih h
      refine ⟨passed ++ number ++ before, written, hwritten, htext.trans ?_⟩
      simp only [List.append_assoc] at hrest ⊢
      rw [← hrest]
  | case2 line text hnumber => exact hscan line text h

end Token

open Token (Written)
open TokenStream (after)

variable {source : String} {n m : Nat}

theorem read_after (source : String) (n : Nat) :
    Token.read (after source n).line (after source n).rest =
      (tokenAt source n, ⟨(after source (n + 1)).line, (after source (n + 1)).rest⟩) := by
  have hnext := TokenStream.next_after source n
  have hpending := TokenStream.pending_after source n
  rw [TokenStream.next, hpending] at hnext
  obtain ⟨htoken, hstream⟩ := Prod.mk.inj hnext
  rw [← htoken, ← hstream]

theorem lineAt_le_succ (source : String) (n : Nat) : lineAt source n ≤ lineAt source (n + 1) := by
  have hadvances := Token.advances_read (after source (n + 1)).line (after source (n + 1)).rest
  have hle := hadvances.line_le
  rwa [read_after, line_after_succ, line_after_succ] at hle

/-- A later token stands on no earlier line. -/
theorem lineAt_mono (h : n ≤ m) : lineAt source n ≤ lineAt source m := by
  induction h with
  | refl => exact Nat.le_refl _
  | @step m _ ih => exact ih.trans (lineAt_le_succ source m)

theorem textTo_append_rest (source : String) (n : Nat) :
    textTo source n ++ (after source (n + 1)).rest = source.toList := by
  obtain ⟨passed, htext, -⟩ := (TokenStream.readFrom_after source (n + 1)).advances
  dsimp only at htext
  rw [textTo, htext, List.length_append, Nat.add_sub_cancel, List.take_left]

/-- The token of a source at an index stands on the line, counted from 1, from its first character
to its last one. -/
def StandsOn (source : String) (n line : Nat) : Prop :=
  ∃ before written, textTo source n = before ++ written ∧ Written written (tokenAt source n) ∧
    '\n' ∉ written ∧ line = 1 + before.count '\n'

theorem StandsOn.eq_lineAt {line : Nat} (h : StandsOn source n line) :
    line = lineAt source n := by
  obtain ⟨before, written, htext, -, hwritten, rfl⟩ := h
  rw [lineAt, htext, List.count_append, List.count_eq_zero.2 hwritten, Nat.add_zero]

theorem standsOn_lineAt (h : tokenAt source n ≠ .endOfSource) :
    StandsOn source n (lineAt source n) := by
  have hread := read_after source n
  have hne : (Token.read (after source n).line (after source n).rest).1 ≠ .endOfSource := by
    rwa [hread]
  obtain ⟨before, written, hwritten, hrest⟩ := Token.exists_written_read hne
  obtain ⟨passed, htext, -⟩ := (TokenStream.readFrom_after source n).advances
  dsimp only at htext
  rw [hread] at hwritten hrest
  have hto : textTo source n = passed ++ before ++ written := by
    refine List.append_cancel_right ((textTo_append_rest source n).trans ?_)
    rw [htext, hrest]
    simp only [List.append_assoc]
  have hstands : StandsOn source n (1 + (passed ++ before).count '\n') :=
    ⟨passed ++ before, written, hto, hwritten, hwritten.no_lineBreak, rfl⟩
  rwa [hstands.eq_lineAt] at hstands

end ClassSelection
