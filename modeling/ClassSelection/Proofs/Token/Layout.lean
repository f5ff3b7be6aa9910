import ClassSelection.Proofs.Text.Uppercase
import ClassSelection.Proofs.Token.Lexing
import Mathlib.Data.List.TakeWhile

/-!
# Layout

A routine spells its tokens one after the other, with gaps of separators,
comments and sequence numbers between them (`LaidOut`).  Neither the gaps nor
small letters change what is read, and what is read can be laid out again.
-/

namespace ClassSelection

namespace Token

/-- A token that reads as itself where it is written. -/
def Canonical : Token → Prop
  | word text =>
      text.toList ≠ [] ∧ (∀ c ∈ text.toList, isWordChar c = true) ∧
        isSequenceNumber (word text) = false
  | literal text => ∀ c ∈ text.toList, isLiteralChar c = true
  | punct symbol => isSeparator symbol = false ∧ isWordChar symbol = false ∧ symbol ≠ '\''
  | endOfSource => False

instance : DecidablePred Canonical
  | word text =>
      have : Decidable (∀ c ∈ text.toList, isWordChar c = true) := List.decidableBAll ..
      inferInstanceAs (Decidable (_ ∧ _ ∧ _))
  | literal _ => List.decidableBAll ..
  | punct _ => inferInstanceAs (Decidable (_ ∧ _ ∧ _))
  | endOfSource => inferInstanceAs (Decidable False)

def capitalized : Token → Token
  | word text => word (String.ofList (Text.uppercase text.toList))
  | literal text => literal (String.ofList (Text.uppercase text.toList))
  | token => token

def Spells (spelling : List Char) (token : Token) : Prop :=
  spelling.map Char.toLower = token.text.toList.map Char.toLower

instance (spelling : List Char) (token : Token) : Decidable (Spells spelling token) :=
  inferInstanceAs (Decidable (_ = _))

inductive Gap : List Char → Prop
  | separator {c : Char} (h : isSeparator c = true) : Gap [c]
  | comment {body : List Char} (h : ¬['*', '/'] <:+: body) :
      Gap ('/' :: '*' :: (body ++ ['*', '/']))
  | append {before after : List Char} (hbefore : Gap before) (hafter : Gap after) :
      Gap (before ++ after)
  /-- A sequence number, which other gaps keep apart from the tokens. -/
  | sequenceNumber {before digits after : List Char} (hbefore : Gap before)
      (hlength : digits.length = 8) (hdigits : digits.all Char.isDigit = true)
      (hafter : Gap after) : Gap (before ++ digits ++ after)

/-- A text that spells the tokens, with gaps between them and optional ones at both ends. -/
inductive LaidOut : List Token → List Char → Prop
  | nil : LaidOut [] []
  | gap {tokens : List Token} {gap text : List Char} (hgap : Gap gap)
      (htext : LaidOut tokens text) : LaidOut tokens (gap ++ text)
  | last {token : Token} {spelling : List Char} (htoken : token.Canonical)
      (hspells : Spells spelling token) : LaidOut [token] spelling
  | token {token : Token} {tokens : List Token} {spelling gap text : List Char}
      (htoken : token.Canonical) (hspells : Spells spelling token) (hgap : Gap gap)
      (htext : LaidOut tokens text) : LaidOut (token :: tokens) (spelling ++ gap ++ text)

/-! ## Characters -/

theorem toNat_lt_of_isAlphanum {c : Char} (h : c.isAlphanum = true) : c.toNat < 0x80 := by
  obtain (hupper | hlower) | hdigit := (Bool.or_eq_true_iff.1 h).imp_left Bool.or_eq_true_iff.1
  · have hle : c.toNat ≤ 'Z'.toNat := (of_decide_eq_true hupper).2
    exact Nat.lt_of_le_of_lt hle (by decide)
  · have hle : c.toNat ≤ 'z'.toNat := of_decide_eq_true (Bool.and_eq_true_iff.1 hlower).2
    exact Nat.lt_of_le_of_lt hle (by decide)
  · have hle : c.toNat ≤ '9'.toNat := of_decide_eq_true (Bool.and_eq_true_iff.1 hdigit).2
    exact Nat.lt_of_le_of_lt hle (by decide)

theorem toNat_lt_of_isWordChar {c : Char} (h : isWordChar c = true) : c.toNat < 0x80 := by
  simp only [isWordChar, Bool.or_eq_true, beq_iff_eq] at h
  obtain ((((h | rfl) | rfl) | rfl) | rfl) | rfl := h
  · exact toNat_lt_of_isAlphanum h
  all_goals decide

theorem of_isWordChar {P : Char → Prop}
    (h : ∀ code < 0x80, isWordChar (Char.ofNat code) = true → P (Char.ofNat code)) {c : Char}
    (hc : isWordChar c = true) : P c :=
  Text.of_ascii (P := fun c => isWordChar c = true → P c) h (toNat_lt_of_isWordChar hc) hc

theorem isSeparator_of_isWordChar {c : Char} (h : isWordChar c = true) : isSeparator c = false :=
  of_isWordChar (P := fun c => isSeparator c = false) (by decide) h

theorem isWordChar_of_isDigit {c : Char} (h : c.isDigit = true) : isWordChar c = true := by
  simp [isWordChar, Char.isAlphanum, h]

theorem isWordChar_toUpper {c : Char} (h : isWordChar c = true) : isWordChar c.toUpper = true :=
  of_isWordChar (P := fun c => isWordChar c.toUpper = true) (by decide) h

theorem isDigit_toUpper {c : Char} (h : isWordChar c = true) : c.toUpper.isDigit = c.isDigit :=
  of_isWordChar (P := fun c => c.toUpper.isDigit = c.isDigit) (by decide) h

theorem isWordChar_toLower (c : Char) : isWordChar c.toLower = isWordChar c :=
  Text.apply_toLower (by decide) c

theorem isLiteralChar_toLower (c : Char) : isLiteralChar c.toLower = isLiteralChar c :=
  Text.apply_toLower (by decide) c

theorem eq_of_toLower_eq {c d : Char} (hd : d.isAlpha = false) (h : c.toLower = d.toLower) :
    c = d := by
  have hother {c : Char} (hc : c.isAlpha = false) : c.toLower = c := by
    by_cases hascii : c.toNat < 0x80
    · exact Text.of_ascii (P := fun c => c.isAlpha = false → c.toLower = c) (by decide) hascii hc
    · exact Text.toLower_of_ge (Nat.not_lt.1 hascii)
  have halpha (c : Char) : c.toLower.isAlpha = c.isAlpha := Text.apply_toLower (by decide) c
  have hc : c.isAlpha = false := by rw [← halpha, h, halpha, hd]
  rw [← hother hc, h, hother hd]

theorem forall_of_map_toLower_eq {p : Char → Bool} (hp : ∀ c, p c.toLower = p c)
    {spelling text : List Char} (h : spelling.map Char.toLower = text.map Char.toLower)
    (htext : ∀ c ∈ text, p c = true) : ∀ c ∈ spelling, p c = true := by
  intro c hc
  have hmem : c.toLower ∈ text.map Char.toLower := h ▸ List.mem_map_of_mem hc
  obtain ⟨d, hd, hlower⟩ := List.mem_map.1 hmem
  rw [← hp c, ← hlower, hp d, htext d hd]

theorem uppercase_eq_of_map_toLower_eq {spelling text : List Char}
    (h : spelling.map Char.toLower = text.map Char.toLower) :
    Text.uppercase spelling = Text.uppercase text := by
  rw [← Text.uppercase_map_toLower, h, Text.uppercase_map_toLower]

theorem uppercase_of_isWordChar {text : List Char} (h : ∀ c ∈ text, isWordChar c = true) :
    Text.uppercase text = text.map Char.toUpper :=
  Text.uppercase_of_ascii fun c hc => toNat_lt_of_isWordChar (h c hc)

/-- Small letters make no sequence number and undo none. -/
theorem isSequenceNumber_uppercase {text : List Char} (h : ∀ c ∈ text, isWordChar c = true) :
    isSequenceNumber (word (String.ofList (Text.uppercase text))) =
      isSequenceNumber (word (String.ofList text)) := by
  have hdigits : (text.map Char.toUpper).all Char.isDigit = text.all Char.isDigit := by
    rw [Bool.eq_iff_iff, List.all_eq_true, List.all_eq_true, List.forall_mem_map]
    exact forall₂_congr fun c hc => by rw [isDigit_toUpper (h c hc)]
  simp only [isSequenceNumber, String.toList_ofList, uppercase_of_isWordChar h, List.length_map,
    hdigits]

/-! ## Reading what is spelled -/

def Apart (text : List Char) : Prop :=
  ∀ c ∈ text.head?, isWordChar c = false

theorem skipSeparators_eq_self {text : List Char} (hhead : ∀ c ∈ text.head?, isSeparator c = false)
    (hopen : ¬['/', '*'] <+: text) (line : Nat) : skipSeparators line text = ⟨line, text⟩ := by
  cases text with
  | nil => rfl
  | cons c rest =>
      have hcomment : ∀ after, c = '/' → rest = '*' :: after → False := by
        rintro after rfl rfl
        exact hopen ⟨after, rfl⟩
      rw [skipSeparators.eq_2 line c rest hcomment, hhead c rfl]
      rfl

theorem scanToken_word {spelling rest : List Char} (hne : spelling ≠ [])
    (hchars : ∀ c ∈ spelling, isWordChar c = true) (hrest : Apart rest) :
    scanToken (spelling ++ rest) = (word (String.ofList (Text.uppercase spelling)), rest) := by
  cases spelling with
  | nil => exact absurd rfl hne
  | cons c spelling =>
      have hc : isWordChar c = true := hchars c List.mem_cons_self
      have hquote : (c == '\'') = false :=
        of_isWordChar (P := fun c => (c == '\'') = false) (by decide) hc
      have hspelling : ∀ d ∈ spelling, isWordChar d = true := fun d hd =>
        hchars d (List.mem_cons_of_mem c hd)
      have hstop : rest.takeWhile isWordChar = [] ∧ rest.dropWhile isWordChar = rest := by
        cases rest with
        | nil => exact ⟨rfl, rfl⟩
        | cons d rest => simp [hrest d rfl]
      simp only [List.cons_append, scanToken, hquote, hc, Bool.false_eq_true, if_false, if_true,
        List.takeWhile_append_of_pos hspelling, List.dropWhile_append_of_pos hspelling, hstop,
        List.append_nil]

theorem scanToken_literal {body : List Char} (hbody : ∀ c ∈ body, isLiteralChar c = true)
    (rest : List Char) :
    scanToken ('\'' :: (body ++ '\'' :: rest)) =
      (literal (String.ofList (Text.uppercase body)), rest) := by
  have hquote : isLiteralChar '\'' = false := rfl
  simp [scanToken, List.takeWhile_append_of_pos hbody, List.dropWhile_append_of_pos hbody, hquote,
    dropQuote]

theorem scanToken_punct {symbol : Char} (h : (punct symbol).Canonical) (rest : List Char) :
    scanToken (symbol :: rest) = (punct symbol, rest) := by
  obtain ⟨-, hword, hquote⟩ := h
  simp [scanToken, hword, hquote]

theorem read_eq {line : Nat} {text rest : List Char} {token : Token}
    (hstart : skipSeparators line text = ⟨line, text⟩) (hscan : scanToken text = (token, rest))
    (htoken : token.isSequenceNumber = false) : read line text = (token, ⟨line, rest⟩) := by
  have hscan : scan line text = (token, ⟨line, rest⟩) := by rw [scan, hstart, hscan]
  rw [read.eq_1, hscan, htoken]
  rfl

/-- A word begins with neither separator nor comment. -/
theorem skipSeparators_word {spelling : List Char} (hne : spelling ≠ [])
    (hchars : ∀ c ∈ spelling, isWordChar c = true) (rest : List Char) (line : Nat) :
    skipSeparators line (spelling ++ rest) = ⟨line, spelling ++ rest⟩ := by
  cases spelling with
  | nil => exact absurd rfl hne
  | cons c spelling =>
      have hc : isWordChar c = true := hchars c List.mem_cons_self
      refine skipSeparators_eq_self ?_ ?_ line
      · rintro d ⟨⟩
        exact isSeparator_of_isWordChar hc
      · rintro ⟨after, hopen⟩
        obtain rfl : '/' = c := (List.cons.inj hopen).1
        cases hc

theorem read_word {text : String} {spelling rest : List Char} (hword : (word text).Canonical)
    (hspells : Spells spelling (word text)) (hrest : Apart rest) (line : Nat) :
    read line (spelling ++ rest) = ((word text).capitalized, ⟨line, rest⟩) := by
  obtain ⟨hne, hchars, hnumber⟩ := hword
  have hlower : spelling.map Char.toLower = text.toList.map Char.toLower := hspells
  have hspelling := forall_of_map_toLower_eq isWordChar_toLower hlower hchars
  have hspellingNe : spelling ≠ [] := by
    rintro rfl
    exact hne (List.map_eq_nil_iff.1 hlower.symm)
  have hscan := scanToken_word hspellingNe hspelling hrest
  rw [uppercase_eq_of_map_toLower_eq hlower] at hscan
  have hcapital : (word text).capitalized.isSequenceNumber = false := by
    rw [capitalized, isSequenceNumber_uppercase hchars, String.ofList_toList]
    exact hnumber
  exact read_eq (skipSeparators_word hspellingNe hspelling rest line) hscan hcapital

theorem read_literal {text : String} {spelling : List Char} (hliteral : (literal text).Canonical)
    (hspells : Spells spelling (literal text)) (rest : List Char) (line : Nat) :
    read line (spelling ++ rest) = ((literal text).capitalized, ⟨line, rest⟩) := by
  have hquote {c : Char} (hc : c.toLower = '\''.toLower) : c = '\'' := eq_of_toLower_eq rfl hc
  obtain ⟨body, rfl, hlower⟩ : ∃ body, spelling = '\'' :: (body ++ ['\'']) ∧
      body.map Char.toLower = text.toList.map Char.toLower := by
    simp only [Spells, Token.text, String.toList_append, List.map_append] at hspells
    obtain ⟨front, last, rfl, hfront, hlast⟩ := List.map_eq_append_iff.1 hspells
    obtain ⟨first, body, rfl, hfirst, hbody⟩ := List.map_eq_append_iff.1 hfront
    obtain ⟨c, rfl, hc⟩ := List.map_eq_singleton_iff.1 hfirst
    obtain ⟨d, rfl, hd⟩ := List.map_eq_singleton_iff.1 hlast
    rw [hquote hc, hquote hd]
    exact ⟨body, rfl, hbody⟩
  have hbody := forall_of_map_toLower_eq isLiteralChar_toLower hlower hliteral
  have hscan := scanToken_literal hbody rest
  rw [uppercase_eq_of_map_toLower_eq hlower] at hscan
  rw [List.cons_append, List.append_assoc, List.singleton_append]
  refine read_eq (skipSeparators_eq_self ?_ ?_ line) hscan rfl
  · rintro c ⟨⟩
    rfl
  · rintro ⟨after, hopen⟩
    cases hopen

theorem read_punct {symbol : Char} {spelling rest : List Char}
    (hpunct : (punct symbol).Canonical) (hspells : Spells spelling (punct symbol))
    (hrest : Apart rest) (line : Nat) :
    read line (spelling ++ rest) = ((punct symbol).capitalized, ⟨line, rest⟩) := by
  have hlower : spelling.map Char.toLower = [symbol.toLower] := by
    simpa [Spells, Token.text] using hspells
  obtain ⟨c, rfl, hc⟩ := List.map_eq_singleton_iff.1 hlower
  have halpha : symbol.isAlpha = false := by
    have hword := hpunct.2.1
    simp only [isWordChar, Char.isAlphanum, Bool.or_eq_false_iff] at hword
    exact hword.1.1.1.1.1.1
  obtain rfl : c = symbol := eq_of_toLower_eq halpha hc
  refine read_eq (skipSeparators_eq_self ?_ ?_ line) (scanToken_punct hpunct rest) rfl
  · rintro d ⟨⟩
    exact hpunct.1
  · -- a slash stays one when no star follows, and a star is part of a word
    rintro ⟨after, hopen⟩
    obtain ⟨-, rfl⟩ := List.cons.inj hopen
    have hstar : isWordChar '*' = false := hrest '*' rfl
    cases hstar

/-- A spelled token is read in capital letters, whatever follows apart from it. -/
theorem read_spelling {token : Token} {spelling rest : List Char} (htoken : token.Canonical)
    (hspells : Spells spelling token) (hrest : Apart rest) (line : Nat) :
    read line (spelling ++ rest) = (token.capitalized, ⟨line, rest⟩) := by
  cases token with
  | word text => exact read_word htoken hspells hrest line
  | literal text => exact read_literal htoken hspells rest line
  | punct symbol => exact read_punct htoken hspells hrest line
  | endOfSource => exact htoken.elim

theorem capitalized_ne_endOfSource {token : Token} (h : token.Canonical) :
    token.capitalized ≠ .endOfSource := by
  cases token with
  | endOfSource => exact h.elim
  | _ => exact Token.noConfusion

theorem lex_spelling {token : Token} {spelling rest : List Char} (htoken : token.Canonical)
    (hspells : Spells spelling token) (hrest : Apart rest) :
    lex (spelling ++ rest) = token.capitalized :: lex rest := by
  rw [lex_eq, read_spelling htoken hspells hrest, if_neg (capitalized_ne_endOfSource htoken)]

/-! ## Gaps -/

theorem Gap.apart {gap : List Char} (h : Gap gap) (rest : List Char) : Apart (gap ++ rest) := by
  induction h generalizing rest with
  | separator h =>
      rintro c ⟨⟩
      by_contra hc
      rw [isSeparator_of_isWordChar (eq_true_of_ne_false hc)] at h
      cases h
  | comment h =>
      rintro c ⟨⟩
      rfl
  | append _ _ ihbefore _ =>
      rw [List.append_assoc]
      exact ihbefore _
  | sequenceNumber _ _ _ _ ihbefore _ =>
      rw [List.append_assoc, List.append_assoc]
      exact ihbefore _

theorem passes_sequenceNumber {digits rest : List Char} (hlength : digits.length = 8)
    (hdigits : digits.all Char.isDigit = true) (hrest : Apart rest) :
    Passes (digits ++ rest) rest := by
  have hchars : ∀ c ∈ digits, isWordChar c = true := fun c hc =>
    isWordChar_of_isDigit (List.all_eq_true.1 hdigits c hc)
  have hne : digits ≠ [] := by
    rintro rfl
    cases hlength
  have hnumber : isSequenceNumber (word (String.ofList (Text.uppercase digits))) = true := by
    rw [isSequenceNumber_uppercase hchars]
    simp [isSequenceNumber, hlength, hdigits]
  intro line
  have hscan : scan line (digits ++ rest) =
      (word (String.ofList (Text.uppercase digits)), ⟨line, rest⟩) := by
    rw [scan, skipSeparators_word hne hchars, scanToken_word hne hchars hrest]
  exact ⟨line, by rw [read.eq_1 line (digits ++ rest), hscan, if_pos hnumber]⟩

theorem Gap.passes {gap : List Char} (h : Gap gap) (rest : List Char) :
    Passes (gap ++ rest) rest := by
  induction h generalizing rest with
  | separator h => exact passes_separator h rest
  | comment h => simpa using passes_comment h rest
  | append _ _ ihbefore ihafter =>
      rw [List.append_assoc]
      exact (ihbefore _).trans (ihafter rest)
  | sequenceNumber _ hlength hdigits hafter ihbefore ihafter =>
      rw [List.append_assoc, List.append_assoc]
      exact ((ihbefore _).trans (passes_sequenceNumber hlength hdigits (hafter.apart rest))).trans
        (ihafter rest)

theorem LaidOut.lex_eq {tokens : List Token} {text : List Char} (h : LaidOut tokens text) :
    lex text = tokens.map capitalized := by
  induction h with
  | nil => exact lex_nil
  | gap hgap _ ih => rw [(hgap.passes _).lex_eq, ih]
  | last htoken hspells =>
      have hend : Apart [] := by
        rintro c ⟨⟩
      have hlex := lex_spelling htoken hspells hend
      rwa [List.append_nil, lex_nil] at hlex
  | token htoken hspells hgap _ ih =>
      rw [List.append_assoc, lex_spelling htoken hspells (hgap.apart _), (hgap.passes _).lex_eq, ih]
      rfl

/-! ## What is read can be laid out -/

theorem isSeparator_head_skipSeparators (line : Nat) (text : List Char) :
    ∀ c ∈ (skipSeparators line text).rest.head?, isSeparator c = false := by
  refine skipSeparators.induct
    (fun line text => ∀ c ∈ (skipSeparators line text).rest.head?, isSeparator c = false)
    (fun line text => ∀ c ∈ (skipComment line text).rest.head?, isSeparator c = false)
    ?_ ?_ ?_ ?_ ?_ ?_ ?_ line text
  · intro line rest ih
    rwa [skipSeparators]
  · intro line c rest hcomment hseparator ih
    rwa [skipSeparators.eq_2 line c rest hcomment, if_pos hseparator]
  · intro line c rest hcomment hseparator
    rw [skipSeparators.eq_2 line c rest hcomment, if_neg hseparator]
    rintro d ⟨⟩
    exact eq_false_of_ne_true hseparator
  · rintro line c ⟨⟩
  · intro line rest ih
    rwa [skipComment]
  · intro line c rest hclosed ih
    rwa [skipComment.eq_2 line c rest hclosed]
  · rintro line c ⟨⟩

theorem isWordChar_of_mem_uppercase {text : List Char} (h : ∀ c ∈ text, isWordChar c = true) :
    ∀ c ∈ Text.uppercase text, isWordChar c = true := by
  rw [uppercase_of_isWordChar h]
  intro c hc
  obtain ⟨d, hd, rfl⟩ := List.mem_map.1 hc
  exact isWordChar_toUpper (h d hd)

theorem isLiteralChar_of_mem_uppercase {text : List Char}
    (h : ∀ c ∈ text, isLiteralChar c = true) :
    ∀ c ∈ Text.uppercase text, isLiteralChar c = true := by
  intro c hc
  obtain ⟨d, hd, hcapital⟩ := List.mem_flatMap.1 hc
  by_cases hmark : c.toNat < 0x41
  · rw [Text.eq_of_mem_capital hcapital hmark]
    exact h d hd
  · -- the quote and the line break come before the letters
    have hne (mark : Char) (hlt : mark.toNat < 0x41) : c ≠ mark := by
      rintro rfl
      exact hmark hlt
    simp [isLiteralChar, hne '\'' (by decide), hne '\n' (by decide)]

theorem capitalized_word (text : List Char) :
    (word (String.ofList (Text.uppercase text))).capitalized =
      word (String.ofList (Text.uppercase text)) := by
  simp only [capitalized, String.toList_ofList, Text.uppercase_uppercase]

theorem capitalized_literal (text : List Char) :
    (literal (String.ofList (Text.uppercase text))).capitalized =
      literal (String.ofList (Text.uppercase text)) := by
  simp only [capitalized, String.toList_ofList, Text.uppercase_uppercase]

theorem canonical_scanToken {text : List Char} (hhead : ∀ c ∈ text.head?, isSeparator c = false)
    (hend : (scanToken text).1 ≠ .endOfSource)
    (hnumber : (scanToken text).1.isSequenceNumber = false) :
    (scanToken text).1.Canonical ∧ (scanToken text).1.capitalized = (scanToken text).1 := by
  cases text with
  | nil => exact absurd rfl hend
  | cons c rest =>
      by_cases hquote : c = '\''
      · have hbody : ∀ d ∈ rest.takeWhile isLiteralChar, isLiteralChar d = true := fun d hd =>
          List.mem_takeWhile_imp hd
        have hscan : (scanToken (c :: rest)).1 =
            literal (String.ofList (Text.uppercase (rest.takeWhile isLiteralChar))) := by
          simp [scanToken, hquote]
        rw [hscan]
        refine ⟨?_, capitalized_literal _⟩
        simpa [Canonical] using isLiteralChar_of_mem_uppercase hbody
      by_cases hword : isWordChar c = true
      · have hchars : ∀ d ∈ c :: rest.takeWhile isWordChar, isWordChar d = true := by
          rintro d (_ | ⟨_, hd⟩)
          · exact hword
          · exact List.mem_takeWhile_imp hd
        have hscan : (scanToken (c :: rest)).1 =
            word (String.ofList (Text.uppercase (c :: rest.takeWhile isWordChar))) := by
          simp [scanToken, hquote, hword]
        rw [hscan] at hnumber ⊢
        refine ⟨⟨?_, ?_, hnumber⟩, capitalized_word _⟩
        · rw [String.toList_ofList, uppercase_of_isWordChar hchars]
          exact List.cons_ne_nil _ _
        · rw [String.toList_ofList]
          exact isWordChar_of_mem_uppercase hchars
      · have hscan : (scanToken (c :: rest)).1 = punct c := by
          simp [scanToken, hquote, hword]
        rw [hscan]
        exact ⟨⟨hhead c rfl, eq_false_of_ne_true hword, hquote⟩, rfl⟩

theorem canonical_read {line : Nat} {text : List Char} (h : (read line text).1 ≠ .endOfSource) :
    (read line text).1.Canonical ∧ (read line text).1.capitalized = (read line text).1 := by
  fun_induction read line text with
  | case1 line text hnumber ih => exact ih h
  | case2 line text hnumber =>
      exact canonical_scanToken (isSeparator_head_skipSeparators line text) h
        (eq_false_of_ne_true hnumber)

theorem canonical_of_mem_lex {text : List Char} {token : Token} (h : token ∈ lex text) :
    token.Canonical ∧ token.capitalized = token := by
  induction hlength : text.length using Nat.strongRecOn generalizing text with
  | _ n ih =>
      subst hlength
      rw [lex_eq] at h
      by_cases hend : (read 1 text).1 = .endOfSource
      · rw [if_pos hend] at h
        cases h
      · rw [if_neg hend, List.mem_cons] at h
        obtain rfl | hrest := h
        · exact canonical_read hend
        · have hle := length_read_add_weight_le 1 text
          rw [weight_of_ne hend] at hle
          exact ih _ (by omega) hrest rfl

theorem laidOut_intercalate {tokens : List Token} (h : ∀ token ∈ tokens, token.Canonical) :
    LaidOut tokens ([' '].intercalate (tokens.map fun token => token.text.toList)) := by
  induction tokens with
  | nil => exact .nil
  | cons token tokens ih =>
      have htoken : token.Canonical := h token List.mem_cons_self
      cases tokens with
      | nil =>
          simp only [List.map_cons, List.map_nil, List.intercalate_singleton]
          exact .last htoken rfl
      | cons next tokens =>
          simp only [List.map_cons, List.intercalate_cons_cons] at ih ⊢
          exact .token htoken rfl (.separator rfl)
            (ih fun token htoken => h token (List.mem_cons_of_mem _ htoken))

theorem lex_intercalate_lex (text : List Char) :
    lex ([' '].intercalate ((lex text).map fun token => token.text.toList)) = lex text := by
  rw [(laidOut_intercalate fun token htoken => (canonical_of_mem_lex htoken).1).lex_eq]
  exact (List.map_congr_left fun token htoken => (canonical_of_mem_lex htoken).2).trans
    (List.map_id _)

end Token

namespace TokenStream

open Token

theorem token_ofSource (source : String) (n : Nat) :
    (ofSource source).token n = (lex source.toList).getD n .endOfSource := by
  rw [token_eq (endRepeats_of_pending_eq_none rfl), toList_ofSource]

theorem canonical_token_ofSource {source : String} {n : Nat}
    (h : (ofSource source).token n ≠ .endOfSource) : ((ofSource source).token n).Canonical := by
  rw [token_ofSource, List.getD_eq_getElem?_getD] at h ⊢
  cases hget : (lex source.toList)[n]? with
  | none =>
      rw [hget] at h
      exact absurd rfl h
  | some token => exact (canonical_of_mem_lex (List.mem_of_getElem? hget)).1

/-- Reading gives back the tokens of a layout in capital letters, and then the end of the source for
ever; the tokens of any source are fit to be laid out, and with blanks between them are read as the
same ones. -/
theorem token_of_laidOut :
    (∀ tokens source, LaidOut tokens source.toList →
      ∀ n, (ofSource source).token n = (tokens.map capitalized).getD n .endOfSource) ∧
    (∀ source n, (ofSource source).token n ≠ .endOfSource →
      ((ofSource source).token n).Canonical) ∧
    ∀ source n, (ofSource (" ".intercalate ((ofSource source).toList.map text))).token n =
      (ofSource source).token n := by
  refine ⟨fun tokens source hlaid n => ?_, fun source n => canonical_token_ofSource,
    fun source n => ?_⟩
  · rw [token_ofSource, hlaid.lex_eq]
  · have hblanks : (" ".intercalate ((ofSource source).toList.map text)).toList =
        [' '].intercalate ((lex source.toList).map fun token => token.text.toList) := by
      rw [String.toList_intercalate, toList_ofSource, List.map_map]
      rfl
    rw [token_ofSource, token_ofSource, hblanks, lex_intercalate_lex]

/-- A card image with a comment, a sequence number and small letters. -/
theorem token_of_cardImage :
    let tokens := [.word "IF", .word "&DSN", .punct '/', .literal "a.b"]
    let source := " if/* who? **/&Dsn\t/ 00000100\n'A.b'"
    LaidOut tokens source.toList ∧
      (ofSource source).token 3 = .literal "A.B" ∧ ((ofSource source).token 3).Canonical ∧
      (ofSource (" ".intercalate ((ofSource source).toList.map text))).token 3 =
        .literal "A.B" := by
  intro tokens source
  have hlaid : LaidOut tokens source.toList := by
    have htext : source.toList = [' '] ++ (['i', 'f'] ++ ('/' :: '*' :: (" who? *".toList ++
        ['*', '/'])) ++ ("&Dsn".toList ++ ['\t'] ++ (['/'] ++ ([' '] ++ "00000100".toList ++
          ['\n']) ++ "'A.b'".toList))) := by
      decide +kernel
    rw [htext]
    refine .gap (.separator rfl) (.token ?_ ?_ (.comment ?_) (.token ?_ ?_ (.separator rfl)
      (.token ?_ ?_ (.sequenceNumber (.separator rfl) ?_ ?_ (.separator rfl)) (.last ?_ ?_))))
    all_goals decide +kernel
  have hread := token_of_laidOut.1 tokens source hlaid 3
  have hliteral : (ofSource source).token 3 = .literal "A.B" := by
    rw [hread]
    decide +kernel
  have hcanonical := token_of_laidOut.2.1 source 3 (by rw [hliteral]; exact Token.noConfusion)
  exact ⟨hlaid, hliteral, hcanonical, (token_of_laidOut.2.2 source 3).trans hliteral⟩

end TokenStream

end ClassSelection
