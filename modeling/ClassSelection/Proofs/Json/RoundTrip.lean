import ClassSelection.Json.Parser
import ClassSelection.Json.Printer
import Mathlib.Tactic.SplitIfs

/-!
# Parsing what is printed

The parser takes back the printed form of a value, whatever the level it is printed at and
whatever blanks stand before it.  Only a number can run on into the text behind it, so that
text must not start with a character of a number; what the printer puts behind a value never
does.
-/

namespace ClassSelection.Json

/-! ## Strings -/

theorem hexValue?_hexDigit : ∀ n < 16, hexValue? (hexDigit n) = some n := by
  decide

theorem parseEscape_control {c : Char} (hc : c.toNat < 0x20) (rest : List Char) :
    parseEscape ('u' :: '0' :: '0' :: hexDigit (c.toNat / 16) :: hexDigit (c.toNat % 16) :: rest) =
      some (c, rest) := by
  have hzero : hexValue? '0' = some 0 := rfl
  have hhigh := hexValue?_hexDigit (c.toNat / 16) (by omega)
  have hlow := hexValue?_hexDigit (c.toNat % 16) (by omega)
  have hcode : c.toNat / 16 * 16 + c.toNat % 16 = c.toNat := by omega
  have hhex : parseHex4 ('0' :: '0' :: hexDigit (c.toNat / 16) :: hexDigit (c.toNat % 16) :: rest) =
      some (c.toNat, rest) := by
    simp [parseHex4, hzero, hhigh, hlow, hcode]
  have hnoHigh : ¬(0xD800 ≤ c.toNat) := by omega
  have hnoLow : ¬(0xDC00 ≤ c.toNat) := by omega
  simp [parseEscape, parseUnicodeEscape, hhex, hnoHigh, hnoLow]

theorem escapeChar_cases (c : Char) :
    (∃ text, escapeChar c = '\\' :: text ∧ ∀ rest, parseEscape (text ++ rest) = some (c, rest)) ∨
      (escapeChar c = [c] ∧ c ≠ '"' ∧ c ≠ '\\' ∧ ¬c.toNat < 0x20) := by
  simp only [escapeChar, beq_iff_eq]
  split_ifs with hquote hslash hback htab hline hform hreturn hcontrol
  · exact .inl ⟨['"'], rfl, fun rest => by rw [hquote]; rfl⟩
  · exact .inl ⟨['\\'], rfl, fun rest => by rw [hslash]; rfl⟩
  · exact .inl ⟨['b'], rfl, fun rest => by rw [hback]; rfl⟩
  · exact .inl ⟨['t'], rfl, fun rest => by rw [htab]; rfl⟩
  · exact .inl ⟨['n'], rfl, fun rest => by rw [hline]; rfl⟩
  · exact .inl ⟨['f'], rfl, fun rest => by rw [hform]; rfl⟩
  · exact .inl ⟨['r'], rfl, fun rest => by rw [hreturn]; rfl⟩
  · exact .inl ⟨_, rfl, parseEscape_control hcontrol⟩
  · exact .inr ⟨rfl, hquote, hslash, hcontrol⟩

theorem parseChars_escapeChar (c : Char) (fuel : Nat) (rest : List Char) :
    parseChars (fuel + 1) (escapeChar c ++ rest) =
      (parseChars fuel rest).map fun read => (c :: read.1, read.2) := by
  rcases escapeChar_cases c with ⟨text, htext, hescape⟩ | ⟨hc, hquote, hslash, hcontrol⟩
  · rw [htext, List.cons_append, parseChars]
    cases hread : parseChars fuel rest <;> simp [hescape, hread]
  · rw [hc, List.singleton_append, parseChars]
    cases hread : parseChars fuel rest <;> simp [hquote, hslash, hcontrol, hread]

theorem parseChars_printed {fuel : Nat} (text rest : List Char) (h : text.length < fuel) :
    parseChars fuel (text.flatMap escapeChar ++ '"' :: rest) = some (text, rest) := by
  induction text generalizing fuel with
  | nil =>
      obtain ⟨fuel, rfl⟩ : ∃ n, fuel = n + 1 := ⟨fuel - 1, by simp at h; omega⟩
      rfl
  | cons c text ih =>
      obtain ⟨fuel, rfl⟩ : ∃ n, fuel = n + 1 := ⟨fuel - 1, by omega⟩
      rw [List.flatMap_cons, List.append_assoc, parseChars_escapeChar,
        ih (by simpa using h), Option.map_some]

theorem length_le_length_escaped (text : List Char) :
    text.length ≤ (text.flatMap escapeChar).length := by
  induction text with
  | nil => exact Nat.le_refl 0
  | cons c text ih =>
      have hpos : 0 < (escapeChar c).length := by
        rcases escapeChar_cases c with ⟨text, htext, -⟩ | ⟨hc, -⟩
        · simp [htext]
        · simp [hc]
      rw [List.flatMap_cons, List.length_append, List.length_cons]
      omega

theorem parseString_printed (text : String) (rest : List Char) :
    parseString (text.toList.flatMap escapeChar ++ '"' :: rest) = some (text, rest) := by
  have hlength := length_le_length_escaped text.toList
  rw [parseString, parseChars_printed]
  · simp
  · rw [List.length_append]
    omega

/-! ## Numbers -/

/-- A number that stands before this text ends there. -/
def EndsNumber (rest : List Char) : Prop :=
  ∀ c ∈ rest.head?, c.isDigit = false ∧ c ≠ '.' ∧ c ≠ 'e' ∧ c ≠ 'E'

variable {rest : List Char}

theorem ne_of_isDigit {c d : Char} (hc : c.isDigit = true) (hd : d.isDigit = false) : c ≠ d := by
  rintro rfl
  exact Bool.false_ne_true (hd.symm.trans hc)

theorem isBlank_of_isDigit {c : Char} (hc : c.isDigit = true) : isBlank c = false := by
  have hspace : c ≠ ' ' := ne_of_isDigit hc rfl
  have htab : c ≠ '\t' := ne_of_isDigit hc rfl
  have hline : c ≠ '\n' := ne_of_isDigit hc rfl
  have hreturn : c ≠ '\r' := ne_of_isDigit hc rfl
  simp [isBlank, hspace, htab, hline, hreturn]

theorem parseDigits_append {digits : List Char} (hdigits : ∀ c ∈ digits, c.isDigit = true)
    (hne : digits ≠ []) (hrest : EndsNumber rest) :
    parseDigits (digits ++ rest) = some (digits, rest) := by
  have htake : rest.takeWhile Char.isDigit = [] := by
    cases rest with
    | nil => rfl
    | cons c rest => simp [(hrest c rfl).1]
  have hdrop : rest.dropWhile Char.isDigit = rest := by
    cases rest with
    | nil => rfl
    | cons c rest => simp [(hrest c rfl).1]
  rw [parseDigits, List.takeWhile_append_of_pos hdigits, List.dropWhile_append_of_pos hdigits,
    htake, hdrop, List.append_nil]
  cases digits with
  | nil => exact absurd rfl hne
  | cons c digits => rfl

/-- Only zero is written with a zero at its head. -/
theorem head?_toDigits_ne_zero {n : Nat} (hn : n ≠ 0) : (Nat.toDigits 10 n).head? ≠ some '0' := by
  induction n using Nat.strongRecOn with
  | ind n ih =>
      rw [Nat.toDigits_eq_if (by decide)]
      split
      · rename_i hlt
        have hdigit : ∀ d < 10, d ≠ 0 → Nat.digitChar d ≠ '0' := by decide
        simpa using hdigit n hlt hn
      · have hquotient := ih (n / 10) (by omega) (by omega)
        obtain ⟨c, digits, hdigits⟩ := List.exists_cons_of_ne_nil
          (@Nat.toDigits_ne_nil (n / 10) 10)
        rw [hdigits] at hquotient ⊢
        exact hquotient

theorem exists_toDigits_eq_cons (n : Nat) :
    ∃ c digits, Nat.toDigits 10 n = c :: digits ∧ c.isDigit = true ∧ (n ≠ 0 → c ≠ '0') := by
  obtain ⟨c, digits, hdigits⟩ := List.exists_cons_of_ne_nil (@Nat.toDigits_ne_nil n 10)
  have hmem : c ∈ Nat.toDigits 10 n := by simp [hdigits]
  have hhead : n ≠ 0 → c ≠ '0' := fun hn => by simpa [hdigits] using head?_toDigits_ne_zero hn
  exact ⟨c, digits, hdigits, Nat.isDigit_of_mem_toDigits (by decide) (by decide) hmem, hhead⟩

theorem parseWhole_toDigits (n : Nat) (hrest : EndsNumber rest) :
    parseWhole (Nat.toDigits 10 n ++ rest) = some (Nat.toDigits 10 n, rest) := by
  by_cases hn : n = 0
  · subst hn
    rfl
  · have hdigits : ∀ c ∈ Nat.toDigits 10 n, c.isDigit = true := fun c hc =>
      Nat.isDigit_of_mem_toDigits (by decide) (by decide) hc
    have hread := parseDigits_append hdigits Nat.toDigits_ne_nil hrest
    obtain ⟨c, digits, heq, -, hzero⟩ := exists_toDigits_eq_cons n
    rw [heq, List.cons_append] at hread ⊢
    simpa [parseWhole, hzero hn] using hread

theorem parseFraction_none (hrest : EndsNumber rest) : parseFraction rest = some ([], rest) := by
  cases rest with
  | nil => rfl
  | cons c rest => simp [parseFraction, (hrest c rfl).2]

theorem parseExponent_none (hrest : EndsNumber rest) : parseExponent rest = some ([], rest) := by
  cases rest with
  | nil => rfl
  | cons c rest => simp [parseExponent, (hrest c rfl).2]

theorem parseNumber_toDigits (n : Nat) (hrest : EndsNumber rest) :
    parseNumber (Nat.toDigits 10 n ++ rest) = some (ofNat n, rest) := by
  obtain ⟨c, digits, hdigits, hc, -⟩ := exists_toDigits_eq_cons n
  have hminus : c ≠ '-' := ne_of_isDigit hc rfl
  have hnumber : ofNat n = number (String.ofList (c :: digits)) := by
    rw [ofNat, Nat.toString_eq_ofList_toDigits, hdigits]
  have hwhole := parseWhole_toDigits n hrest
  rw [hdigits, List.cons_append] at hwhole ⊢
  simp [parseNumber, hminus, hwhole, parseFraction_none hrest, parseExponent_none hrest, hnumber]

/-! ## Values -/

theorem skipBlanks_newLine (level : Nat) (rest : List Char) :
    skipBlanks (newLine level ++ rest) = skipBlanks rest := by
  have hblank : ∀ c ∈ newLine level, isBlank c = true := by
    intro c hc
    rcases List.mem_cons.1 hc with rfl | hc
    · rfl
    · rw [List.eq_of_mem_replicate hc]
      rfl
  exact List.dropWhile_append_of_pos hblank

theorem skipBlanks_cons {c : Char} (hc : isBlank c = false) (rest : List Char) :
    skipBlanks (c :: rest) = c :: rest := by
  simp [skipBlanks, hc]

@[simp] theorem length_newLine (level : Nat) : (newLine level).length = 2 * level + 1 := by
  simp [newLine]

theorem parseValue_newLine (fuel level : Nat) (rest : List Char) :
    parseValue fuel (newLine level ++ rest) = parseValue fuel rest := by
  cases fuel with
  | zero => rfl
  | succ fuel => rw [parseValue, parseValue, skipBlanks_newLine]

theorem parseValue_space (fuel : Nat) (rest : List Char) :
    parseValue fuel (' ' :: rest) = parseValue fuel rest := by
  cases fuel with
  | zero => rfl
  | succ fuel => rfl

/-- The value is read back from its printed form, with any fuel above the length of that. -/
structure ReadsBack (value : Json) : Prop where
  starts (level : Nat) :
    ∃ c text, print level value = c :: text ∧ isBlank c = false ∧ c ≠ ']'
  reads {level fuel : Nat} {rest : List Char} (hfuel : (print level value).length < fuel)
    (hrest : EndsNumber rest) : parseValue fuel (print level value ++ rest) = some (value, rest)

theorem ReadsBack.null : null.ReadsBack where
  starts _ := ⟨'n', "ull".toList, rfl, rfl, by decide⟩
  reads {_ fuel rest} hfuel _ := by
    cases fuel with
    | zero => cases hfuel
    | succ fuel => rfl

theorem ReadsBack.bool (value : Bool) : (Json.bool value).ReadsBack where
  starts _ := by
    cases value
    · exact ⟨'f', "alse".toList, rfl, rfl, by decide⟩
    · exact ⟨'t', "rue".toList, rfl, rfl, by decide⟩
  reads {_ fuel rest} hfuel _ := by
    cases fuel with
    | zero => cases hfuel
    | succ fuel => cases value <;> rfl

theorem ReadsBack.string (text : String) : (Json.string text).ReadsBack where
  starts _ := ⟨'"', _, rfl, rfl, by decide⟩
  reads {level fuel rest} hfuel _ := by
    cases fuel with
    | zero => cases hfuel
    | succ fuel =>
        have hstart : isBlank '"' = false := rfl
        rw [print, printString, List.cons_append, parseValue, skipBlanks_cons hstart]
        simp [parseString_printed]

theorem parseValue_digit {c : Char} (hc : c.isDigit = true) (fuel : Nat) (text : List Char) :
    parseValue (fuel + 1) (c :: text) = parseNumber (c :: text) := by
  have hnull : c ≠ 'n' := ne_of_isDigit hc rfl
  have htrue : c ≠ 't' := ne_of_isDigit hc rfl
  have hfalse : c ≠ 'f' := ne_of_isDigit hc rfl
  have hquote : c ≠ '"' := ne_of_isDigit hc rfl
  have harray : c ≠ '[' := ne_of_isDigit hc rfl
  have hobject : c ≠ '\x7b' := ne_of_isDigit hc rfl
  rw [parseValue, skipBlanks_cons (isBlank_of_isDigit hc)]
  simp [hnull, htrue, hfalse, hquote, harray, hobject]

theorem ReadsBack.ofNat (n : Nat) : (Json.ofNat n).ReadsBack := by
  obtain ⟨c, digits, hdigits, hc, -⟩ := exists_toDigits_eq_cons n
  have hprint (level : Nat) : print level (.ofNat n) = c :: digits := by
    rw [Json.ofNat, print, Nat.toString_eq_ofList_toDigits, String.toList_ofList, hdigits]
  constructor
  · exact fun level => ⟨c, digits, hprint level, isBlank_of_isDigit hc, ne_of_isDigit hc rfl⟩
  · intro level fuel rest hfuel hrest
    cases fuel with
    | zero => cases hfuel
    | succ fuel =>
        have hnumber := parseNumber_toDigits n hrest
        rw [hdigits, List.cons_append] at hnumber
        rw [hprint, List.cons_append, parseValue_digit hc, hnumber]

/-! ## Arrays and objects -/

/-- No number runs on into the further items of an array. -/
theorem endsNumber_printItems (level outer : Nat) (items : List Json) (rest : List Char) :
    EndsNumber (printItems level items ++ (newLine outer ++ rest)) := by
  cases items with
  | nil => simp [EndsNumber, printItems, newLine]
  | cons item items => simp [EndsNumber, printItems]

theorem endsNumber_printMembers (level outer : Nat) (members : List (String × Json))
    (rest : List Char) : EndsNumber (printMembers level members ++ (newLine outer ++ rest)) := by
  cases members with
  | nil => simp [EndsNumber, printMembers, newLine]
  | cons member members => simp [EndsNumber, printMembers]

theorem parseItems_printed {item : Json} {items : List Json} (hitem : item.ReadsBack)
    (hitems : ∀ item ∈ items, item.ReadsBack) (level outer : Nat) {fuel : Nat} (rest : List Char)
    (hfuel : (print level item ++ printItems level items).length + 1 < fuel) :
    parseItems fuel (newLine level ++ (print level item ++ (printItems level items ++
      (newLine outer ++ ']' :: rest)))) = some (item :: items, rest) := by
  have hclose : skipBlanks (newLine outer ++ ']' :: rest) = ']' :: rest :=
    skipBlanks_newLine outer (']' :: rest)
  induction items generalizing item fuel with
  | nil =>
      obtain ⟨fuel, rfl⟩ : ∃ n, fuel = n + 1 := ⟨fuel - 1, by omega⟩
      rw [printItems, List.append_nil] at hfuel
      have hread := hitem.reads (Nat.lt_of_succ_lt_succ hfuel)
        (endsNumber_printItems level outer [] (']' :: rest))
      rw [parseItems, parseValue_newLine, hread]
      simp [printItems, hclose]
  | cons next items ih =>
      obtain ⟨fuel, rfl⟩ : ∃ n, fuel = n + 1 := ⟨fuel - 1, by omega⟩
      rw [List.forall_mem_cons] at hitems
      simp only [printItems, List.length_append, List.length_cons] at hfuel
      have hitemFuel : (print level item).length < fuel := by omega
      have hothersFuel : (print level next ++ printItems level items).length + 1 < fuel := by
        rw [List.length_append]
        omega
      have hread := hitem.reads hitemFuel
        (endsNumber_printItems level outer (next :: items) (']' :: rest))
      have hothers := ih hitems.1 hitems.2 hothersFuel
      have hcomma : isBlank ',' = false := rfl
      rw [parseItems, parseValue_newLine, hread]
      simp [printItems, skipBlanks_cons hcomma, hothers]

theorem parseMembers_printed {key : String} {value : Json} {members : List (String × Json)}
    (hvalue : value.ReadsBack) (hmembers : ∀ member ∈ members, member.2.ReadsBack)
    (level outer : Nat) {fuel : Nat} (rest : List Char)
    (hfuel : (print level value ++ printMembers level members).length + 1 < fuel) :
    parseMembers fuel (newLine level ++ (printString key ++ (':' :: ' ' :: (print level value ++
      (printMembers level members ++ (newLine outer ++ '\x7d' :: rest)))))) =
        some ((key, value) :: members, rest) := by
  have hquote : isBlank '"' = false := rfl
  have hcolon : isBlank ':' = false := rfl
  have hclose : skipBlanks (newLine outer ++ '\x7d' :: rest) = '\x7d' :: rest :=
    skipBlanks_newLine outer ('\x7d' :: rest)
  induction members generalizing key value fuel with
  | nil =>
      obtain ⟨fuel, rfl⟩ : ∃ n, fuel = n + 1 := ⟨fuel - 1, by omega⟩
      rw [printMembers, List.append_nil] at hfuel
      have hread := hvalue.reads (Nat.lt_of_succ_lt_succ hfuel)
        (endsNumber_printMembers level outer [] ('\x7d' :: rest))
      rw [parseMembers, skipBlanks_newLine, printString, List.cons_append, skipBlanks_cons hquote]
      simp only [List.append_assoc, List.cons_append, List.nil_append, parseString_printed,
        Option.pure_def, Option.bind_eq_bind, Option.bind_some, skipBlanks_cons hcolon,
        parseValue_space, hread]
      simp [printMembers, hclose]
  | cons next members ih =>
      obtain ⟨fuel, rfl⟩ : ∃ n, fuel = n + 1 := ⟨fuel - 1, by omega⟩
      rw [List.forall_mem_cons] at hmembers
      simp only [printMembers, List.length_append, List.length_cons] at hfuel
      have hvalueFuel : (print level value).length < fuel := by omega
      have hothersFuel : (print level next.2 ++ printMembers level members).length + 1 < fuel := by
        rw [List.length_append]
        omega
      have hread := hvalue.reads hvalueFuel
        (endsNumber_printMembers level outer (next :: members) ('\x7d' :: rest))
      have hothers := @ih next.1 next.2 hmembers.1 hmembers.2 fuel hothersFuel
      have hcomma : isBlank ',' = false := rfl
      rw [parseMembers, skipBlanks_newLine, printString, List.cons_append, skipBlanks_cons hquote]
      simp only [List.append_assoc, List.cons_append, List.nil_append, parseString_printed,
        Option.pure_def, Option.bind_eq_bind, Option.bind_some, skipBlanks_cons hcolon,
        parseValue_space, hread]
      simp [printMembers, skipBlanks_cons hcomma, hothers]

theorem parseValue_bracket {c : Char} {text rest : List Char} (h : skipBlanks text = c :: rest)
    (hc : c ≠ ']') (fuel : Nat) :
    parseValue (fuel + 1) ('[' :: text) =
      (parseItems fuel text).map fun read => (array read.1, read.2) := by
  have hopen : isBlank '[' = false := rfl
  rw [parseValue, skipBlanks_cons hopen]
  cases hread : parseItems fuel text <;> simp [h, hc, hread]

theorem parseValue_brace {c : Char} {text rest : List Char} (h : skipBlanks text = c :: rest)
    (hc : c ≠ '\x7d') (fuel : Nat) :
    parseValue (fuel + 1) ('\x7b' :: text) =
      (parseMembers fuel text).map fun read => (object read.1, read.2) := by
  have hopen : isBlank '\x7b' = false := rfl
  rw [parseValue, skipBlanks_cons hopen]
  cases hread : parseMembers fuel text <;> simp [h, hc, hread]

theorem ReadsBack.array {items : List Json} (h : ∀ item ∈ items, item.ReadsBack) :
    (Json.array items).ReadsBack := by
  cases items with
  | nil =>
      refine ⟨fun _ => ⟨'[', [']'], by simp [print], rfl, by decide⟩, ?_⟩
      intro level fuel rest hfuel _
      cases fuel with
      | zero => cases hfuel
      | succ fuel => rw [print]; rfl
  | cons item items =>
      rw [List.forall_mem_cons] at h
      refine ⟨fun level => ⟨'[', _, by rw [print], rfl, by decide⟩, ?_⟩
      intro level fuel rest hfuel _
      cases fuel with
      | zero => cases hfuel
      | succ fuel =>
          obtain ⟨c, text, hitem, hblank, hbracket⟩ := h.1.starts (level + 1)
          have hfirst (rest : List Char) : skipBlanks (newLine (level + 1) ++
              (print (level + 1) item ++ rest)) = c :: (text ++ rest) := by
            rw [skipBlanks_newLine, hitem, List.cons_append, skipBlanks_cons hblank]
          have hitemsFuel : (print (level + 1) item ++ printItems (level + 1) items).length + 1 <
              fuel := by
            simp only [print, List.length_cons, List.length_append, length_newLine] at hfuel
            rw [List.length_append]
            omega
          have hread := parseItems_printed h.1 h.2 (level + 1) level rest hitemsFuel
          simp [print, parseValue_bracket (hfirst _) hbracket, hread]

theorem ReadsBack.object {members : List (String × Json)}
    (h : ∀ member ∈ members, member.2.ReadsBack) : (Json.object members).ReadsBack := by
  cases members with
  | nil =>
      refine ⟨fun _ => ⟨'\x7b', ['\x7d'], by simp [print], rfl, by decide⟩, ?_⟩
      intro level fuel rest hfuel _
      cases fuel with
      | zero => cases hfuel
      | succ fuel => rw [print]; rfl
  | cons member members =>
      rw [List.forall_mem_cons] at h
      refine ⟨fun level => ⟨'\x7b', _, by rw [print], rfl, by decide⟩, ?_⟩
      intro level fuel rest hfuel _
      cases fuel with
      | zero => cases hfuel
      | succ fuel =>
          have hquote : isBlank '"' = false := rfl
          have hfirst (rest : List Char) : skipBlanks (newLine (level + 1) ++
              (printString member.1 ++ rest)) =
              '"' :: ((member.1.toList.flatMap escapeChar ++ ['"']) ++ rest) := by
            rw [skipBlanks_newLine, printString, List.cons_append, skipBlanks_cons hquote]
          have hmembersFuel : (print (level + 1) member.2 ++
              printMembers (level + 1) members).length + 1 < fuel := by
            simp only [print, List.length_cons, List.length_append, length_newLine] at hfuel
            rw [List.length_append]
            omega
          have hread := @parseMembers_printed member.1 _ _ h.1 h.2 (level + 1) level _ rest
            hmembersFuel
          simp [print, parseValue_brace (hfirst _) (by decide), hread]

/-! ## Documents -/

/-- A document that is printed as a text of lines is read back, and with it the whole text. -/
theorem ReadsBack.parse?_render {document : Json} (h : document.ReadsBack) :
    parse? (document.render ++ "\n") = some document := by
  have htext : (document.render ++ "\n").toList = print 0 document ++ ['\n'] := by
    simp [render]
  have hfuel : (print 0 document).length < (print 0 document ++ ['\n']).length + 1 := by
    rw [List.length_append]
    omega
  have hends : EndsNumber ['\n'] := by simp [EndsNumber]
  have hblank : (skipBlanks ['\n']).isEmpty = true := rfl
  rw [parse?, htext, h.reads hfuel hends]
  simp only [Option.bind_eq_bind, Option.bind_some, if_pos hblank, Option.pure_def]

end ClassSelection.Json
