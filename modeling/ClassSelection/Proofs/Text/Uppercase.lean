import ClassSelection.Text.Uppercase

/-!
# Capital letters are final

The capital form of a text has no letter that has a capital again, so
`uppercase` is idempotent, and a capital that differs from its letter is no mark
such as a quote or a line break.  For letters outside ASCII this rests on the
table: no capital in it is one of its letters.
-/

namespace ClassSelection.Text

/-! ## The table -/

def CaseRun.span (run : CaseRun) : Nat :=
  run.last - run.first

/-- No capital of the run is a letter of the other run: it lies before or behind it, or between two
of its letters. -/
def CaseRun.avoids (run other : CaseRun) : Bool :=
  Nat.blt (run.capital + run.span) other.first || Nat.blt other.last run.capital ||
    (other.step == 2 && (run.step == 2 || run.span == 0) && (run.capital + other.first) % 2 == 1)

def CaseRun.misses (run : CaseRun) (code : Nat) : Bool :=
  Nat.blt code run.capital || Nat.blt (run.capital + run.span) code

def CaseRun.inRange (run : CaseRun) : Bool :=
  Nat.ble 0x41 run.capital &&
    (Nat.ble (run.capital + run.span) 0x5A ||
      Nat.ble 0x80 run.capital && Nat.blt (run.capital + run.span) 0xD800 ||
      Nat.blt 0xDFFF run.capital && Nat.blt (run.capital + run.span) 0x110000)

def capitalRuns : List CaseRun :=
  caseRuns ++ expandingCapitals.flatMap fun entry => entry.2.map fun code => ⟨code, code, 1, code⟩

theorem avoids_caseRuns : (capitalRuns.all fun run => caseRuns.all run.avoids) = true := by
  decide +kernel

theorem misses_expandingCapitals :
    (capitalRuns.all fun run => expandingCapitals.all fun entry => run.misses entry.1) = true := by
  decide +kernel

theorem inRange_capitalRuns : (capitalRuns.all CaseRun.inRange) = true := by
  decide +kernel

/-- A code that is a capital letter of ASCII, or outside ASCII and of no letter in the table. -/
structure IsCapital (code : Nat) : Prop where
  isValid : code.isValidChar
  ge : 0x41 ≤ code
  le_of_lt : code < 0x80 → code ≤ 0x5A
  holds : ∀ run ∈ caseRuns, run.holds code = false
  ne : ∀ entry ∈ expandingCapitals, entry.1 ≠ code

theorem holds_eq_false_of_avoids {run other : CaseRun} {code : Nat} (h : run.avoids other = true)
    (hcode : run.holds code = true) :
    other.holds (run.capital + (code - run.first)) = false := by
  simp only [CaseRun.avoids, CaseRun.holds, CaseRun.span, Bool.or_eq_true, Bool.and_eq_true,
    Nat.blt_eq, decide_eq_true_eq, beq_iff_eq, Bool.and_eq_false_iff, decide_eq_false_iff_not,
    beq_eq_false_iff_ne] at h hcode ⊢
  obtain ⟨⟨hfirst, hlast⟩, hstep⟩ := hcode
  rcases h with (h | h) | ⟨⟨hother, hrun⟩, hparity⟩
  · omega
  · omega
  · -- the distance from the first capital is even, that to the first letter of the other run odd
    have heven : (code - run.first) % 2 = 0 := by
      rcases hrun with hrun | hspan
      · rwa [hrun] at hstep
      · omega
    rw [hother]
    omega

theorem isCapital_of_holds {run : CaseRun} {code : Nat} (hrun : run ∈ capitalRuns)
    (hcode : run.holds code = true) : IsCapital (run.capital + (code - run.first)) := by
  have hrange := List.all_eq_true.1 inRange_capitalRuns run hrun
  have hbounds : code - run.first ≤ run.span := by
    simp only [CaseRun.holds, Bool.and_eq_true, decide_eq_true_eq] at hcode
    simp only [CaseRun.span]
    omega
  simp only [CaseRun.inRange, Bool.and_eq_true, Bool.or_eq_true, Nat.ble_eq, Nat.blt_eq] at hrange
  constructor
  · unfold Nat.isValidChar
    omega
  · omega
  · omega
  · intro other hother
    have havoids := List.all_eq_true.1 (List.all_eq_true.1 avoids_caseRuns run hrun) other hother
    exact holds_eq_false_of_avoids havoids hcode
  · intro entry hentry
    have hmisses := List.all_eq_true.1
      (List.all_eq_true.1 misses_expandingCapitals run hrun) entry hentry
    simp only [CaseRun.misses, Bool.or_eq_true, Nat.blt_eq] at hmisses
    omega

theorem isCapital_of_mem {entry : Nat × List Nat} {code : Nat} (hentry : entry ∈ expandingCapitals)
    (hcode : code ∈ entry.2) : IsCapital code := by
  have hrun : ⟨code, code, 1, code⟩ ∈ capitalRuns :=
    List.mem_append_right _ (List.mem_flatMap.2 ⟨entry, hentry, List.mem_map.2 ⟨code, hcode, rfl⟩⟩)
  have hcode : CaseRun.holds ⟨code, code, 1, code⟩ code = true := by simp [CaseRun.holds]
  simpa using isCapital_of_holds hrun hcode

/-! ## Characters -/

theorem toNat_ofNat {code : Nat} (h : code.isValidChar) : (Char.ofNat code).toNat = code := by
  unfold Char.ofNat
  rw [dif_pos h]
  rfl

/-- What holds of the 128 characters of ASCII, one by one. -/
theorem of_ascii {P : Char → Prop} (h : ∀ code < 0x80, P (Char.ofNat code)) {c : Char}
    (hc : c.toNat < 0x80) : P c := by
  have hcode := h c.toNat hc
  rwa [Char.ofNat_toNat] at hcode

theorem toLower_of_ge {c : Char} (h : 0x80 ≤ c.toNat) : c.toLower = c := by
  unfold Char.toLower
  rw [dif_neg]
  rintro ⟨-, hle⟩
  have hcode : c.toNat ≤ 'Z'.toNat := hle
  have hz : 'Z'.toNat < 0x80 := by decide
  omega

theorem apply_toLower {β : Type} {f : Char → β}
    (h : ∀ code < 0x80, f (Char.ofNat code).toLower = f (Char.ofNat code)) (c : Char) :
    f c.toLower = f c := by
  by_cases hascii : c.toNat < 0x80
  · exact of_ascii (P := fun c => f c.toLower = f c) h hascii
  · rw [toLower_of_ge (Nat.not_lt.1 hascii)]

theorem IsCapital.capital_ofNat {code : Nat} (h : IsCapital code) :
    capital (Char.ofNat code) = [Char.ofNat code] := by
  unfold capital
  simp only [toNat_ofNat h.isValid]
  by_cases hascii : code < 0x80
  · have hle := h.le_of_lt hascii
    have hletter : (decide (0x61 ≤ code) && decide (code ≤ 0x7A)) = false := by
      simp only [Bool.and_eq_false_iff, decide_eq_false_iff_not]
      omega
    rw [if_pos hascii, hletter]
    rfl
  · have hfind : caseRuns.find? (·.holds code) = none := by
      simpa [List.find?_eq_none] using h.holds
    have hlookup : expandingCapitals.lookup code = none :=
      List.lookup_eq_none_iff.2 fun entry hentry => bne_iff_ne.2 (h.ne entry hentry).symm
    rw [if_neg hascii, hfind, hlookup]

theorem capital_of_lt {c : Char} (h : c.toNat < 0x80) : capital c = [c.toUpper] :=
  of_ascii (P := fun c => capital c = [c.toUpper]) (by decide) h

/-- Outside ASCII a capital is the character itself or one from the table. -/
theorem capital_of_ge {c : Char} (h : 0x80 ≤ c.toNat) :
    capital c = [c] ∨
      ∃ codes : List Nat, capital c = codes.map Char.ofNat ∧ ∀ code ∈ codes, IsCapital code := by
  unfold capital
  simp only [if_neg (Nat.not_lt.2 h)]
  split
  · rename_i run hfind
    have hrun : run ∈ capitalRuns := List.mem_append_left _ (List.mem_of_find?_eq_some hfind)
    have hholds : run.holds c.toNat = true := by simpa using List.find?_some hfind
    refine .inr ⟨[run.capital + (c.toNat - run.first)], rfl, ?_⟩
    simpa using isCapital_of_holds hrun hholds
  · split
    · rename_i codes hlookup
      obtain ⟨before, after, hsplit, -⟩ := List.lookup_eq_some_iff.1 hlookup
      have hentry : (c.toNat, codes) ∈ expandingCapitals := by simp [hsplit]
      exact .inr ⟨codes, rfl, fun code hcode => isCapital_of_mem hentry hcode⟩
    · exact .inl rfl

/-- A capital has no other capital. -/
theorem capital_of_mem_capital {c d : Char} (h : d ∈ capital c) : capital d = [d] := by
  by_cases hascii : c.toNat < 0x80
  · rw [capital_of_lt hascii, List.mem_singleton] at h
    rw [h]
    exact of_ascii (P := fun c => capital c.toUpper = [c.toUpper]) (by decide) hascii
  · rcases capital_of_ge (Nat.not_lt.1 hascii) with hself | ⟨codes, hcodes, hcapitals⟩
    · rw [hself, List.mem_singleton] at h
      rw [h, hself]
    · rw [hcodes] at h
      obtain ⟨code, hcode, rfl⟩ := List.mem_map.1 h
      exact (hcapitals code hcode).capital_ofNat

/-- A character before the letters, such as a quote or a line break, is the capital of itself
alone. -/
theorem eq_of_mem_capital {c d : Char} (h : d ∈ capital c) (hd : d.toNat < 0x41) : d = c := by
  by_cases hascii : c.toNat < 0x80
  · rw [capital_of_lt hascii, List.mem_singleton] at h
    rw [h] at hd ⊢
    exact of_ascii (P := fun c => c.toUpper.toNat < 0x41 → c.toUpper = c) (by decide) hascii hd
  · rcases capital_of_ge (Nat.not_lt.1 hascii) with hself | ⟨codes, hcodes, hcapitals⟩
    · rw [hself] at h
      exact List.mem_singleton.1 h
    · rw [hcodes] at h
      obtain ⟨code, hcode, rfl⟩ := List.mem_map.1 h
      have hge := (hcapitals code hcode).ge
      rw [toNat_ofNat (hcapitals code hcode).isValid] at hd
      omega

/-! ## Texts -/

@[simp] theorem uppercase_cons (c : Char) (text : List Char) :
    uppercase (c :: text) = capital c ++ uppercase text := rfl

theorem uppercase_eq_self {text : List Char} (h : ∀ c ∈ text, capital c = [c]) :
    uppercase text = text := by
  induction text with
  | nil => rfl
  | cons c text ih =>
      rw [uppercase_cons, h c List.mem_cons_self, ih fun d hd => h d (List.mem_cons_of_mem c hd)]
      rfl

@[simp] theorem uppercase_uppercase (text : List Char) :
    uppercase (uppercase text) = uppercase text := by
  refine uppercase_eq_self fun d hd => ?_
  obtain ⟨c, -, hc⟩ := List.mem_flatMap.1 hd
  exact capital_of_mem_capital hc

theorem uppercase_of_ascii {text : List Char} (h : ∀ c ∈ text, c.toNat < 0x80) :
    uppercase text = text.map Char.toUpper := by
  induction text with
  | nil => rfl
  | cons c text ih =>
      rw [uppercase_cons, capital_of_lt (h c List.mem_cons_self),
        ih fun d hd => h d (List.mem_cons_of_mem c hd)]
      rfl

theorem uppercase_map_toLower (text : List Char) :
    uppercase (text.map Char.toLower) = uppercase text := by
  have hcapital (c : Char) : capital c.toLower = capital c := apply_toLower (by decide) c
  simp [uppercase, List.flatMap_map, hcapital]

end ClassSelection.Text
