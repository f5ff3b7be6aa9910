import ClassSelection.Proofs.Text.Uppercase
import ClassSelection.Table.Unfold
import ClassSelection.Text.Encoding
import Mathlib.Data.List.Basic

/-!
# The two encodings of a source

In UTF-8 a character beyond ASCII begins with a byte of `0xC0` or more.  So the
ISO-8859-1 bytes of a text without such characters are no UTF-8 once one of them
is beyond ASCII, and a text is the same from either encoding
(`decode_of_encodings`).
-/

namespace ClassSelection.Text

def encodeLatin1 (text : String) : ByteArray :=
  ⟨(text.toList.map fun c => UInt8.ofNat c.toNat).toArray⟩

/-! ## UTF-8 -/

theorem utf8EncodeChar_of_lt {c : Char} (h : c.toNat < 0x80) :
    String.utf8EncodeChar c = [UInt8.ofNat c.toNat] := by
  have hc : c.val.toNat ≤ 127 := Nat.le_of_lt_succ h
  simp only [String.utf8EncodeChar, hc, if_true]
  rfl

/-- A character beyond ASCII begins with a byte that continues none. -/
theorem exists_first_utf8EncodeChar {c : Char} (h : 0x80 ≤ c.toNat) :
    ∃ byte ∈ String.utf8EncodeChar c, 0xC0 ≤ byte.toNat := by
  have hc : ¬c.val.toNat ≤ 127 := Nat.not_le_of_lt h
  simp only [String.utf8EncodeChar, if_neg hc]
  have hbyte (lead bits : Nat) (hlead : 0xC0 ≤ lead) (hbits : lead + bits ≤ 0xFF) (low : Nat) :
      0xC0 ≤ (UInt8.ofNat (low % (bits + 1) + lead)).toNat := by
    have hlow : low % (bits + 1) < bits + 1 := Nat.mod_lt _ (Nat.succ_pos _)
    rw [UInt8.toNat_ofNat_of_lt' (by change _ < 256; omega)]
    omega
  split
  · exact ⟨_, List.mem_cons_self, hbyte 192 31 (by decide) (by decide) _⟩
  · split
    · exact ⟨_, List.mem_cons_self, hbyte 224 15 (by decide) (by decide) _⟩
    · exact ⟨_, List.mem_cons_self, hbyte 240 7 (by decide) (by decide) _⟩

theorem decode_toUTF8 (text : String) : decode text.toUTF8 = text := by
  rw [decode, String.fromUTF8?, String.toUTF8_eq_toByteArray, dif_pos text.isValidUTF8]
  rfl

/-- Bytes that are all ASCII or continue a character are no UTF-8, unless they are all ASCII. -/
theorem not_isValidUTF8 {bytes : ByteArray} (h : ∀ byte ∈ bytes.data.toList, byte.toNat < 0xC0)
    {high : UInt8} (hmem : high ∈ bytes.data.toList) (hhigh : 0x80 ≤ high.toNat) :
    ¬bytes.IsValidUTF8 := by
  rintro ⟨chars, rfl⟩
  rw [List.utf8Encode, List.data_toByteArray] at h hmem
  obtain ⟨c, hc, hbyte⟩ := List.mem_flatMap.1 hmem
  by_cases hascii : c.toNat < 0x80
  · rw [utf8EncodeChar_of_lt hascii] at hbyte
    obtain rfl := List.mem_singleton.1 hbyte
    rw [UInt8.toNat_ofNat_of_lt' (by change _ < 256; omega)] at hhigh
    omega
  · obtain ⟨first, hfirst, hlarge⟩ := exists_first_utf8EncodeChar (Nat.le_of_not_lt hascii)
    have hsmall := h first (List.mem_flatMap.2 ⟨c, hc, hfirst⟩)
    omega

/-! ## ISO-8859-1 -/

theorem decode_of_not_isValidUTF8 {bytes : ByteArray} (h : ¬bytes.IsValidUTF8) :
    decode bytes = decodeLatin1 bytes.data.toList := by
  rw [decode, String.fromUTF8?, dif_neg h]

theorem codes_decodeLatin1 (bytes : List UInt8) :
    (decodeLatin1 bytes).toList.map Char.toNat = bytes.map UInt8.toNat := by
  rw [decodeLatin1, String.toList_ofList, List.map_map]
  refine List.map_congr_left fun byte _ => ?_
  exact toNat_ofNat (.inl (Nat.lt_trans byte.toNat_lt (by decide)))

theorem decodeLatin1_encodeLatin1 {text : String} (h : ∀ c ∈ text.toList, c.toNat < 0x100) :
    decodeLatin1 (encodeLatin1 text).data.toList = text := by
  have hchars : text.toList.map (fun c => Char.ofNat (UInt8.ofNat c.toNat).toNat) =
      text.toList.map id := by
    refine List.map_congr_left fun c hc => ?_
    rw [UInt8.toNat_ofNat_of_lt' (h c hc), Char.ofNat_toNat, id_eq]
  rw [decodeLatin1, encodeLatin1, List.map_map]
  exact (congrArg String.ofList (hchars.trans (List.map_id _))).trans String.ofList_toList

theorem encodeLatin1_eq_toUTF8 {text : String} (h : ∀ c ∈ text.toList, c.toNat < 0x80) :
    encodeLatin1 text = text.toUTF8 := by
  have hbytes : text.toList.flatMap String.utf8EncodeChar =
      text.toList.map fun c => UInt8.ofNat c.toNat := by
    rw [List.map_eq_flatMap]
    exact List.flatMap_congr fun c hc => utf8EncodeChar_of_lt (h c hc)
  rw [String.toUTF8_eq_toByteArray, ← String.utf8Encode_toList, List.utf8Encode, hbytes]
  exact ByteArray.ext List.data_toByteArray.symm

theorem decode_encodeLatin1 {text : String} (h : ∀ c ∈ text.toList, c.toNat < 0xC0) :
    decode (encodeLatin1 text) = text := by
  by_cases hascii : ∀ c ∈ text.toList, c.toNat < 0x80
  · rw [encodeLatin1_eq_toUTF8 hascii, decode_toUTF8]
  · simp only [Classical.not_forall, Nat.not_lt] at hascii
    obtain ⟨c, hc, hhigh⟩ := hascii
    have hbyte (c : Char) (hc : c ∈ text.toList) : (UInt8.ofNat c.toNat).toNat = c.toNat :=
      UInt8.toNat_ofNat_of_lt' (Nat.lt_trans (h c hc) (by decide))
    have hinvalid : ¬(encodeLatin1 text).IsValidUTF8 := by
      refine not_isValidUTF8 ?_ (List.mem_map_of_mem hc) (by rwa [hbyte c hc])
      intro byte hmem
      obtain ⟨d, hd, rfl⟩ := List.mem_map.1 hmem
      rw [hbyte d hd]
      exact h d hd
    rw [decode_of_not_isValidUTF8 hinvalid]
    exact decodeLatin1_encodeLatin1 fun c hc => Nat.lt_trans (h c hc) (by decide)

/-- A text of characters below `U+00C0` is read from its bytes in either encoding, and so is the
same routine.  Bytes that are no UTF-8 are read one by one from the first. -/
theorem decode_of_encodings :
    (∀ text : String, (∀ c ∈ text.toList, c.toNat < 0xC0) →
      decode (encodeLatin1 text) = text ∧ decode text.toUTF8 = text ∧
      ∀ mode, DecisionTable.ofSource mode (decode (encodeLatin1 text)) =
        DecisionTable.ofSource mode (decode text.toUTF8)) ∧
    ∀ bytes : ByteArray, ¬bytes.IsValidUTF8 →
      (decode bytes).toList.map Char.toNat = bytes.data.toList.map UInt8.toNat := by
  refine ⟨fun text h => ?_, fun bytes h => ?_⟩
  · have hlatin1 := decode_encodeLatin1 h
    have hutf8 := decode_toUTF8 text
    exact ⟨hlatin1, hutf8, fun mode => by rw [hlatin1, hutf8]⟩
  · rw [decode_of_not_isValidUTF8 h, codes_decodeLatin1]

/-- The sign of negation is read from its one byte and from its two.  An accented letter in UTF-8 is
taken for two characters where a byte after it is no UTF-8. -/
theorem decode_of_notSign :
    (∀ c ∈ "&A ¬= 1".toList, c.toNat < 0xC0) ∧
    decode ⟨#[0x26, 0x41, 0x20, 0xAC, 0x3D, 0x20, 0x31]⟩ = "&A ¬= 1" ∧
    decode ⟨#[0x26, 0x41, 0x20, 0xC2, 0xAC, 0x3D, 0x20, 0x31]⟩ = "&A ¬= 1" ∧
    ¬(⟨#[0xC3, 0xA9, 0xC3, 0x28]⟩ : ByteArray).IsValidUTF8 ∧
    (decode ⟨#[0xC3, 0xA9, 0xC3, 0x28]⟩).toList.map Char.toNat = [0xC3, 0xA9, 0xC3, 0x28] := by
  have hbelow : ∀ c ∈ "&A ¬= 1".toList, c.toNat < 0xC0 := by simp
  have hbroken : ¬(⟨#[0xC3, 0xA9, 0xC3, 0x28]⟩ : ByteArray).IsValidUTF8 := by decide +kernel
  obtain ⟨hlatin1, hutf8, -⟩ := decode_of_encodings.1 _ hbelow
  exact ⟨hbelow, hlatin1, hutf8, hbroken, decode_of_encodings.2 _ hbroken⟩

end ClassSelection.Text
