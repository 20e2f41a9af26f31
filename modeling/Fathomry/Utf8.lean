import Fathomry.Bytes

/-!
# Texts in UTF-8

Whether bytes are a text in UTF-8 is decided by the library's own check, and
characterised by what it stands for: the bytes are the encodings of some
characters, one after the other (`validUTF8_iff`). An ASCII byte is a character
of its own, and occurs in the encoding of no other character – which is what
lets a program look for such bytes without decoding the text.
-/

namespace Bytes

/-- Whether the bytes are a text in UTF-8. -/
def validUTF8 (data : Bytes) : Bool := data.toByteArray.validateUTF8

/-- **A text is the encodings of its characters.** -/
theorem validUTF8_iff (data : Bytes) :
    data.validUTF8 = true ↔ ∃ chars : List Char, data = chars.flatMap String.utf8EncodeChar := by
  unfold validUTF8
  rw [ByteArray.validateUTF8_eq_true_iff]
  constructor
  · rintro ⟨chars, h⟩
    refine ⟨chars, ?_⟩
    have h' := congrArg (fun b : ByteArray => b.data.toList) h
    simpa [List.utf8Encode] using h'
  · rintro ⟨chars, rfl⟩
    exact ⟨chars, rfl⟩

@[simp]
theorem validUTF8_nil : validUTF8 [] = true := (validUTF8_iff []).mpr ⟨[], rfl⟩

theorem validUTF8_append {data data' : Bytes} (h : data.validUTF8 = true)
    (h' : data'.validUTF8 = true) : (data ++ data').validUTF8 = true := by
  obtain ⟨chars, rfl⟩ := (validUTF8_iff data).mp h
  obtain ⟨chars', rfl⟩ := (validUTF8_iff data').mp h'
  exact (validUTF8_iff _).mpr ⟨chars ++ chars', List.flatMap_append.symm⟩

theorem validUTF8_ascii {byte : UInt8} (h : byte < 128) : validUTF8 [byte] = true := by
  have hbyte : byte.toNat < 128 := UInt8.lt_iff_toNat_lt.mp h
  have hval : (Char.ofNat byte.toNat).val.toNat = byte.toNat :=
    by rw [Char.ofNat, dif_pos (.inl (by omega))]; exact UInt32.toNat_ofNatLT
  refine (validUTF8_iff _).mpr ⟨[Char.ofNat byte.toNat], ?_⟩
  rw [List.flatMap_cons, List.flatMap_nil, List.append_nil, String.utf8EncodeChar]
  rw [hval, if_pos (by omega), UInt8.ofNat_toNat]

/-- A character is an ASCII byte, or its bytes are no ASCII bytes. -/
theorem utf8EncodeChar_cases (c : Char) :
    (∃ byte < 128, String.utf8EncodeChar c = [byte]) ∨
      ∀ byte ∈ String.utf8EncodeChar c, 128 ≤ byte := by
  have hhigh : ∀ n : ℕ, 128 ≤ n → n < 256 → (128 : UInt8) ≤ UInt8.ofNat n := by
    intro n hn hn'
    rw [UInt8.le_iff_toNat_le, UInt8.toNat_ofNat_of_lt' hn']
    exact hn
  by_cases h : c.val.toNat ≤ 127
  · refine .inl ⟨UInt8.ofNat c.val.toNat, ?_, ?_⟩
    · rw [UInt8.lt_iff_toNat_lt, UInt8.toNat_ofNat_of_lt' (show _ < 256 by omega)]
      exact Nat.lt_succ_of_le h
    · rw [String.utf8EncodeChar, if_pos h]
  · refine .inr ?_
    intro byte hbyte
    unfold String.utf8EncodeChar at hbyte
    simp only [h, if_false] at hbyte
    split_ifs at hbyte
    all_goals
      simp only [List.mem_cons, List.not_mem_nil, or_false] at hbyte
      rcases hbyte with rfl | hbyte
      · exact hhigh _ (by omega) (by omega)
    · exact hbyte ▸ hhigh _ (by omega) (by omega)
    · rcases hbyte with rfl | rfl
      iterate 2 exact hhigh _ (by omega) (by omega)
    · rcases hbyte with rfl | rfl | rfl
      iterate 3 exact hhigh _ (by omega) (by omega)

/-- **Texts may stand in for the ASCII bytes of a text.** -/
theorem validUTF8_flatMap {f : UInt8 → Bytes} (hascii : ∀ byte < 128, (f byte).validUTF8 = true)
    (hother : ∀ byte, 128 ≤ byte → f byte = [byte]) {data : Bytes} (h : data.validUTF8 = true) :
    validUTF8 (data.flatMap f) = true := by
  obtain ⟨chars, rfl⟩ := (validUTF8_iff data).mp h
  clear h
  induction chars with
  | nil => rw [List.flatMap_nil, List.flatMap_nil, validUTF8_nil]
  | cons c chars ih =>
    rw [List.flatMap_cons, List.flatMap_append]
    refine validUTF8_append ?_ ih
    rcases utf8EncodeChar_cases c with ⟨byte, hbyte, hc⟩ | hc
    · rw [hc, List.flatMap_cons, List.flatMap_nil, List.append_nil]
      exact hascii byte hbyte
    · have hsame : (String.utf8EncodeChar c).flatMap f = String.utf8EncodeChar c := by
        rw [List.flatMap_congr fun byte hbyte => hother byte (hc byte hbyte)]
        simp
      rw [hsame]
      exact (validUTF8_iff _).mpr ⟨[c], (List.flatMap_singleton ..).symm⟩

end Bytes
