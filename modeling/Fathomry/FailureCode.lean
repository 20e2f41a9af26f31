import Fathomry.Bytes
import Mathlib.Data.Nat.Digits.Lemmas

/-!
# Codes of errors

A code is a word of 32 bits with a fixed layout: five bits that are the same
in every code, the facility in eleven bits and a number in sixteen, neither of
them zero. The source reads the layout with masks; as a mask of consecutive
bits is a quotient and a remainder (`and_field`), a valid code is a number
with three digits in mixed radix (`Code.valid_iff`), and so is the code that
`makeCode` composes.

A text is accepted when it spells a valid code in base 10 or, after `0x`, in
base 16. Nothing checks that the spelling is complete – the parser only
bounds the number of digits. That is enough: **a valid code is so large that
it needs all the digits that are allowed**, so a shorter text, or one with a
zero in front, does not reach it (`digits_eq`).
-/

namespace Failure

abbrev Facility := UInt16

abbrev Code := UInt32

def maxFacility : Facility := 0x7FF

def errorPrefix : Code := 0xA0000000

def Facility.valid (facility : Facility) : Bool := facility > 0 && facility ≤ maxFacility

def makeCode (facility : Facility) (number : UInt16) : Option Code :=
  if !facility.valid || number = 0 then none
  else some (errorPrefix ||| facility.toUInt32 <<< 16 ||| number.toUInt32)

/-- The value of a digit. The source asks only whether it is one, byte for
byte: a byte that is not ASCII is part of a rune that is not ASCII. -/
def digitValue (base : ℕ) (digit : UInt8) : Option ℕ :=
  if 48 ≤ digit ∧ digit ≤ 57 then some (digit.toNat - 48)
  else if base = 16 ∧ 97 ≤ digit ∧ digit ≤ 102 then some (digit.toNat - 87)
  else if base = 16 ∧ 65 ≤ digit ∧ digit ≤ 70 then some (digit.toNat - 55)
  else none

/-- `strconv.ParseUint` for 32 bits, of digits: the range is all that may
fail. -/
def parseUint (digits : Bytes) (base : ℕ) : Option Code :=
  let number := Nat.ofDigits base (digits.filterMap (digitValue base)).reverse
  if number < 2 ^ 32 then some (.ofNat number) else none

/-- A digit of `strings.ToUpper(strconv.FormatUint(…, 16))`. -/
def upperHex (value : ℕ) : UInt8 := .ofNat (if value < 10 then 48 + value else 55 + value)

def formatUpper (number : ℕ) : Bytes :=
  if number = 0 then [48] else (Nat.digits 16 number).reverse.map upperHex

namespace Code

variable (code : Code)

def valid : Bool :=
  code &&& 0xF8000000 = errorPrefix && code &&& 0x07FF0000 != 0 && code &&& 0xFFFF != 0

def facility : Facility := if !code.valid then 0 else (code >>> 16 &&& 0x7FF).toUInt16

def number : UInt16 := if !code.valid then 0 else (code &&& 0xFFFF).toUInt16

def string : Bytes :=
  let digits := formatUpper code.toNat
  [48, 120] ++ List.replicate (8 - digits.length) 48 ++ digits

def marshalText : Option Bytes := if !code.valid then none else some code.string

end Code

/-- What `parseCode` does with the digits that the prefix leaves. -/
def parseDigits (digits : Bytes) (base limit : ℕ) : Option Code :=
  if digits.length = 0 || digits.length > limit then none
  else if digits.any (fun digit => (digitValue base digit).isNone) then none
  else (parseUint digits base).filter Code.valid

def parseCode (text : Bytes) : Option Code :=
  match text with
  | 48 :: 120 :: digits | 48 :: 88 :: digits => parseDigits digits 16 8
  | _ => parseDigits text 10 10

/-- The receiver afterwards, and whether the text was accepted. -/
def unmarshalText (code : Option Code) (text : Bytes) : Option Code × Bool :=
  match code with
  | none => (none, false)
  | some receiver =>
    if text.length > 10 then (some receiver, false)
    else match parseCode text with
      | none => (some receiver, false)
      | some value => (some value, true)

/-! ## The layout -/

/-- **A mask of `w` bits from bit `k` on** is a digit. -/
theorem and_field (n w k : ℕ) : n &&& (2 ^ w - 1) <<< k = n / 2 ^ k % 2 ^ w * 2 ^ k := by
  have hshift : n &&& (2 ^ w - 1) <<< k = (n >>> k &&& (2 ^ w - 1)) <<< k := by
    refine Nat.eq_of_testBit_eq (fun i => ?_)
    rw [Nat.testBit_and, Nat.testBit_shiftLeft, Nat.testBit_shiftLeft, Nat.testBit_and,
      Nat.testBit_shiftRight]
    by_cases hi : k ≤ i
    · rw [Nat.add_sub_cancel' hi, decide_eq_true hi, Bool.true_and, Bool.true_and]
    · rw [decide_eq_false hi, Bool.false_and, Bool.false_and, Bool.and_false]
  rw [hshift, Nat.and_two_pow_sub_one_eq_mod, Nat.shiftRight_eq_div_pow, Nat.shiftLeft_eq]

/-- **The layout of a code**, in mixed radix. -/
theorem Code.valid_iff (code : Code) : code.valid = true ↔
    code.toNat / 2 ^ 27 = 20 ∧ code.toNat / 2 ^ 16 % 2 ^ 11 ≠ 0 ∧ code.toNat % 2 ^ 16 ≠ 0 := by
  have hlt := code.toNat_lt
  unfold valid
  rw [Bool.and_eq_true, Bool.and_eq_true, decide_eq_true_eq, bne_iff_ne, bne_iff_ne, and_assoc]
  have hhigh := and_field code.toNat 5 27
  have hmiddle := and_field code.toNat 11 16
  have hlow := and_field code.toNat 16 0
  have hfields : ∀ mask value : Code, code &&& mask = value ↔
      code.toNat &&& mask.toNat = value.toNat := fun mask value => by
    rw [← UInt32.toNat_inj, UInt32.toNat_and]
  rw [hfields, ne_eq, hfields, ne_eq, hfields]
  change (code.toNat &&& (2 ^ 5 - 1) <<< 27 = 20 * 2 ^ 27) ∧
    ¬ (code.toNat &&& (2 ^ 11 - 1) <<< 16 = 0) ∧ ¬ (code.toNat &&& (2 ^ 16 - 1) <<< 0 = 0) ↔ _
  omega

theorem Code.facility_toNat {code : Code} (h : code.valid = true) :
    code.facility.toNat = code.toNat / 2 ^ 16 % 2 ^ 11 := by
  have hfield := and_field (code.toNat / 2 ^ 16) 11 0
  unfold facility
  rw [h]
  show (code.toNat >>> 16 &&& (2 ^ 11 - 1) <<< 0) % 2 ^ 16 = _
  rw [Nat.shiftRight_eq_div_pow, hfield]
  omega

theorem Code.number_toNat {code : Code} (h : code.valid = true) :
    code.number.toNat = code.toNat % 2 ^ 16 := by
  have hfield := and_field code.toNat 16 0
  unfold number
  rw [h]
  show (code.toNat &&& (2 ^ 16 - 1) <<< 0) % 2 ^ 16 = _
  omega

theorem makeCode_eq_some {facility : Facility} {number : UInt16} {code : Code} :
    makeCode facility number = some code ↔
      (0 < facility.toNat ∧ facility.toNat < 2 ^ 11) ∧ 0 < number.toNat ∧
        code.toNat = 20 * 2 ^ 27 + facility.toNat * 2 ^ 16 + number.toNat := by
  have hvalid : facility.valid = true ↔ 0 < facility.toNat ∧ facility.toNat < 2 ^ 11 := by
    unfold Facility.valid
    rw [Bool.and_eq_true, decide_eq_true_eq, decide_eq_true_eq, gt_iff_lt, UInt16.lt_iff_toNat_lt,
      UInt16.le_iff_toNat_le]
    show 0 < facility.toNat ∧ facility.toNat ≤ 0x7FF ↔ _
    omega
  have hnumber : number = 0 ↔ ¬ 0 < number.toNat := by
    rw [← UInt16.toNat_inj]
    show number.toNat = 0 ↔ _
    omega
  have hword : facility.toNat < 2 ^ 11 →
      (errorPrefix ||| facility.toUInt32 <<< 16 ||| number.toUInt32).toNat
        = 20 * 2 ^ 27 + facility.toNat * 2 ^ 16 + number.toNat := fun hf => by
    have hn := number.toNat_lt
    have hshift : (facility.toUInt32 <<< 16).toNat = facility.toNat <<< 16 := by
      show facility.toNat <<< 16 % 2 ^ 32 = _
      omega
    rw [UInt32.toNat_or, UInt32.toNat_or, hshift]
    show (20 <<< 11) <<< 16 ||| facility.toNat <<< 16 ||| number.toNat = _
    rw [← Nat.shiftLeft_or_distrib, ← Nat.shiftLeft_add_eq_or_of_lt hf,
      ← Nat.shiftLeft_add_eq_or_of_lt hn, Nat.shiftLeft_eq, Nat.shiftLeft_eq]
    omega
  unfold makeCode
  rw [Option.ite_none_left_eq_some, Bool.or_eq_true, Bool.not_eq_true', decide_eq_true_eq, not_or,
    Bool.not_eq_false, hvalid, hnumber, not_not, and_assoc, and_congr_right_iff]
  intro hf
  rw [and_congr_right_iff, Option.some_inj, ← UInt32.toNat_inj, hword hf.2]
  exact fun _ => eq_comm

/-! ## Spellings -/

def Spells (base : ℕ) (digits : Bytes) (code : Code) : Prop :=
  digits.map (digitValue base) = (Nat.digits base code.toNat).reverse.map some

def Decimal (text : Bytes) (code : Code) : Prop := text.length = 10 ∧ Spells 10 text code

/-- `0x` or `0X`, and the eight digits of a code in base 16. -/
def Hexadecimal (text : Bytes) (code : Code) : Prop :=
  ∃ digits : Bytes, (text = 48 :: 120 :: digits ∨ text = 48 :: 88 :: digits) ∧
    digits.length = 8 ∧ Spells 16 digits code

/-- **A number that needs `k + 1` digits** has no other digits when no more
are allowed. -/
theorem digits_eq {b k : ℕ} {values : List ℕ} (hb : 1 < b) (hdigits : ∀ v ∈ values, v < b)
    (hlength : values.length ≤ k + 1) (hlarge : b ^ k ≤ Nat.ofDigits b values) :
    values.length = k + 1 ∧ values = Nat.digits b (Nat.ofDigits b values) := by
  have hlt := Nat.ofDigits_lt_base_pow_length hb hdigits
  have hfull : values.length = k + 1 := by
    have := (Nat.pow_lt_pow_iff_right hb).mp (hlarge.trans_lt hlt)
    omega
  refine ⟨hfull, Nat.ofDigits_inj_of_len_eq hb ?_ hdigits (fun v => Nat.digits_lt_base hb)
    (Nat.ofDigits_digits b _).symm⟩
  have hle := (Nat.digits_length_le_iff hb _).mpr hlt
  have hge := (Nat.lt_digits_length_iff hb _).mpr hlarge
  omega

theorem digitValue_lt {base value : ℕ} {digit : UInt8} (hbase : base = 10 ∨ base = 16)
    (h : digitValue base digit = some value) : value < base := by
  have hall : ∀ base ∈ [10, 16], ∀ n < 256,
      (digitValue base (.ofNat n)).all (fun v => decide (v < base)) = true := by decide +kernel
  have hdigit := hall base (by simpa using hbase) digit.toNat digit.toNat_lt
  rw [UInt8.ofNat_toNat, h] at hdigit
  exact of_decide_eq_true hdigit

/-- **A run of digits** is accepted when it spells a valid code. -/
theorem parseDigits_iff {base k : ℕ} {digits : Bytes} {code : Code}
    (hbase : base = 10 ∨ base = 16) (hlarge : base ^ k ≤ 20 * 2 ^ 27) :
    parseDigits digits base (k + 1) = some code ↔
      code.valid = true ∧ digits.length = k + 1 ∧ Spells base digits code := by
  have hb : 1 < base := by omega
  have hbound : code.valid = true → base ^ k ≤ code.toNat := fun h => by
    have := ((Code.valid_iff code).mp h).1
    omega
  unfold parseDigits parseUint
  rw [Option.ite_none_left_eq_some, Option.ite_none_left_eq_some, Option.filter_eq_some_iff,
    Option.ite_none_right_eq_some, Option.some_inj]
  simp only [Bool.or_eq_true, decide_eq_true_eq, not_or, not_lt, List.any_eq_true, not_exists,
    not_and, Option.isNone_iff_eq_none]
  constructor
  · rintro ⟨⟨-, hlimit⟩, hall, ⟨hlt, hparse⟩, hvalid⟩
    have hmap : digits.map (digitValue base) = (digits.filterMap (digitValue base)).map some := by
      rw [List.map_filterMap_some_eq_filter_map_isSome, List.filter_eq_self.mpr]
      intro v hv
      obtain ⟨digit, hdigit, rfl⟩ := List.mem_map.mp hv
      exact Option.isSome_iff_ne_none.mpr (hall digit hdigit)
    have hlength : digits.length = (digits.filterMap (digitValue base)).reverse.length := by
      simpa using congrArg List.length hmap
    have hvalue : Nat.ofDigits base (digits.filterMap (digitValue base)).reverse = code.toNat := by
      rw [← hparse, UInt32.toNat_ofNat_of_lt' hlt]
    have hdigits : ∀ v ∈ (digits.filterMap (digitValue base)).reverse, v < base := fun v hv => by
      obtain ⟨digit, -, hdigit⟩ := List.mem_filterMap.mp (List.mem_reverse.mp hv)
      exact digitValue_lt hbase hdigit
    obtain ⟨hfull, heq⟩ := digits_eq hb hdigits (hlength ▸ hlimit) (hvalue ▸ hbound hvalid)
    refine ⟨hvalid, hlength.trans hfull, ?_⟩
    rw [Spells, hmap, ← hvalue, ← heq, List.reverse_reverse]
  · rintro ⟨hvalid, hlength, hspells⟩
    have hvalues : digits.filterMap (digitValue base) = (Nat.digits base code.toNat).reverse := by
      have hid := List.filterMap_map (f := digitValue base) (g := id) (l := digits)
      rw [show digits.map (digitValue base) = _ from hspells, List.filterMap_map] at hid
      simpa using hid.symm
    refine ⟨by omega, fun digit hdigit hnone => ?_, ?_, hvalid⟩
    · have hmem := List.mem_map_of_mem (f := digitValue base) hdigit
      rw [hspells, hnone] at hmem
      simp at hmem
    · rw [hvalues, List.reverse_reverse, Nat.ofDigits_digits]
      exact ⟨code.toNat_lt, UInt32.ofNat_toNat⟩

theorem parseCode_iff (text : Bytes) (code : Code) : parseCode text = some code ↔
    code.valid = true ∧ (Decimal text code ∨ Hexadecimal text code) := by
  -- The second byte of the prefix is no decimal digit.
  have hdecimal : ∀ (x : UInt8) (digits : Bytes), digitValue 10 x = none →
      ¬ Decimal (48 :: x :: digits) code := fun x digits hx h => by
    have hspells := h.2
    rw [Spells, List.map_cons, List.map_cons, hx] at hspells
    have hmem : (none : Option ℕ) ∈ (Nat.digits 10 code.toNat).reverse.map some := by
      rw [← hspells]
      exact .tail _ (.head _)
    simp at hmem
  unfold parseCode
  split
  · next digits =>
    rw [parseDigits_iff (.inr rfl) (by norm_num)]
    simp [Hexadecimal, hdecimal 120 digits rfl]
  · next digits =>
    rw [parseDigits_iff (.inr rfl) (by norm_num)]
    simp [Hexadecimal, hdecimal 88 digits rfl]
  · next hlower hupper =>
    rw [parseDigits_iff (.inl rfl) (by norm_num)]
    refine and_congr_right (fun _ => ⟨.inl, ?_⟩)
    rintro (h | ⟨digits, rfl | rfl, -⟩)
    · exact h
    · exact absurd rfl (hlower digits)
    · exact absurd rfl (hupper digits)

theorem digitValue_upperHex : ∀ value < 16, digitValue 16 (upperHex value) = some value := by
  decide

/-- **The text of a valid code** has no zeros in front of its digits. -/
theorem Code.string_spells {code : Code} (h : code.valid = true) :
    Hexadecimal code.string code := by
  have hvalid := ((Code.valid_iff code).mp h).1
  have hlength : (Nat.digits 16 code.toNat).length = 8 := by
    have hle := (Nat.digits_length_le_iff (b := 16) (k := 8) (by norm_num) _).mpr code.toNat_lt
    have hge := (Nat.lt_digits_length_iff (b := 16) (k := 7) (by norm_num) code.toNat).mpr
      (by norm_num; omega)
    omega
  have hformat : formatUpper code.toNat = (Nat.digits 16 code.toNat).reverse.map upperHex := by
    rw [formatUpper, if_neg (by omega)]
  refine ⟨formatUpper code.toNat, .inl ?_, ?_, ?_⟩
  · unfold string
    dsimp only
    rw [hformat, List.length_map, List.length_reverse, hlength]
    rfl
  · rw [hformat, List.length_map, List.length_reverse, hlength]
  · rw [Spells, hformat, List.map_map]
    refine List.map_congr_left (fun v hv => digitValue_upperHex v ?_)
    exact Nat.digits_lt_base (by norm_num) (List.mem_reverse.mp hv)

/-- **Codes and their texts.** A text is accepted exactly when it is one of
the two full spellings of a valid code, so a code is read back from its text;
and a code is its facility and its number. -/
theorem code_spelled :
    (∀ text code, parseCode text = some code ↔
      code.valid = true ∧ (Decimal text code ∨ Hexadecimal text code)) ∧
    (∀ code : Code, code.valid = true →
      parseCode code.string = some code ∧
      (∃ text, code.marshalText = some text ∧
        ∀ receiver, unmarshalText (some receiver) text = (some code, true)) ∧
      makeCode code.facility code.number = some code) ∧
    ∀ facility number code, makeCode facility number = some code →
      code.facility = facility ∧ code.number = number := by
  refine ⟨parseCode_iff, fun code h => ?_, fun facility number code h => ?_⟩
  · have hspells := Code.string_spells h
    have hparse := (parseCode_iff code.string code).mpr ⟨h, .inr hspells⟩
    refine ⟨hparse, ⟨code.string, ?_, fun receiver => ?_⟩, ?_⟩
    · rw [Code.marshalText, h]
      rfl
    · obtain ⟨digits, htext, hlength, -⟩ := hspells
      have hshort : ¬ code.string.length > 10 := by
        obtain htext | htext := htext
        all_goals
          rw [htext, List.length_cons, List.length_cons, hlength]
          decide
      rw [unmarshalText, if_neg hshort, hparse]
    · obtain ⟨hhigh, hmiddle, hlow⟩ := (Code.valid_iff code).mp h
      rw [makeCode_eq_some, Code.facility_toNat h, Code.number_toNat h]
      omega
  · obtain ⟨hfacility, hnumber, hcode⟩ := makeCode_eq_some.mp h
    have hn := number.toNat_lt
    have hvalid : code.valid = true := (Code.valid_iff code).mpr (by omega)
    rw [← UInt16.toNat_inj, ← UInt16.toNat_inj, Code.facility_toNat hvalid,
      Code.number_toNat hvalid]
    omega

end Failure
