import Fathomry.FailureCode
import Mathlib.Data.Nat.ModEq

/-!
# Messages in several languages

The form of a cardinal number is found by an interpreter of plural rules that
is not part of the package and takes an `int`, which may have 32 bits. A number
of 64 bits is replaced by a small one first. A rule looks at a number in two
ways: whether it is in a range below ten million, and whether its remainder –
for a divisor of ten million – is in a range. So **a number from ten million on
is as good as ten million and its remainder**: no range below contains either,
and all remainders agree.
-/

namespace I18n

inductive Form where
  | zero | one | two | few | many | other
  deriving DecidableEq

/-- **A plural rule**, for integer operands, of the shape that the source
assumes of the tables it is used with. -/
inductive Rule where
  | within (a b : ℕ) (small : b < 10 ^ 7)
  | rest (m a b : ℕ) (pos : 0 < m) (divides : m ∣ 10 ^ 7)
  | not (rule : Rule)
  | and (left right : Rule)
  | or (left right : Rule)

def Rule.holds (number : ℕ) : Rule → Bool
  | .within a b _ => a ≤ number && number ≤ b
  | .rest m a b _ _ => a ≤ number % m && number % m ≤ b
  | .not rule => !rule.holds number
  | .and left right => left.holds number && right.holds number
  | .or left right => left.holds number || right.holds number

/-- **What is assumed of `MatchPlural`**: numbers that no rule tells apart have
the same form. -/
def RuleBased (matchPlural : ℕ → Form) : Prop :=
  ∀ m n, (∀ rule : Rule, rule.holds m = rule.holds n) → matchPlural m = matchPlural n

def representative (number : UInt64) : UInt64 :=
  if number ≥ 10000000 then 10000000 + number % 10000000 else number

def cardinalForm (matchPlural : ℕ → Form) (number : UInt64) : Form :=
  matchPlural (representative number).toNat

theorem representative_toNat (number : UInt64) : (representative number).toNat =
    if 10 ^ 7 ≤ number.toNat then 10 ^ 7 + number.toNat % 10 ^ 7 else number.toNat := by
  have hge : number ≥ 10000000 ↔ 10 ^ 7 ≤ number.toNat := UInt64.le_iff_toNat_le
  unfold representative
  by_cases h : 10 ^ 7 ≤ number.toNat
  · rw [if_pos (hge.mpr h), if_pos h, UInt64.toNat_add, UInt64.toNat_mod]
    show (10 ^ 7 + number.toNat % 10 ^ 7) % 2 ^ 64 = _
    omega
  · rw [if_neg (fun hn => h (hge.mp hn)), if_neg h]

/-- **No rule tells them apart.** -/
theorem holds_representative (number : UInt64) (rule : Rule) :
    rule.holds (representative number).toNat = rule.holds number.toNat := by
  rw [representative_toNat]
  split
  · induction rule with
    | within a b =>
      have hleft : ¬ 10 ^ 7 + number.toNat % 10 ^ 7 ≤ b := by omega
      have hright : ¬ number.toNat ≤ b := by omega
      rw [Rule.holds, Rule.holds, decide_eq_false hleft, decide_eq_false hright, Bool.and_false,
        Bool.and_false]
    | rest m a b pos divides =>
      have hmod : (10 ^ 7 + number.toNat % 10 ^ 7) % m = number.toNat % m := by
        rw [Nat.add_mod, Nat.mod_eq_zero_of_dvd divides, Nat.zero_add, Nat.mod_mod,
          Nat.mod_mod_of_dvd _ divides]
      rw [Rule.holds, Rule.holds, hmod]
    | not rule ih => rw [Rule.holds, Rule.holds, ih]
    | and left right ihl ihr | or left right ihl ihr => rw [Rule.holds, Rule.holds, ihl, ihr]
  · rfl

/-- **The reduction of a number is exact**, and what is left is an `int` of 32
bits. -/
theorem cardinal_exact (number : UInt64) :
    (∀ rule : Rule, rule.holds (representative number).toNat = rule.holds number.toNat) ∧
    (∀ matchPlural, RuleBased matchPlural →
      cardinalForm matchPlural number = matchPlural number.toNat) ∧
    (representative number).toNat < 2 ^ 31 := by
  refine ⟨holds_representative number, fun _ h => h _ _ (holds_representative number), ?_⟩
  rw [representative_toNat]
  split
  · omega
  · omega

/-! ## Escapes

`encoding/json` repairs a surrogate that is not part of a pair. The bytes of a
resource are searched for one beforehand, by a scanner that knows quotes and
escapes and nothing else of JSON. A read outside of the data is `none`. -/

/-- The loop of `hex16`, on a `uint16`. -/
def hexValue (chars : Bytes) : Option ℕ :=
  chars.foldlM (fun result char => (Failure.digitValue 16 char).map (fun digit =>
    (result * 2 ^ 4 % 2 ^ 16 + digit) % 2 ^ 16)) 0

def hex16 (data : Bytes) (start : ℕ) : Option (Option ℕ) :=
  if (start : ℤ) > (data.length : ℤ) - 4 then some none
  else if start + 4 ≤ data.length then some (hexValue (data.slice start 4)) else none

def isLow (code : ℕ) : Bool := 0xdc00 ≤ code && code ≤ 0xdfff

/-- The bytes after a high surrogate that ends at a byte: whether they are a
low one. -/
def lowFollows (data : Bytes) (index : ℕ) : Option Bool :=
  if index + 6 ≥ data.length then some false
  else data[index + 1]?.bind fun char =>
  if char ≠ 92 then some false
  else data[index + 2]?.bind fun char =>
  if char ≠ 117 then some false
  else (hex16 data (index + 3)).map fun low => low.any isLow

/-- `validEscapes` from a byte on. -/
def scanEscapes (data : Bytes) (index : ℕ) (quoted : Bool) : Option Bool :=
  if _ : index < data.length then
    data[index]?.bind fun char =>
    if char = 34 then scanEscapes data (index + 1) (!quoted)
    else if !quoted || char ≠ 92 then scanEscapes data (index + 1) quoted
    else if index + 1 ≥ data.length then some false
    else data[index + 1]?.bind fun char =>
    if char ≠ 117 then scanEscapes data (index + 2) quoted
    else (hex16 data (index + 2)).bind fun
    | none => some false
    | some code =>
      if isLow code then some false
      else if 0xd800 ≤ code && code < 0xe000 then
        (lowFollows data (index + 5)).bind fun low =>
        if low then scanEscapes data (index + 12) quoted else some false
      else scanEscapes data (index + 6) quoted
  else some true
termination_by data.length - index

def validEscapes (data : Bytes) : Option Bool := scanEscapes data 0 false

section Total

variable (data : Bytes)

theorem isSome_read {i : ℕ} {f : UInt8 → Option Bool} (hi : i < data.length)
    (hf : ∀ char, (f char).isSome = true) : (data[i]?.bind f).isSome = true := by
  rw [List.getElem?_eq_getElem hi]
  exact hf _

theorem isSome_hex16 (start : ℕ) : (hex16 data start).isSome = true := by
  unfold hex16
  split
  · rfl
  · rw [if_pos (by omega)]
    rfl

theorem isSome_lowFollows (index : ℕ) : (lowFollows data index).isSome = true := by
  unfold lowFollows
  split
  · rfl
  refine isSome_read data (by omega) (fun char => ?_)
  split
  · rfl
  refine isSome_read data (by omega) (fun char => ?_)
  split
  · rfl
  · rw [Option.isSome_map]
    exact isSome_hex16 data _

/-- **Whatever the bytes are**, the scan ends and reads none of them outside
of the data. -/
theorem isSome_scanEscapes (index : ℕ) (quoted : Bool) :
    (scanEscapes data index quoted).isSome = true := by
  induction hn : data.length - index using Nat.strongRecOn generalizing index quoted with
  | ind n ih =>
    rw [scanEscapes]
    by_cases hlt : index < data.length
    · have hnext : ∀ {i : ℕ} (q : Bool), index < i → (scanEscapes data i q).isSome = true :=
        fun q hi => ih _ (by omega) _ q rfl
      rw [dif_pos hlt]
      refine isSome_read data hlt (fun char => ?_)
      split_ifs
      iterate 2 exact hnext _ (by omega)
      · rfl
      refine isSome_read data (by omega) (fun char => ?_)
      split_ifs
      · exact hnext _ (by omega)
      obtain ⟨code, hcode⟩ := Option.isSome_iff_exists.mp (isSome_hex16 data _)
      obtain ⟨low, hlow⟩ := Option.isSome_iff_exists.mp (isSome_lowFollows data _)
      rw [hcode, hlow]
      cases code with
      | none => rfl
      | some =>
        dsimp only [Option.bind_some]
        split_ifs
        · rfl
        · exact hnext _ (by omega)
        · rfl
        · exact hnext _ (by omega)
    · rw [dif_neg hlt]
      rfl

end Total

/-- **What stands in a string literal**: a byte, an escape of one byte, or one
of four hexadecimal digits. -/
inductive Item where
  | byte (char : UInt8) (quote : char ≠ 34) (escape : char ≠ 92)
  | short (char : UInt8) (unicode : char ≠ 117)
  | unicode (digits : Bytes) (a b c d : ℕ)
      (hex : digits.map (Failure.digitValue 16) = [some a, some b, some c, some d])

namespace Item

def text : Item → Bytes
  | .byte char _ _ => [char]
  | .short char _ => [92, char]
  | .unicode digits _ _ _ _ _ => 92 :: 117 :: digits

def code : Item → ℕ
  | .unicode _ a b c d _ => 4096 * a + 256 * b + 16 * c + d
  | _ => 0

def isHigh (item : Item) : Bool := 0xd800 ≤ item.code && item.code ≤ 0xdbff

/-- **Surrogates come in pairs**: an item is a low surrogate if the one before
it is a high one, and only then. -/
def paired (high : Bool) : List Item → Bool
  | [] => !high
  | item :: items => I18n.isLow item.code == high && paired item.isHigh items

end Item

/-- **A part of a text**: a byte that is no quote, or a string literal. All
that JSON has is made of them. -/
inductive Part where
  | byte (char : UInt8) (quote : char ≠ 34)
  | literal (items : List Item)

namespace Part

def text : Part → Bytes
  | .byte char _ => [char]
  | .literal items => 34 :: (items.flatMap Item.text ++ [34])

def paired : Part → Bool
  | .byte _ _ => true
  | .literal items => Item.paired false items

end Part

/-- **The loop over four digits** finds their code. -/
theorem hexValue_eq {digits : Bytes} {a b c d : ℕ}
    (hex : digits.map (Failure.digitValue 16) = [some a, some b, some c, some d]) :
    digits.length = 4 ∧ hexValue digits = some (4096 * a + 256 * b + 16 * c + d) := by
  have hlength : digits.length = 4 := by simpa using congrArg List.length hex
  obtain ⟨w, x, y, z, rfl⟩ := List.length_eq_four.mp hlength
  simp only [List.map_cons, List.map_nil, List.cons.injEq, and_true] at hex
  obtain ⟨hw, hx, hy, hz⟩ := hex
  have ha := Failure.digitValue_lt (.inr rfl) hw
  have hb := Failure.digitValue_lt (.inr rfl) hx
  have hc := Failure.digitValue_lt (.inr rfl) hy
  have hd := Failure.digitValue_lt (.inr rfl) hz
  refine ⟨rfl, ?_⟩
  simp [hexValue, hw, hx, hy, hz]
  omega

section Reads

variable {data rest : Bytes} {index : ℕ} {char : UInt8}

/-- What is read at the beginning of what is left. -/
theorem getElem?_of_drop (h : data.drop index = char :: rest) :
    index < data.length ∧ data[index]? = some char ∧ data.drop (index + 1) = rest := by
  have hlen := congrArg List.length h
  rw [List.length_drop, List.length_cons] at hlen
  refine ⟨by omega, ?_, ?_⟩
  · have hget := congrArg (fun l : List UInt8 => l[0]?) h
    simpa using hget
  · rw [← List.drop_drop, h]
    rfl

theorem hex16_of_drop {digits : Bytes} {a b c d : ℕ} (h : data.drop index = digits ++ rest)
    (hex : digits.map (Failure.digitValue 16) = [some a, some b, some c, some d]) :
    hex16 data index = some (some (Item.unicode digits a b c d hex).code) ∧
      data.drop (index + 4) = rest := by
  obtain ⟨hfour, hvalue⟩ := hexValue_eq hex
  have hlen := congrArg List.length h
  rw [List.length_drop, List.length_append, hfour] at hlen
  constructor
  · unfold hex16 Bytes.slice
    rw [if_neg (by omega), if_pos (by omega), h, ← hfour, List.take_left, hvalue]
    rfl
  · rw [← List.drop_drop, h, ← hfour, List.drop_left]

theorem scanEscapes_quote {quoted : Bool} (h : data.drop index = 34 :: rest) :
    scanEscapes data index quoted = scanEscapes data (index + 1) (!quoted) := by
  obtain ⟨hlt, hget, -⟩ := getElem?_of_drop h
  rw [scanEscapes, dif_pos hlt, hget]
  rfl

theorem scanEscapes_byte {quoted : Bool} (h : data.drop index = char :: rest) (hquote : char ≠ 34)
    (hescape : quoted = false ∨ char ≠ 92) :
    scanEscapes data index quoted = scanEscapes data (index + 1) quoted := by
  obtain ⟨hlt, hget, -⟩ := getElem?_of_drop h
  rw [scanEscapes, dif_pos hlt, hget, Option.bind_some, if_neg hquote, if_pos]
  simpa using hescape

theorem scanEscapes_short (h : data.drop index = 92 :: char :: rest) (hchar : char ≠ 117) :
    scanEscapes data index true = scanEscapes data (index + 2) true := by
  obtain ⟨hlt, hget, hrest⟩ := getElem?_of_drop h
  obtain ⟨hlt', hget', -⟩ := getElem?_of_drop hrest
  rw [scanEscapes, dif_pos hlt, hget, Option.bind_some, if_neg (by decide), if_neg (by decide),
    if_neg (by omega), hget', Option.bind_some, if_pos hchar]

theorem flatMap_unicode {digits : Bytes} {a b c d : ℕ}
    {hex : digits.map (Failure.digitValue 16) = [some a, some b, some c, some d]}
    {items : List Item} : (Item.unicode digits a b c d hex :: items).flatMap Item.text ++ rest
      = 92 :: 117 :: (digits ++ (items.flatMap Item.text ++ rest)) := by
  rw [List.flatMap_cons, List.append_assoc]
  rfl

/-- **What follows a high surrogate** is the next item, or the quote. -/
theorem lowFollows_items (items : List Item)
    (h : data.drop (index + 1) = items.flatMap Item.text ++ 34 :: rest) :
    lowFollows data index = some (items.head?.any (fun item => isLow item.code)) := by
  have hfail : ∀ {x : Option Bool}, x = some false →
      (if index + 6 ≥ data.length then some false else x) = some false := fun hx => by
    rw [hx, ite_self]
  unfold lowFollows
  cases items with
  | nil =>
    obtain ⟨-, hget, -⟩ := getElem?_of_drop h
    refine hfail ?_
    rw [hget]
    rfl
  | cons item =>
    cases item with
    | byte char quote escape =>
      obtain ⟨-, hget, -⟩ := getElem?_of_drop h
      refine hfail ?_
      rw [hget, Option.bind_some, if_pos escape]
    | short char unicode =>
      obtain ⟨-, hget, hrest⟩ := getElem?_of_drop h
      obtain ⟨-, hget', -⟩ := getElem?_of_drop hrest
      refine hfail ?_
      rw [hget, Option.bind_some, if_neg (by decide), hget', Option.bind_some, if_pos unicode]
    | unicode digits a b c d hex =>
      rw [flatMap_unicode] at h
      obtain ⟨-, hget, hrest⟩ := getElem?_of_drop h
      obtain ⟨-, hget', hrest'⟩ := getElem?_of_drop hrest
      have hlen := congrArg List.length hrest'
      rw [List.length_drop, List.length_append, List.length_append, List.length_cons,
        (hexValue_eq hex).1] at hlen
      rw [if_neg (by omega), hget, Option.bind_some, if_neg (by decide), hget', Option.bind_some,
        if_neg (by decide), (hex16_of_drop hrest' hex).1]
      rfl

theorem isHigh_eq {item : Item} (h : isLow item.code = false) :
    item.isHigh = (0xd800 ≤ item.code && item.code < 0xe000 : Bool) := by
  rw [Bool.eq_iff_iff]
  simp only [isLow, Item.isHigh, Bool.and_eq_true, Bool.and_eq_false_iff, decide_eq_true_eq,
    decide_eq_false_iff_not] at h ⊢
  omega

theorem not_isHigh {item : Item} (h : isLow item.code = true) : item.isHigh = false := by
  simp only [isLow, Item.isHigh, Bool.and_eq_true, Bool.and_eq_false_iff, decide_eq_true_eq,
    decide_eq_false_iff_not] at h ⊢
  omega

/-- What is known of a scan up to the quote of its literal. -/
def Scanned (data rest : Bytes) (index : ℕ) (paired : Bool) : Prop :=
  if paired then ∃ next, data.drop next = 34 :: rest ∧
    scanEscapes data index true = scanEscapes data next true
  else scanEscapes data index true = some false

theorem Scanned.of_eq {next : ℕ} {paired : Bool} (h : Scanned data rest next paired)
    (heq : scanEscapes data index true = scanEscapes data next true) :
    Scanned data rest index paired := by
  unfold Scanned at h ⊢
  rw [heq]
  exact h

/-- **A string literal.** The induction is on its items; a pair takes two of
them. -/
theorem scanned_items : ∀ (items : List Item) {index : ℕ},
    data.drop index = items.flatMap Item.text ++ 34 :: rest →
    Scanned data rest index (Item.paired false items)
  | [], index, h => ⟨index, h, rfl⟩
  | .byte char quote escape :: items, index, h =>
    (scanned_items items (getElem?_of_drop h).2.2).of_eq (scanEscapes_byte h quote (.inr escape))
  | .short char unicode :: items, index, h =>
    (scanned_items items (getElem?_of_drop (getElem?_of_drop h).2.2).2.2).of_eq
      (scanEscapes_short h unicode)
  | .unicode digits a b c d hex :: items, index, h => by
    rw [flatMap_unicode] at h
    obtain ⟨hlt, hget, hrest⟩ := getElem?_of_drop h
    obtain ⟨hlt', hget', hrest'⟩ := getElem?_of_drop hrest
    obtain ⟨hhex, hnext⟩ := hex16_of_drop hrest' hex
    have hscan := scanEscapes.eq_1 data index true
    rw [dif_pos hlt, hget, Option.bind_some, if_neg (by decide), if_neg (by decide),
      if_neg (by omega), hget', Option.bind_some, if_neg (by decide), hhex, Option.bind_some,
      lowFollows_items items hnext, Option.bind_some] at hscan
    dsimp only at hscan
    rw [Item.paired]
    cases hlow : isLow (Item.unicode digits a b c d hex).code with
    | true =>
      rw [hlow] at hscan
      exact hscan
    | false =>
      rw [hlow, if_neg (by decide), ← isHigh_eq hlow] at hscan
      cases hhigh : (Item.unicode digits a b c d hex).isHigh with
      | false =>
        rw [hhigh] at hscan
        exact (scanned_items items hnext).of_eq hscan
      | true =>
        rw [hhigh, if_pos rfl] at hscan
        match items, hnext with
        | [], _ | .byte .. :: _, _ | .short .. :: _, _ => exact hscan
        | .unicode digits' a' b' c' d' hex' :: items, hnext =>
          rw [flatMap_unicode] at hnext
          have htail := (hex16_of_drop (getElem?_of_drop (getElem?_of_drop hnext).2.2).2.2 hex').2
          rw [List.head?_cons, Option.any_some] at hscan
          rw [Item.paired]
          cases hlow' : isLow (Item.unicode digits' a' b' c' d' hex').code with
          | false =>
            rw [hlow'] at hscan
            exact hscan
          | true =>
            rw [hlow'] at hscan
            rw [not_isHigh hlow']
            exact (scanned_items items htail).of_eq hscan

/-- **A text of JSON.** -/
theorem scanEscapes_parts (parts : List Part) (h : data.drop index = parts.flatMap Part.text) :
    scanEscapes data index false = some (parts.all Part.paired) := by
  induction parts generalizing index with
  | nil =>
    have hle : data.length ≤ index := List.drop_eq_nil_iff.mp h
    rw [scanEscapes, dif_neg (by omega)]
    rfl
  | cons part parts ih =>
    cases part with
    | byte char quote =>
      exact (scanEscapes_byte h quote (.inl rfl)).trans (ih (getElem?_of_drop h).2.2)
    | literal items =>
      have h : data.drop index
          = 34 :: (items.flatMap Item.text ++ 34 :: parts.flatMap Part.text) := by
        rw [h, List.flatMap_cons]
        simp [Part.text]
      have hscan := scanned_items items (getElem?_of_drop h).2.2
      rw [scanEscapes_quote h, List.all_cons, Part.paired, Bool.not_false]
      cases hpaired : Item.paired false items with
      | false =>
        rw [hpaired] at hscan
        exact hscan
      | true =>
        rw [hpaired] at hscan
        obtain ⟨next, hnext, heq⟩ := hscan
        rw [heq, scanEscapes_quote hnext, Bool.true_and]
        exact ih (getElem?_of_drop hnext).2.2

end Reads

/-- **Surrogates are screened.** In a text that is made as JSON is, the scan
finds whether the surrogates of every string literal are paired; and for all
bytes it ends, and reads what is there. -/
theorem escapes_screened :
    (∀ parts : List Part,
      validEscapes (parts.flatMap Part.text) = some (parts.all Part.paired)) ∧
    ∀ data : Bytes, (validEscapes data).isSome = true :=
  ⟨fun parts => scanEscapes_parts parts rfl, fun data => isSome_scanEscapes data 0 false⟩

end I18n
