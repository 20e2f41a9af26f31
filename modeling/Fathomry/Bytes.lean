import Mathlib.Data.List.Basic
import Mathlib.Data.BitVec

/-!
# Bytes

Numbers in a sequence of bytes, in both orders, and bytes that are replaced
in place. The flags of a little-endian word belong to its bytes, and are set
there one by one (`little_or`).
-/

/-- A sequence of bytes. -/
abbrev Bytes := List UInt8

namespace Bytes

/-- The bytes of a text in ASCII. -/
def text (s : String) : Bytes := s.toList.map (fun c => UInt8.ofNat c.toNat)

/-- A little-endian number. -/
def little (data : Bytes) : ℕ := data.foldr (fun b n => b.toNat + 256 * n) 0

/-- A big-endian number. -/
def big (data : Bytes) : ℕ := data.foldl (fun n b => 256 * n + b.toNat) 0

/-- `n` bytes of a little-endian number. -/
def ofLittle : ℕ → ℕ → Bytes
  | 0, _ => []
  | n + 1, x => UInt8.ofNat x :: ofLittle n (x / 256)

/-- `n` bytes of a big-endian number. -/
def ofBig (n x : ℕ) : Bytes := (ofLittle n x).reverse

/-- The `n` bytes from a position on. -/
def slice (data : Bytes) (pos n : ℕ) : Bytes := (data.drop pos).take n

/-- Bytes are put in the place of others. -/
def put (data : Bytes) (pos : ℕ) (bytes : Bytes) : Bytes :=
  data.take pos ++ bytes ++ data.drop (pos + bytes.length)

theorem little_cons (b : UInt8) (data : Bytes) : little (b :: data) = b.toNat + 256 * little data :=
  rfl

/-- The bytes of a number are the bytes it was read from. -/
theorem ofLittle_little (data : Bytes) : ofLittle data.length (little data) = data := by
  induction data with
  | nil => rfl
  | cons b data ih =>
    have hb := b.toNat_lt
    have hdiv : (b.toNat + 256 * little data) / 256 = little data := by omega
    have hmod : UInt8.ofNat (b.toNat + 256 * little data) = b := by
      apply UInt8.toNat_inj.mp
      rw [UInt8.toNat_ofNat']
      omega
    rw [List.length_cons, little_cons, ofLittle, hdiv, hmod, ih]

/-- The number that bytes were made from. -/
theorem little_ofLittle (n x : ℕ) : little (ofLittle n x) = x % 256 ^ n := by
  induction n generalizing x with
  | zero => exact (Nat.mod_one x).symm
  | succ n ih =>
    have hmod : x % 256 ^ (n + 1) = x % 2 ^ 8 + 256 * (x / 256 % 256 ^ n) := by
      rw [pow_succ', Nat.mod_mul]
      rfl
    rw [ofLittle, little_cons, ih, UInt8.toNat_ofNat', hmod]

theorem big_ofBig (n x : ℕ) : big (ofBig n x) = x % 256 ^ n := by
  rw [← little_ofLittle]
  unfold big ofBig little
  rw [List.foldl_reverse]
  congr 1
  funext b n
  exact add_comm _ _

theorem length_ofBig (n x : ℕ) : (ofBig n x).length = n := by
  rw [ofBig, List.length_reverse]
  induction n generalizing x with
  | zero => rfl
  | succ n ih => rw [ofLittle, List.length_cons, ih]

/-! ## Flags -/

/-- Bytes do not overlap. -/
theorem add_or_add {a b x y : ℕ} (ha : a < 256) (hx : x < 256) :
    (a + 256 * b) ||| (x + 256 * y) = (a ||| x) + 256 * (b ||| y) := by
  have hsplit : ∀ u v : ℕ, u < 256 → u + 256 * v = v <<< 8 ||| u := fun u v hu => by
    rw [← Nat.shiftLeft_add_eq_or_of_lt (show u < 2 ^ 8 from hu), Nat.shiftLeft_eq]
    omega
  have hor : a ||| x < 256 := Nat.or_lt_two_pow (n := 8) ha hx
  rw [hsplit a b ha, hsplit x y hx, hsplit _ _ hor, Nat.shiftLeft_or_distrib]
  rw [Nat.or_assoc, ← Nat.or_assoc a, Nat.or_comm a, Nat.or_assoc (y <<< 8), ← Nat.or_assoc]

/-- **Flags are set byte by byte.** -/
theorem little_or (data mask : Bytes) (h : data.length = mask.length) :
    little data ||| little mask = little (List.zipWith (· ||| ·) data mask) := by
  induction data generalizing mask with
  | nil =>
    obtain rfl := List.length_eq_zero_iff.mp h.symm
    rfl
  | cons b data ih =>
    cases mask with
    | nil => cases h
    | cons m mask =>
      rw [List.zipWith_cons_cons, little_cons, little_cons, little_cons,
        add_or_add b.toNat_lt m.toNat_lt, ih mask (Nat.succ.inj h), UInt8.toNat_or]

/-- `flags | mask`, on the little-endian word of four bytes at a position. -/
def setFlags (data : Bytes) (pos mask : ℕ) : Bytes :=
  data.put pos (ofLittle 4 (little (data.slice pos 4) ||| mask))

end Bytes
