import Fathomry.Utf8
import Mathlib.Data.List.Basic

/-!
# JSON pointers

A pointer names a member of a document by the keys that lead to it, each of them
after a slash. A slash in a key is written `~1` and a tilde `~0`; decoding undoes
this in two passes over the text, first the slashes and then the tildes.

**The two passes are one** (`decode_cons_of_ne`, `decode_tilde`, `decode_slash`) on a
text where every tilde begins an escape, which is a test of its own (`escaped`): the
first pass leaves every `~0` as it is and makes no new one, as what it writes is no
tilde. So the texts that pass the test and have no slash are exactly those that
`escape` writes (`escape_decode`, `escaped_escape`), and there decoding is its
inverse.
-/

namespace Pointer

def slash : UInt8 := 47

def tilde : UInt8 := 126

def zero : UInt8 := 48

def one : UInt8 := 49

/-- Replaces a pair of bytes by one byte, wherever it occurs, from the left. -/
def replaceAll (first second new : UInt8) : Bytes → Bytes
  | [] => []
  | [x] => [x]
  | x :: y :: rest =>
    if x = first ∧ y = second then
      new :: replaceAll first second new rest
    else
      x :: replaceAll first second new (y :: rest)

/-- Whether every tilde begins an escape. -/
def escaped : Bytes → Bool
  | [] => true
  | [x] => x ≠ tilde
  | x :: y :: rest =>
    if x = tilde then (y = zero ∨ y = one) && escaped rest else escaped (y :: rest)

/-- Decodes a token: first the slashes, then the tildes. -/
def decode (token : Bytes) : Bytes :=
  replaceAll tilde zero tilde (replaceAll tilde one slash token)

/-- A byte of a key, as it is written. -/
def escapeByte (byte : UInt8) : Bytes :=
  if byte = tilde then [tilde, zero] else if byte = slash then [tilde, one] else [byte]

/-- A key, as it is written. -/
def escape (key : Bytes) : Bytes := key.flatMap escapeByte

/-- The pointer with these keys. -/
def encode (keys : List Bytes) : Bytes := keys.flatMap fun key => slash :: escape key

/-! ## Decoding in one pass -/

theorem replaceAll_cons_of_ne {first second new x : UInt8} (h : x ≠ first) (rest : Bytes) :
    replaceAll first second new (x :: rest) = x :: replaceAll first second new rest := by
  cases rest with
  | nil => rfl
  | cons => rw [replaceAll, if_neg (fun hxy => h hxy.1)]

theorem decode_cons_of_ne {x : UInt8} (h : x ≠ tilde) (rest : Bytes) :
    decode (x :: rest) = x :: decode rest := by
  unfold decode
  rw [replaceAll_cons_of_ne h, replaceAll_cons_of_ne h]

theorem decode_tilde (rest : Bytes) : decode (tilde :: zero :: rest) = tilde :: decode rest := by
  have hfirst : replaceAll tilde one slash (tilde :: zero :: rest) =
      tilde :: zero :: replaceAll tilde one slash rest := by
    rw [replaceAll, if_neg (by decide), replaceAll_cons_of_ne (by decide)]
  unfold decode
  rw [hfirst, replaceAll, if_pos ⟨rfl, rfl⟩]

theorem decode_slash (rest : Bytes) : decode (tilde :: one :: rest) = slash :: decode rest := by
  unfold decode
  rw [replaceAll, if_pos ⟨rfl, rfl⟩, replaceAll_cons_of_ne (by decide)]

/-! ## Escaping and decoding are inverse to each other -/

theorem decode_escape (key : Bytes) : decode (escape key) = key := by
  induction key with
  | nil => rfl
  | cons x key ih =>
    have hcons : escape (x :: key) = escapeByte x ++ escape key := List.flatMap_cons
    rw [hcons]
    unfold escapeByte
    split_ifs with ht hs
    · simp [ht, decode_tilde, ih]
    · simp [hs, decode_slash, ih]
    · simp [decode_cons_of_ne ht, ih]

theorem escape_decode {token : Bytes} (h : escaped token = true) (hslash : slash ∉ token) :
    escape (decode token) = token := by
  have hother : ∀ x : UInt8, x ≠ tilde → x ≠ slash → ∀ rest : Bytes,
      escape (decode rest) = rest → escape (decode (x :: rest)) = x :: rest := by
    intro x ht hs rest ih
    rw [decode_cons_of_ne ht]
    change escapeByte x ++ escape (decode rest) = _
    rw [ih, escapeByte, if_neg ht, if_neg hs, List.singleton_append]
  induction token using escaped.induct with
  | case1 => rfl
  | case2 x =>
    exact hother x (by simpa [escaped] using h) (by simpa [eq_comm] using hslash) [] rfl
  | case3 y rest ih =>
    have hrest := ih (by simp_all [escaped]) (by simp_all)
    have hy : y = zero ∨ y = one := by simp_all [escaped]
    -- the pair is one of the two escapes, and decodes to one byte
    rcases hy with rfl | rfl
    · rw [decode_tilde]
      change escapeByte tilde ++ escape (decode rest) = _
      rw [hrest]
      rfl
    · rw [decode_slash]
      change escapeByte slash ++ escape (decode rest) = _
      rw [hrest]
      rfl
  | case4 x y rest hx ih =>
    have hs : slash ≠ x ∧ slash ∉ y :: rest := by rwa [List.mem_cons, not_or] at hslash
    exact hother x hx hs.1.symm _ (ih (by simpa [escaped, hx] using h) hs.2)

theorem slash_notMem_escape (key : Bytes) : slash ∉ escape key := by
  unfold escape escapeByte
  rw [List.mem_flatMap]
  rintro ⟨x, -, hx⟩
  split_ifs at hx with ht hs
  iterate 2 exact nomatch hx
  · exact hs (List.mem_singleton.mp hx).symm

theorem escaped_cons_of_ne {x : UInt8} (h : x ≠ tilde) (rest : Bytes) :
    escaped (x :: rest) = escaped rest := by
  cases rest with
  | nil => simp [escaped, h]
  | cons => rw [escaped, if_neg h]

theorem escaped_escape (key : Bytes) : escaped (escape key) = true := by
  induction key with
  | nil => rfl
  | cons x key ih =>
    have hcons : escape (x :: key) = escapeByte x ++ escape key := List.flatMap_cons
    rw [hcons]
    unfold escapeByte
    split_ifs with ht hs
    iterate 2 simpa [escaped] using ih
    · simpa [escaped_cons_of_ne ht] using ih

/-! ## Whole pointers -/

/-- The tokens of a text are those between its separators. -/
theorem splitOn_tokens (byte : UInt8) (text : Bytes) :
    (∀ token ∈ text.splitOn byte, byte ∉ token) ∧
      (text.splitOn byte).length = text.count byte + 1 := by
  induction text with
  | nil => simp
  | cons x text ih =>
    obtain ⟨token, tokens, h⟩ := List.exists_cons_of_ne_nil (List.splitOn_ne_nil byte text)
    rw [List.splitOn_cons_eq_if_modifyHead, h, List.count_cons]
    by_cases hx : x = byte
    · simp_all
    · have hx' : byte ≠ x := Ne.symm hx
      simp_all

theorem encode_cons (key : Bytes) (keys : List Bytes) :
    encode (key :: keys) = slash :: [slash].intercalate ((key :: keys).map escape) := by
  induction keys generalizing key with
  | nil => simp [encode]
  | cons next keys ih =>
    have hcons : encode (key :: next :: keys) = slash :: escape key ++ encode (next :: keys) := rfl
    rw [hcons, ih next]
    simp [List.intercalate_cons_cons]

/-- The tokens of a pointer are its keys, escaped. -/
theorem splitOn_encode (key : Bytes) (keys : List Bytes) :
    ([slash].intercalate ((key :: keys).map escape)).splitOn slash = (key :: keys).map escape := by
  refine List.splitOn_intercalate slash ?_ (List.cons_ne_nil _ _)
  intro token htoken
  obtain ⟨key', -, rfl⟩ := List.mem_map.mp htoken
  exact slash_notMem_escape key'

/-- **Encoding the decoded tokens of a text gives the text back**, after the slash that a
pointer begins with. -/
theorem encode_splitOn {text : Bytes}
    (h : ∀ token ∈ text.splitOn slash, escaped token = true) :
    encode ((text.splitOn slash).map decode) = slash :: text := by
  have htokens : ((text.splitOn slash).map decode).map escape = text.splitOn slash := by
    rw [List.map_map]
    refine (List.map_congr_left ?_).trans (List.map_id _)
    intro token htoken
    exact escape_decode (h token htoken) ((splitOn_tokens slash text).1 token htoken)
  obtain ⟨token, tokens, hsplit⟩ := List.exists_cons_of_ne_nil (List.splitOn_ne_nil slash text)
  rw [hsplit, List.map_cons] at htokens ⊢
  rw [encode_cons, htokens, ← hsplit, List.intercalate_splitOn]

theorem count_encode (keys : List Bytes) : (encode keys).count slash = keys.length := by
  induction keys with
  | nil => rfl
  | cons key keys ih =>
    have hcons : encode (key :: keys) = slash :: escape key ++ encode keys := rfl
    rw [hcons, List.count_append, List.count_cons_self, ih,
      List.count_eq_zero.mpr (slash_notMem_escape key), List.length_cons]
    omega

theorem validUTF8_encode {keys : List Bytes} (h : ∀ key ∈ keys, key.validUTF8 = true) :
    (encode keys).validUTF8 = true := by
  induction keys with
  | nil => exact Bytes.validUTF8_nil
  | cons key keys ih =>
    have hcons : encode (key :: keys) = [slash] ++ escape key ++ encode keys := rfl
    have hkey : (escape key).validUTF8 = true := by
      refine Bytes.validUTF8_flatMap ?_ ?_ (h key (.head _))
      · intro byte hbyte
        unfold escapeByte
        split_ifs
        · decide
        · decide
        · exact Bytes.validUTF8_ascii hbyte
      · intro byte hbyte
        rw [escapeByte, if_neg (by rintro rfl; exact nomatch hbyte),
          if_neg (by rintro rfl; exact nomatch hbyte)]
    rw [hcons]
    refine Bytes.validUTF8_append (Bytes.validUTF8_append (by decide) hkey) ?_
    exact ih fun key' hkey' => h key' (.tail _ hkey')

end Pointer
