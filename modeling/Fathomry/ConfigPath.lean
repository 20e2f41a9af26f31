import Fathomry.Pointer
import Fathomry.ConfigShape

/-!
# Paths into a configuration

Two packages read JSON pointers, each with a parser of its own. `parsePath` of the
settings takes any path, and leaves it to the reader what it names; `variablePath`
binds a variable to a field, and walks down the type of the configuration while it
decodes the tokens.

**Both read the same language** (`paths_round_trip`): a list of keys is read back from
the pointer that encodes it, a path that is accepted is the encoding of its keys, and
where `variablePath` accepts a path, `parsePath` does, with the same keys. The limits
of the two are in other places – one counts slashes and the other one tokens – and
agree.
-/

namespace Settings

open Pointer

def maxPathBytes : ℕ := 4096

def maxPathSegments : ℕ := 64

/-- A rejected path; the operation is always that of reading. -/
inductive Rejection where
  | path (operation : String)
  deriving DecidableEq, Repr

/-- A token that is decoded, if its escapes are. -/
def parseToken (token : Bytes) : Except Rejection Bytes :=
  if escaped token then .ok (decode token) else .error (.path "read")

/-- **The keys of a path.** -/
def parsePath (path : Bytes) : Except Rejection (List Bytes) :=
  if path.length > maxPathBytes ∨ !path.validUTF8 ∨ (path ≠ [] ∧ path.head? ≠ some slash) ∨
      path.count slash > maxPathSegments then
    .error (.path "read")
  else if path = [] then
    .ok []
  else
    (path.tail.splitOn slash).mapM parseToken

theorem mapM_parseToken_iff {tokens keys : List Bytes} :
    tokens.mapM parseToken = .ok keys ↔
      (∀ token ∈ tokens, escaped token = true) ∧ tokens.map decode = keys := by
  induction tokens generalizing keys with
  | nil => simp [pure, Except.pure]
  | cons token tokens =>
    rw [List.mapM_cons]
    cases htoken : escaped token with
    | false => simp [parseToken, htoken, bind, Except.bind]
    | true =>
      have hok : parseToken token = .ok (decode token) := if_pos htoken
      simp only [hok, bind, Except.bind]
      cases hrest : tokens.mapM parseToken with
      | error =>
        simp_all
      | ok =>
        dsimp only [pure, Except.pure]
        grind

/-- What a path that is not empty has to be. -/
theorem parsePath_cons_iff {byte : UInt8} {text : Bytes} {keys : List Bytes} :
    parsePath (byte :: text) = .ok keys ↔
      byte = slash ∧ (byte :: text).length ≤ maxPathBytes ∧
        Bytes.validUTF8 (byte :: text) = true ∧
        (byte :: text).count slash ≤ maxPathSegments ∧
        (∀ token ∈ text.splitOn slash, escaped token = true) ∧
        (text.splitOn slash).map decode = keys := by
  unfold parsePath
  rw [if_neg (List.cons_ne_nil byte text), ← mapM_parseToken_iff]
  split_ifs with hbad
  · grind
  · grind

/-- **Keys are read back from the pointer that encodes them.** -/
theorem parsePath_encode {keys : List Bytes} (hutf8 : ∀ key ∈ keys, key.validUTF8 = true)
    (hsegments : keys.length ≤ maxPathSegments) (hbytes : (encode keys).length ≤ maxPathBytes) :
    parsePath (encode keys) = .ok keys := by
  cases keys with
  | nil => decide
  | cons key keys =>
    have hcons := encode_cons key keys
    have hsplit := splitOn_encode key keys
    have hvalid := validUTF8_encode hutf8
    have hcount := count_encode (key :: keys)
    rw [hcons] at hbytes hvalid hcount ⊢
    rw [parsePath_cons_iff]
    refine ⟨rfl, hbytes, hvalid, hcount.trans_le hsegments, ?_, ?_⟩
    · rw [hsplit]
      intro token htoken
      obtain ⟨key', -, rfl⟩ := List.mem_map.mp htoken
      exact escaped_escape key'
    · rw [hsplit, List.map_map]
      exact (List.map_congr_left fun key' _ => decode_escape key').trans (List.map_id _)

/-- **An accepted path is the encoding of its keys.** -/
theorem encode_parsePath {path : Bytes} {keys : List Bytes} (h : path ≠ [])
    (hp : parsePath path = .ok keys) : encode keys = path := by
  obtain ⟨byte, text, rfl⟩ := List.exists_cons_of_ne_nil h
  obtain ⟨rfl, -, -, -, hescaped, rfl⟩ := parsePath_cons_iff.mp hp
  exact encode_splitOn hescaped

end Settings

namespace ConfigSource

open Pointer

def noPath : Failure := ⟨.input, "variable_path"⟩

/-- Decodes the tokens and walks down the type: every key must name a field of the
struct that is reached, through pointers. -/
def walk : Shape → List Bytes → Except Failure (List Bytes × Shape)
  | selected, [] => .ok ([], selected)
  | selected, token :: tokens =>
    if escaped token then
      match selected.target with
      | .struct names field =>
        if decode token ∈ names then
          (walk (field (decode token)) tokens).map fun (keys, shape) =>
            (decode token :: keys, shape)
        else
          .error noPath
      | _ => .error noPath
    else
      .error noPath

/-- **The keys of the path of a variable**, and the type of the field it names. -/
def variablePath (root : Shape) (path : Bytes) : Except Failure (List Bytes × Shape) :=
  if path.length = 0 ∨ path.length > 4096 ∨ path.head? ≠ some slash ∨ !path.validUTF8 then
    .error noPath
  else if (path.tail.splitOn slash).length > maxDepth then
    .error ⟨.limit, "variable_path"⟩
  else
    walk root (path.tail.splitOn slash)

theorem walk_ok {selected shape : Shape} {tokens keys : List Bytes}
    (h : walk selected tokens = .ok (keys, shape)) :
    (∀ token ∈ tokens, escaped token = true) ∧ tokens.map decode = keys := by
  induction tokens generalizing selected keys with
  | nil =>
    cases h
    simp
  | cons token tokens ih =>
    unfold walk at h
    split_ifs at h with htoken
    split at h
    · split_ifs at h
      -- the rest of the walk has succeeded too
      cases hrest : walk _ tokens with
      | error =>
        rw [hrest] at h
        cases h
      | ok =>
        rw [hrest] at h
        cases h
        obtain ⟨hescaped, hkeys⟩ := ih hrest
        exact ⟨List.forall_mem_cons.mpr ⟨htoken, hescaped⟩, by rw [List.map_cons, hkeys]⟩
    · cases h

theorem parsePath_of_variablePath {root shape : Shape} {path : Bytes} {keys : List Bytes}
    (h : variablePath root path = .ok (keys, shape)) : Settings.parsePath path = .ok keys := by
  unfold variablePath at h
  split_ifs at h with hbad hdeep
  obtain ⟨hescaped, hkeys⟩ := walk_ok h
  cases path with
  | nil => exact absurd (.inl rfl) hbad
  | cons byte text =>
    have hbyte : byte = slash ∧ (byte :: text).length ≤ 4096 ∧
        Bytes.validUTF8 (byte :: text) = true := by grind
    -- as many slashes as tokens: the first one is before them, the others between
    have hcount : (byte :: text).count slash = (text.splitOn slash).length := by
      rw [hbyte.1, List.count_cons_self, (splitOn_tokens slash text).2]
    exact Settings.parsePath_cons_iff.mpr ⟨hbyte.1, hbyte.2.1, hbyte.2.2,
      hcount.trans_le (not_lt.mp hdeep), hescaped, hkeys⟩

end ConfigSource

/-- **The two parsers of paths read the pointers that `encode` writes.** Keys that are
texts, not too many and not too long, are read back from their encoding; a path that is
accepted encodes its keys; and a path that a variable may have is read alike by both. -/
theorem Settings.paths_round_trip :
    (∀ keys : List Bytes, (∀ key ∈ keys, key.validUTF8 = true) → keys.length ≤ 64 →
      (Pointer.encode keys).length ≤ maxPathBytes → parsePath (Pointer.encode keys) = .ok keys) ∧
    (∀ (path : Bytes) (keys : List Bytes), path ≠ [] → parsePath path = .ok keys →
      Pointer.encode keys = path) ∧
    ∀ (root shape : ConfigSource.Shape) (path : Bytes) (keys : List Bytes),
      ConfigSource.variablePath root path = .ok (keys, shape) → parsePath path = .ok keys :=
  ⟨fun _ hutf8 hsegments hbytes => parsePath_encode hutf8 hsegments hbytes,
    fun _ _ h hp => encode_parsePath h hp,
    fun _ _ _ _ h => ConfigSource.parsePath_of_variablePath h⟩
