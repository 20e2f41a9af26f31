import Mathlib

/-!
# Readers

A reader gives what it has in chunks of its own choice: any number of bytes
up to what is asked for, none included, and possibly an error with them. The
chunks are decided outside. A loop over a reader takes a list of them, which
has to end exactly where the loop does.
-/

variable {α φ : Type*}

/-- **What one `Read` gives**: a number of bytes, and an error. -/
structure Chunk (φ : Type*) where
  count : ℕ
  err : Option φ

namespace Reader

/-- `io.ReadFull`, on what a reader has left: the bytes it got, and its
error. An error with the last byte that was needed is dropped. -/
def readFull : ℕ → List α → List (Chunk φ) → Option (List α × Option φ)
  | 0, _, [] => some ([], none)
  | 0, _, _ :: _ => none
  | _ + 1, _, [] => none
  | need + 1, rest, c :: cs =>
    if need + 1 < c.count || rest.length < c.count then none
    else match c.err with
    | none => (readFull (need + 1 - c.count) (rest.drop c.count) cs).map
        (fun got => (rest.take c.count ++ got.1, got.2))
    | some err =>
      if cs.isEmpty then
        some (rest.take c.count, if c.count = need + 1 then none else some err)
      else none

/-- **What `io.ReadFull` gets** is the beginning of what is left: all that is
needed, or less and an error. -/
theorem readFull_spec {need : ℕ} {rest data : List α} {cs : List (Chunk φ)} {err : Option φ}
    (h : readFull need rest cs = some (data, err)) :
    data <+: rest ∧ data.length ≤ need ∧ (err = none → data.length = need) := by
  fun_induction readFull need rest cs generalizing data err with
  | case1 rest =>
    cases h
    exact ⟨List.nil_prefix, le_rfl, fun _ => rfl⟩
  | case2 rest c cs => cases h
  | case3 need rest => cases h
  | case4 need rest c cs hc => cases h
  | case5 need rest c cs hc he ih =>
    obtain ⟨⟨d, e⟩, hd, hde⟩ := Option.map_eq_some_iff.mp h
    cases hde
    obtain ⟨⟨tail, ht⟩, hle, hall⟩ := ih hd
    simp only [Bool.or_eq_true, decide_eq_true_eq, not_or, not_lt] at hc
    have hlen : (rest.take c.count ++ d).length = c.count + d.length := by
      rw [List.length_append, List.length_take, Nat.min_eq_left hc.2]
    refine ⟨⟨tail, ?_⟩, ?_, fun hn => ?_⟩
    · rw [List.append_assoc, ht, List.take_append_drop]
    · rw [hlen]
      omega
    · rw [hlen, hall hn]
      omega
  | case6 need rest c cs hc e he hcs =>
    cases h
    simp only [Bool.or_eq_true, decide_eq_true_eq, not_or, not_lt] at hc
    have hlen : (rest.take c.count).length = c.count := by
      rw [List.length_take, Nat.min_eq_left hc.2]
    refine ⟨List.take_prefix _ _, hlen.trans_le hc.1, fun hn => ?_⟩
    rw [hlen]
    by_contra hne
    rw [if_neg hne] at hn
    cases hn
  | case7 need rest c cs hc e he hcs => cases h

/-- **Why `io.ReadFull` gets less**: a chunk came with an error. -/
theorem readFull_error {need : ℕ} {rest data : List α} {cs : List (Chunk φ)} {err : φ}
    (h : readFull need rest cs = some (data, some err)) :
    data.length = (cs.map Chunk.count).sum ∧ data.length < need ∧ ∃ c ∈ cs, c.err = some err := by
  fun_induction readFull need rest cs generalizing data with
  | case1 | case2 | case3 | case4 | case7 => cases h
  | case5 need rest c cs hc he ih =>
    obtain ⟨⟨d, e⟩, hd, hde⟩ := Option.map_eq_some_iff.mp h
    cases hde
    obtain ⟨hlen, hlt, c', hc', herr⟩ := ih hd
    simp only [Bool.or_eq_true, decide_eq_true_eq, not_or, not_lt] at hc
    refine ⟨?_, ?_, c', .tail _ hc', herr⟩
    · simp [hlen, Nat.min_eq_left hc.2]
    · have hd : (rest.take c.count ++ d).length = c.count + d.length := by
        rw [List.length_append, List.length_take, Nat.min_eq_left hc.2]
      show (rest.take c.count ++ d).length < need + 1
      omega
  | case6 need rest c cs hc e he hcs =>
    simp only [Bool.or_eq_true, decide_eq_true_eq, not_or, not_lt] at hc
    obtain ⟨rfl, hsome⟩ := Prod.mk.inj (Option.some.inj h)
    split_ifs at hsome with hne
    cases hsome
    obtain rfl := List.isEmpty_iff.mp hcs
    refine ⟨?_, ?_, c, .head _, he⟩
    · simp [Nat.min_eq_left hc.2]
    · rw [List.length_take, Nat.min_eq_left hc.2]
      omega

end Reader
