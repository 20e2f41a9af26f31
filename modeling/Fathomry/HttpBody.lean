import Mathlib.Algebra.BigOperators.Group.List.Lemmas
import Mathlib.Algebra.Order.BigOperators.Group.List
import Mathlib.Algebra.Order.Ring.Int
import Fathomry.Failure
import Fathomry.Mealy

/-!
# The byte budget of HTTP bodies

All bodies of an operation in one direction are read from one budget. A read
reserves what it may need before it goes to its source, and may reserve one
byte more than the maximum: a source that has just the maximum is then read to
its end, and one that has more is found out. That byte is never handed out.

Reads of several bodies overlap, so what one of them finds used has little to
do with what it found before. What holds is said of the sum: used and reserved
never pass the maximum by more than one. Hence whoever passes it is the last
one, with nobody else at their source, and takes back exactly one byte.
-/

namespace HttpBody

inductive Kind
  | input | state | limit | read | integrity

/-- An error of a source, by what `errors.Is` finds in it. -/
inductive Native (ε : Type)
  | eof (err : ε)
  | unexpectedEOF (err : ε)
  | other (err : ε)

abbrev Err (ε : Type) := Fault Kind Unit (Native ε)

variable {ε : Type}

def failure (kind : Kind) (operation : String) (causes : List (Option (Err ε))) : Err ε :=
  .new kind operation "httpclient.nethttp.v1" () causes

def isLimit : Err ε → Bool
  | .occurrence .limit _ _ _ _ => true
  | _ => false

/-- **One direction of an operation**, and its reads that are at their source, by what they
have reserved. -/
structure Operation (ε : Type) where
  used : ℤ
  reserved : ℤ
  primary : Option (Err ε)
  reading : List ℤ

/-- Before it reserves, a read asks the gate of its body, and a read of a request the
context. -/
inductive Gate (ε : Type)
  | passed
  | closed
  | ended (err : ε)

inductive Event (ε : Type)
  | read (length : ℕ) (gate : Gate ε)
  | finish (length count : ℤ) (err : Option (Native ε))

/-- A read goes to its source, is refused, or returns with what the source answered; it
begins alone, or while others are at their source. -/
inductive Action (ε : Type)
  | began (alone : Bool)
  | refused (alone : Bool) (err : Option (Err ε))
  | read (length source : ℤ) (found : Option (Native ε)) (count : ℤ) (err : Option (Err ε))

namespace Action

def handed : Action ε → ℤ
  | .read _ _ _ count _ => count
  | _ => 0

def supplied : Action ε → ℤ
  | .read length source _ _ _ => if source < 0 ∨ length < source then 0 else source
  | _ => 0

def limited : Action ε → Bool
  | .began _ => false
  | .refused _ err | .read _ _ _ _ err => err.any isLimit

def overlaps : Action ε → Bool
  | .began alone | .refused alone _ => !alone
  | .read .. => false

end Action

namespace Operation

variable (request : Bool) (maximum : ℤ) (op : Operation ε)

def fail (err : Err ε) : Operation ε := { op with primary := op.primary.or (some err) }

/-- An error of a source is the operation's own, unless it is the end. -/
def note : Option (Native ε) → Operation ε
  | none | some (.eof _) => op
  | some (.unexpectedEOF e) =>
    op.fail (failure .integrity "body" [some (.native (.unexpectedEOF e))])
  | some (.other e) => op.fail (failure .read "body" [some (.native (.other e))])

def reserveRead (length : ℤ) : Except (Err ε) (ℤ × Operation ε) :=
  if maximum < op.used then .error (failure .limit "body" [])
  else
    let available := maximum + 1 - op.used - op.reserved
    if available ≤ 0 then .error (failure .limit "concurrent-body-budget" [])
    else
      let length := min length available
      .ok (length, { op with reserved := op.reserved + length })

def finishRead (count reserved : ℤ) (readErr : Option (Native ε)) :
    ℤ × Option (Err ε) × Operation ε :=
  let op := { op with reserved := op.reserved - reserved }
  if count < 0 ∨ reserved < count then
    let err := failure .input "invalid-reader" []
    (0, some err, op.fail err)
  else
    let op := { op with used := op.used + count }
    if maximum < op.used then
      let err := failure .limit "body" []
      (max 0 (count - (op.used - maximum)), some err, op.fail err)
    else
      (count, readErr.map .native, op.note readErr)

/-- `requestBody` and `responseBody`, in a text. -/
def body : String := if request then "request-body" else "response-body"

def refuse (err : Option (Err ε)) : Reaction (Operation ε) (Action ε) :=
  ⟨op, [.refused op.reading.isEmpty err]⟩

/-- **`Read`**, up to its source and from there on. -/
def turn : Event ε → Option (Reaction (Operation ε) (Action ε))
  | .read 0 _ => some (op.refuse none)
  | .read _ .closed => some (op.refuse (some (failure .state (body request ++ "-closed") [])))
  | .read _ (.ended err) => some (op.refuse (some (.native (.other err))))
  | .read length .passed =>
    match op.reserveRead maximum length with
    | .error err => some (op.refuse (some err))
    | .ok (length, op') =>
      if length = 0 then some (op'.refuse (some (failure .limit (body request) [])))
      else some ⟨{ op' with reading := length :: op.reading }, [.began op.reading.isEmpty]⟩
  | .finish length count err =>
    if length ∈ op.reading then
      match op.finishRead maximum count length err with
      | (n, e, op') =>
        some ⟨{ op' with reading := op.reading.erase length }, [.read length count err n e]⟩
    else none

def init : Operation ε := ⟨0, 0, none, []⟩

def machine : Mealy (Operation ε) (Event ε) (Action ε) :=
  ⟨init, fun op l => op.turn request maximum l⟩

/-- **What holds of every budget.** -/
structure Inv (log : List (Action ε)) : Prop where
  pos : ∀ n ∈ op.reading, 0 < n
  reserved : op.reserved = op.reading.sum
  fits : op.used + op.reserved ≤ maximum + 1
  handed : (log.map Action.handed).sum = min op.used maximum
  supplied : (log.map Action.supplied).sum = op.used
  exceeded : maximum < op.used → ∃ a ∈ log, a.limited
  limited : ∀ a ∈ log, a.limited → maximum < op.used ∨ a.overlaps
  plain : ∀ length c f n e, .read length c f n e ∈ log → 0 ≤ c → c ≤ length →
    maximum < op.used ∨ n = c ∧ e = f.map .native

/-- **What an action adds.** -/
structure Adds (op' : Operation ε) (a : Action ε) : Prop where
  used : op'.used = op.used + a.supplied
  supplied : 0 ≤ a.supplied
  handed : min op.used maximum + a.handed = min op'.used maximum
  exceeded : maximum < op'.used → maximum < op.used ∨ a.limited
  limited : a.limited → maximum < op'.used ∨ a.overlaps
  plain : ∀ length c f n e, a = .read length c f n e → 0 ≤ c → c ≤ length →
    maximum < op'.used ∨ n = c ∧ e = f.map .native

variable {request maximum op} {log : List (Action ε)} {length count n : ℤ}
  {err : Option (Native ε)} {e : Option (Err ε)} {op' : Operation ε}

theorem used_note : (op.note err).used = op.used ∧ (op.note err).reserved = op.reserved := by
  fun_cases note
  all_goals exact ⟨rfl, rfl⟩

/-- **An answer of the source**: what is below the maximum is handed out. -/
theorem adds_finishRead (hfits : op.used + length ≤ maximum + 1) (hpos : 0 < length)
    (hf : op.finishRead maximum count length err = (n, e, op')) :
    Adds maximum op op' (.read length count err n e)
      ∧ op'.reserved = op.reserved - length ∧ op'.used ≤ op.used + length := by
  revert hf
  unfold finishRead
  dsimp only
  split_ifs with hc hx
  · rintro ⟨⟩
    have hzero (n e) : (Action.read length count err n e).supplied = 0 := if_pos hc
    refine ⟨⟨?_, (hzero _ _).ge, add_zero _, .inl, nofun, ?_⟩, rfl, ?_⟩
    · rw [hzero]
      exact (add_zero _).symm
    · rintro _ _ _ _ _ ⟨⟩ h0 hlen
      omega
    · exact le_add_of_nonneg_right hpos.le
  all_goals
    have hall (n e) : (Action.read length count err n e).supplied = count := if_neg hc
    rintro ⟨⟩
  · refine ⟨⟨?_, ?_, ?_, fun _ => .inr rfl, fun _ => .inl hx, fun _ _ _ _ _ _ _ _ => .inl hx⟩,
      rfl, ?_⟩
    · rw [hall]
      rfl
    · rw [hall]
      omega
    · show _ + max 0 (count - (op.used + count - maximum)) = min (op.used + count) maximum
      omega
    · show op.used + count ≤ _
      omega
  · obtain ⟨hu, hr⟩ :=
      @used_note _ ⟨op.used + count, op.reserved - length, op.primary, op.reading⟩ err
    refine ⟨⟨?_, ?_, ?_, fun hlt => absurd (hlt.trans_eq hu) hx, ?_, ?_⟩, hr, ?_⟩
    · rw [hall]
      exact hu
    · rw [hall]
      omega
    · rw [hu]
      show _ + count = min (op.used + count) maximum
      omega
    · cases err
      all_goals exact nofun
    · rintro _ _ _ _ _ ⟨⟩ h0 hlen
      exact .inr ⟨rfl, rfl⟩
    · rw [hu]
      show op.used + count ≤ _
      omega

namespace Inv

variable (h : op.Inv maximum log) include h

/-- **An action**, and the reads that are at their source after it. -/
theorem adds {a : Action ε} (ha : Adds maximum op op' a)
    (hpos : ∀ n ∈ op'.reading, 0 < n) (hres : op'.reserved = op'.reading.sum)
    (hfits : op'.used + op'.reserved ≤ maximum + 1) : op'.Inv maximum (log ++ [a]) := by
  have hle : op.used ≤ op'.used := ha.used ▸ le_add_of_nonneg_right ha.supplied
  refine ⟨hpos, hres, hfits, ?_, ?_, fun hx => ?_, fun b hb hl => ?_,
    fun length c f n e hm h0 hc => ?_⟩
  · simpa [h.handed] using ha.handed
  · simpa [h.supplied] using ha.used.symm
  · obtain hx | hx := ha.exceeded hx
    · obtain ⟨b, hb, hl⟩ := h.exceeded hx
      exact ⟨b, List.mem_append_left _ hb, hl⟩
    · exact ⟨a, by simp, hx⟩
  · obtain hb | hb := List.mem_append.mp hb
    · exact (h.limited b hb hl).imp_left hle.trans_lt'
    · cases List.mem_singleton.mp hb
      exact ha.limited hl
  · obtain hm | hm := List.mem_append.mp hm
    · exact (h.plain length c f n e hm h0 hc).imp_left hle.trans_lt'
    · exact ha.plain length c f n e (List.mem_singleton.mp hm).symm h0 hc

theorem refuse (he : e.any isLimit → maximum < op.used ∨ op.reading ≠ []) :
    op.Inv maximum (log ++ (op.refuse e).actions) := by
  refine h.adds ⟨(add_zero _).symm, le_rfl, add_zero _, .inl, fun hl => ?_, nofun⟩ h.pos h.reserved
    h.fits
  simpa [Action.overlaps] using he hl

/-- A read that does not go to its source is late, or not alone. -/
theorem reserve_error {k : ℕ} {err : Err ε} (hr : op.reserveRead maximum k = .error err) :
    maximum < op.used ∨ op.reading ≠ [] := by
  revert hr
  fun_cases reserveRead
  · next hx => exact fun _ => .inl hx
  · next ha =>
    refine fun _ => .inr fun hn => ?_
    have hres := h.reserved
    rw [hn, List.sum_nil] at hres
    omega
  · exact nofun

theorem reserve {k : ℕ} (hk : k ≠ 0) (hr : op.reserveRead maximum k = .ok (n, op')) :
    0 < n ∧ Inv maximum { op' with reading := n :: op.reading }
      (log ++ [.began op.reading.isEmpty]) := by
  revert hr
  unfold reserveRead
  dsimp only
  split_ifs
  iterate 2 exact nofun
  rintro ⟨⟩
  have hpos : 0 < min (k : ℤ) (maximum + 1 - op.used - op.reserved) := by omega
  refine ⟨hpos, ?_⟩
  refine h.adds ⟨(add_zero _).symm, le_rfl, add_zero _, .inl, nofun, nofun⟩ ?_ ?_ ?_
  · exact List.forall_mem_cons.mpr ⟨hpos, h.pos⟩
  · rw [List.sum_cons, ← h.reserved]
    exact add_comm _ _
  · dsimp only
    omega

theorem finish (hm : length ∈ op.reading)
    (hf : op.finishRead maximum count length err = (n, e, op')) :
    Inv maximum { op' with reading := op.reading.erase length }
      (log ++ [.read length count err n e]) := by
  have hsum := List.sum_erase hm
  have hrest : 0 ≤ (op.reading.erase length).sum :=
    List.sum_nonneg fun n hn => (h.pos n (List.mem_of_mem_erase hn)).le
  have hres := h.reserved
  have hfits := h.fits
  obtain ⟨⟨h1, h2, h3, h4, h5, h6⟩, hr, hu⟩ := adds_finishRead (by omega) (h.pos _ hm) hf
  refine h.adds ⟨h1, h2, h3, h4, h5, h6⟩ (fun n hn => h.pos n (List.mem_of_mem_erase hn)) ?_ ?_
  all_goals
    dsimp only
    omega

/-- **What a budget is kept by.** -/
theorem turn {l : Event ε} {t : Reaction (Operation ε) (Action ε)}
    (ht : op.turn request maximum l = some t) : t.state.Inv maximum (log ++ t.actions) := by
  revert ht
  fun_cases Operation.turn
  all_goals rintro ⟨⟩
  iterate 3 exact h.refuse nofun
  · next _ hr => exact h.refuse fun _ => h.reserve_error hr
  · next hk _ hr => exact absurd (h.reserve hk hr).1 (lt_irrefl _)
  · next hk _ _ hr _ => exact (h.reserve hk hr).2
  · next hm _ _ _ hf => exact h.finish hm hf

theorem reading_eq_nil (hx : maximum < op.used) : op.reading = [] := by
  have hres := h.reserved
  have hfits := h.fits
  refine List.eq_nil_iff_forall_not_mem.mpr fun n hn => ?_
  have hle := List.single_le_sum (fun m hm => (h.pos m hm).le) n hn
  have hpos := h.pos n hn
  omega

end Inv

/-- Past the maximum every read is refused. -/
theorem spent (hx : maximum < op.used) (hn : op.reading = []) {l : Event ε}
    {t : Reaction (Operation ε) (Action ε)} (ht : op.turn request maximum l = some t) :
    (maximum < t.state.used ∧ t.state.reading = [])
      ∧ t.actions.filterMap (fun a => if a.handed = 0 then none else some a) = [] := by
  have hr (k : ℕ) : op.reserveRead maximum k = .error (failure .limit "body" []) := if_pos hx
  revert ht
  fun_cases turn
  all_goals rintro ⟨⟩
  iterate 4 exact ⟨⟨hx, hn⟩, rfl⟩
  · next h => cases (hr _).symm.trans h
  · next h _ => cases (hr _).symm.trans h
  · next hm _ _ _ _ => exact absurd hm (hn ▸ List.not_mem_nil)

/-- **The budget of bodies is exact.** -/
theorem budget_exact (hmax : 0 < maximum) {tr : List (Event ε)}
    (hr : (machine request maximum).machine.Run tr op) :
    let log := (machine request maximum).log tr
    op.used + op.reserved ≤ maximum + 1
    ∧ ((log.map Action.handed).sum = min op.used maximum ∧ (op.reading = [] → op.reserved = 0))
    ∧ (maximum < op.used → ∀ {tr' op'}, (machine request maximum).machine.exec op tr' = some op' →
      (machine request maximum).did (fun a => if a.handed = 0 then none else some a) op tr' = [])
    ∧ ((∀ a ∈ log, ¬ a.overlaps) →
      ((∃ a ∈ log, a.limited) ↔ maximum < (log.map Action.supplied).sum)
      ∧ ((log.map Action.supplied).sum ≤ maximum → ∀ length c f n e,
        .read length c f n e ∈ log → 0 ≤ c → c ≤ length → n = c ∧ e = f.map .native)) := by
  have h : op.Inv maximum ((machine request maximum).log tr) := by
    refine Mealy.log_invariant (I := fun log op => op.Inv maximum log) ?_ (fun h => h.turn) hr
    refine ⟨nofun, rfl, ?_, ?_, rfl, fun hx => absurd hx hmax.not_gt, nofun, nofun⟩
    · show (0 : ℤ) + 0 ≤ _
      omega
    · exact (min_eq_left hmax.le).symm
  refine ⟨h.fits, ⟨h.handed, fun hn => ?_⟩, fun hx _ _ he => ?_, fun ha => ⟨⟨?_, ?_⟩, ?_⟩⟩
  · rw [h.reserved, hn]
    rfl
  · refine (Mealy.did_eq_nil (P := fun op => maximum < op.used ∧ op.reading = []) (fun hP ht => ?_)
      ⟨hx, h.reading_eq_nil hx⟩ he).1
    exact spent hP.1 hP.2 ht
  · rintro ⟨a, hm, hl⟩
    exact h.supplied.symm ▸ (h.limited a hm hl).resolve_right (ha a hm)
  · exact fun hx => h.exceeded (h.supplied ▸ hx)
  · intro hle length c f n e hm h0 hc
    exact (h.plain length c f n e hm h0 hc).resolve_left (h.supplied ▸ hle).not_gt

def sampleExcess : List (Event Empty) := [.read 4 .passed, .finish 2 2 none]

theorem budget_exact_excess : ∃ op, (machine true 1).machine.Run sampleExcess op ∧ 1 < op.used
    ∧ (((machine true 1).log sampleExcess).map Action.handed).sum = min op.used 1 := by
  have hr := (machine true 1).machine.run_reached sampleExcess (by decide +kernel)
  exact ⟨_, hr, by decide +kernel, (budget_exact (by decide) hr).2.1.1⟩

end Operation

end HttpBody
