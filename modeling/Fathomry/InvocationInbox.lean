import Mathlib.Algebra.BigOperators.Ring.Finset
import Fathomry.Heap
import Fathomry.Mealy

/-!
# The evidence inbox of an invocation

The evidence of a call has its place in the inbox before the call is admitted,
and keeps it until its receiver lets go of it: long before it is put into the
channel, and long after it has been taken out of it. So the channel always has
room for what has a place and is not in it, and putting it there does not
block. That is an invariant over all three stages, and over the two counters
that stand for them (`Inv`).
-/

namespace Evidence

/-- Where a record is: reserved while its call is admitted, about to be
published, in the channel, with its receiver, and being released by them; at
last released, or refused with its call. -/
inductive Phase
  | reserved | publishing | queued | received | releasing | released | refused
deriving DecidableEq

def Phase.placed : Phase → Bool
  | .released | .refused => false
  | _ => true

structure DeliveryRecord where
  bytes : ℕ
  phase : Phase

/-- What `NewInbox` accepts. -/
structure Config where
  capacity : ℕ
  maxBytes : ℤ
  capacity_pos : 0 < capacity
  maxBytes_pos : 0 < maxBytes

structure Inbox where
  records : Heap DeliveryRecord
  queue : List ℕ
  count : ℤ
  bytes : ℤ
  /-- The records of the calls whose lease is done. -/
  done : List ℕ

inductive Action
  /-- `Release` returns nil; the first time it tells the inbox. -/
  | released (r : ℕ) (first : Bool)
  | pending (r : ℕ)
deriving DecidableEq

inductive Event
  | reserve (bytes : ℤ)
  /-- The call is not admitted: `unreserve`. -/
  | refuse (r : ℕ)
  /-- The call is admitted, and its caller may want to keep the record. -/
  | accept (r : ℕ) (claimed : Bool)
  | publish (r : ℕ)
  | next
  | done (r : ℕ)
  | release (r : ℕ)
  | free (r : ℕ)

namespace Inbox

variable (config : Config) (s : Inbox)

def goto (r : ℕ) (p : Phase) : Inbox :=
  { s with records := s.records.modify r (fun x => { x with phase := p }) }

def At (r : ℕ) (p : Phase) : Prop := r < s.records.next ∧ (s.records.cell r).phase = p

instance (r : ℕ) (p : Phase) : Decidable (s.At r p) := inferInstanceAs (Decidable (_ ∧ _))

def reserve (bytes : ℤ) : Inbox :=
  { s with
    records := s.records.alloc ⟨bytes.toNat, .reserved⟩
    count := s.count + 1
    bytes := s.bytes + bytes }

def unreserve (r : ℕ) (p : Phase) : Inbox :=
  { s.goto r p with count := s.count - 1, bytes := s.bytes - (s.records.cell r).bytes }

/-- **One critical section.** A publication waits while the channel is full. -/
def turn : Event → Option (Reaction Inbox Action)
  | .reserve bytes =>
    if bytes ≤ 0 ∨ s.count = config.capacity ∨ config.maxBytes - s.bytes < bytes then some ⟨s, []⟩
    else some ⟨s.reserve bytes, []⟩
  | .refuse r => if s.At r .reserved then some ⟨s.unreserve r .refused, []⟩ else none
  | .accept r claimed =>
    if s.At r .reserved then some ⟨s.goto r (if claimed then .received else .publishing), []⟩
    else none
  | .publish r =>
    if s.At r .publishing ∧ s.queue.length < config.capacity then
      some ⟨{ s.goto r .queued with queue := s.queue ++ [r] }, []⟩
    else none
  | .next =>
    match s.queue with
    | r :: rest => some ⟨{ s.goto r .received with queue := rest }, []⟩
    | [] => none
  | .done r => some ⟨{ s with done := r :: s.done }, []⟩
  | .release r =>
    if s.At r .released then some ⟨s, [.released r false]⟩
    else if s.At r .received then
      if r ∈ s.done then some ⟨s.goto r .releasing, []⟩ else some ⟨s, [.pending r]⟩
    else none
  | .free r =>
    if s.At r .releasing then some ⟨s.unreserve r .released, [.released r true]⟩ else none

def init : Inbox := ⟨.empty ⟨0, .refused⟩, [], 0, 0, []⟩

def machine : Mealy Inbox Event Action := ⟨init, fun s l => s.turn config l⟩

def number (phases : List Phase) : ℕ := s.records.count (fun x => x.phase ∈ phases)

def charged (f : ℕ → ℤ) : ℤ :=
  s.records.total (fun x => if x.phase.placed then f x.bytes else 0)

/-- **What holds of every inbox.** -/
structure Inv (log : List Action) : Prop where
  nodup : s.queue.Nodup
  queue : ∀ r, r ∈ s.queue ↔ s.At r .queued
  count : s.count = s.charged (fun _ => 1)
  bytes : s.bytes = s.charged Nat.cast
  fits : s.count ≤ config.capacity ∧ s.bytes ≤ config.maxBytes
  done : ∀ r, s.At r .releasing ∨ s.At r .released → r ∈ s.done
  freed : ∀ r, log.count (.released r true) = if s.At r .released then 1 else 0
  succeeded : ∀ r b, .released r b ∈ log → s.At r .released

variable {config s} {log : List Action} {r : ℕ} {p : Phase}

theorem at_goto (hr : s.At r p) (q : Phase) (x : ℕ) (p' : Phase) :
    (s.goto r q).At x p' ↔ if x = r then q = p' else s.At x p' := by
  unfold At goto
  rw [Heap.cell_modify]
  split_ifs with hx
  · exact and_iff_right (hx ▸ hr.1)
  · rfl

/-- **A record that has its place** keeps it or gives it up. -/
theorem charged_goto (hr : s.At r p) (hp : p.placed) (q : Phase) (f : ℕ → ℤ) :
    (s.goto r q).charged f
      = if q.placed then s.charged f else s.charged f - f (s.records.cell r).bytes := by
  have hm := s.records.total_modify_sub hr.1 (fun x => { x with phase := q })
    (fun x => if x.phase.placed then f x.bytes else 0)
  dsimp only at hm
  rw [hr.2, if_pos hp] at hm
  refine hm.trans ?_
  split_ifs
  · rw [sub_self, add_zero]
    rfl
  · rw [zero_sub, ← sub_eq_add_neg]
    rfl

theorem charged_one : s.charged (fun _ => 1) = s.number [.reserved, .publishing]
    + s.number [.queued] + s.number [.received, .releasing] := by
  unfold charged number Heap.count Heap.total
  rw [Nat.cast_sum, Nat.cast_sum, Nat.cast_sum, ← Finset.sum_add_distrib, ← Finset.sum_add_distrib]
  refine Finset.sum_congr rfl (fun r _ => ?_)
  generalize s.records.cell r = x
  obtain ⟨bytes, phase⟩ := x
  cases phase
  all_goals rfl

namespace Inv

variable (h : s.Inv config log)
include h

theorem length : s.number [.queued] = s.queue.length := by
  rw [number, Heap.count_eq_card, ← List.toFinset_card_of_nodup h.nodup]
  refine congrArg _ (Finset.ext fun r => ?_)
  rw [List.mem_toFinset, h.queue, Finset.mem_filter, Finset.mem_range, List.mem_singleton]
  rfl

/-- **A record with a place goes on**, and what the inbox says of it with it. -/
theorem move (hr : s.At r p) (hp : p.placed) (q : Phase) {queue : List ℕ} (hn : queue.Nodup)
    (hq : ∀ x, x ∈ queue ↔ if x = r then q = .queued else x ∈ s.queue)
    (hd : q = .releasing ∨ q = .released → r ∈ s.done) :
    Inv config ⟨(s.goto r q).records, queue, if q.placed then s.count else s.count - 1,
      if q.placed then s.bytes else s.bytes - (s.records.cell r).bytes, s.done⟩
      (log ++ if q = .released then [.released r true] else []) := by
  have hnot : ¬ s.At r .released := fun hx => nomatch (hr.2.symm.trans hx.2) ▸ hp
  have hat := at_goto hr q
  refine ⟨hn, fun x => ?_, ?_, ?_, ?_, fun x hx => ?_, fun x => ?_, fun x b hx => ?_⟩
  · rw [hq, h.queue]
    exact (hat x _).symm
  · rw [h.count]
    exact (charged_goto hr hp q _).symm
  · rw [h.bytes]
    exact (charged_goto hr hp q _).symm
  · have hfits := h.fits
    dsimp only
    split_ifs
    · exact hfits
    · omega
  · have hx := hx.imp (hat x _).mp (hat x _).mp
    split_ifs at hx with hxr
    · exact hxr ▸ hd hx
    · exact h.done x hx
  · have hx := hat x .released
    rw [List.count_append, h.freed]
    refine Eq.trans ?_ (if_congr hx rfl rfl).symm
    by_cases hxr : x = r
    · subst hxr
      simp only [if_neg hnot, if_true]
      split_ifs
      all_goals simp
    · simp only [if_neg hxr]
      split_ifs
      all_goals simp [Ne.symm hxr]
  · refine (hat x _).mpr ?_
    obtain hx | hx := List.mem_append.mp hx
    · have hx := h.succeeded x b hx
      rwa [if_neg (fun hxr : x = r => hnot (hxr ▸ hx))]
    · split_ifs at hx with hq
      · obtain ⟨rfl, -⟩ := Action.released.inj (List.mem_singleton.mp hx)
        rwa [if_pos rfl]
      · cases hx

theorem aside (hr : s.At r p) (hp : p ≠ .queued) {q : Phase} (hq : q ≠ .queued) (x : ℕ) :
    x ∈ s.queue ↔ if x = r then q = .queued else x ∈ s.queue := by
  split_ifs with hx
  · subst hx
    exact iff_of_false (fun hm => hp (hr.2.symm.trans ((h.queue x).mp hm).2)) hq
  · rfl

theorem reserve {bytes : ℤ}
    (hb : ¬ (bytes ≤ 0 ∨ s.count = config.capacity ∨ config.maxBytes - s.bytes < bytes)) :
    (s.reserve bytes).Inv config log := by
  have hat (p : Phase) (hp : .reserved ≠ p) (x : ℕ) : (s.reserve bytes).At x p ↔ s.At x p :=
    s.records.alloc_iff_of_not (P := fun y => y.phase = p) hp x
  have hcharged (f : ℕ → ℤ) : (s.reserve bytes).charged f = s.charged f + f bytes.toNat :=
    s.records.total_alloc _ _
  have hfits := h.fits
  refine ⟨h.nodup, fun x => ?_, ?_, ?_, ?_, fun x hx => ?_, fun x => ?_, fun x b hx => ?_⟩
  · exact (h.queue x).trans (hat .queued nofun x).symm
  · rw [hcharged, ← h.count]
    rfl
  · rw [hcharged, ← h.bytes, Int.toNat_of_nonneg (by omega)]
    rfl
  · show s.count + 1 ≤ _ ∧ s.bytes + bytes ≤ _
    omega
  · exact h.done x (hx.imp (hat .releasing nofun x).mp (hat .released nofun x).mp)
  · exact (h.freed x).trans (if_congr (hat .released nofun x).symm rfl rfl)
  · exact (hat .released nofun x).mpr (h.succeeded x b hx)

theorem answer {a : Action} (ha : ∀ r, a ≠ .released r true)
    (hr : ∀ r b, a = .released r b → s.At r .released) : s.Inv config (log ++ [a]) := by
  refine { h with freed := fun x => ?_, succeeded := fun x b hx => ?_ }
  · rw [List.count_append, h.freed, List.count_eq_zero_of_not_mem, add_zero]
    exact fun hx => ha x (List.mem_singleton.mp hx).symm
  · obtain hx | hx := List.mem_append.mp hx
    · exact h.succeeded x b hx
    · exact hr x b (List.mem_singleton.mp hx).symm

/-- **Every critical section keeps what holds of the inbox.** -/
theorem turn {l : Event} {t : Reaction Inbox Action} (ht : s.turn config l = some t) :
    t.state.Inv config (log ++ t.actions) := by
  revert ht
  fun_cases Inbox.turn
  all_goals rintro ⟨⟩
  · rwa [List.append_nil]
  · next hb =>
    rw [List.append_nil]
    exact h.reserve hb
  · next hr => exact h.move hr rfl .refused h.nodup (h.aside hr nofun nofun) nofun
  · next r claimed hr =>
    cases claimed
    · exact h.move hr rfl .publishing h.nodup (h.aside hr nofun nofun) nofun
    · exact h.move hr rfl .received h.nodup (h.aside hr nofun nofun) nofun
  · next r hr =>
    have hnot : r ∉ s.queue := fun hm => nomatch ((h.queue r).mp hm).2.symm.trans hr.1.2
    refine h.move hr.1 rfl .queued (List.concat_eq_append ▸ h.nodup.concat hnot) (fun x => ?_) nofun
    rw [List.mem_append, List.mem_singleton]
    split_ifs with hx
    · exact iff_of_true (.inr hx) rfl
    · exact or_iff_left hx
  · next r rest hq =>
    obtain ⟨hnot, hn⟩ := List.nodup_cons.mp (hq ▸ h.nodup)
    refine h.move ((h.queue r).mp (hq ▸ .head _)) rfl .received hn (fun x => ?_) nofun
    rw [hq, List.mem_cons]
    split_ifs with hx
    · exact iff_of_false (hx ▸ hnot) nofun
    · exact (or_iff_right hx).symm
  · rw [List.append_nil]
    exact { h with done := fun x hx => .tail _ (h.done x hx) }
  · next hr => exact h.answer nofun (fun r b hx => Action.released.inj hx |>.1 ▸ hr)
  · next hr hd => exact h.move hr rfl .releasing h.nodup (h.aside hr nofun nofun) (fun _ => hd)
  · exact h.answer nofun nofun
  · next hr =>
    exact h.move hr rfl .released h.nodup (h.aside hr nofun nofun) (fun _ => h.done _ (.inl hr))

end Inv

/-- **A publication never blocks.** What has a place is unpublished, in the channel or with
its receiver; the counters are the number and the size of it, and within the limits. A
release succeeds only when the lease is done, frees the place once, and may be repeated. -/
theorem publication_never_blocks {tr : List Event} (hr : (machine config).machine.Run tr s) :
    (s.count = s.number [.reserved, .publishing] + s.number [.queued]
        + s.number [.received, .releasing]
      ∧ s.number [.queued] = s.queue.length ∧ s.count ≤ config.capacity)
    ∧ (s.bytes = s.charged Nat.cast ∧ s.bytes ≤ config.maxBytes)
    ∧ (∀ r, s.At r .publishing → (s.turn config (.publish r)).isSome)
    ∧ ∀ r, ((machine config).log tr).count (.released r true) = (if s.At r .released then 1 else 0)
      ∧ (∀ b, .released r b ∈ (machine config).log tr → s.At r .released ∧ r ∈ s.done)
      ∧ (s.At r .released → s.turn config (.release r) = some ⟨s, [.released r false]⟩) := by
  have h : s.Inv config ((machine config).log tr) := by
    refine Mealy.log_invariant (I := fun log s => s.Inv config log) ?_ (fun h => h.turn) hr
    exact ⟨List.nodup_nil, fun r => iff_of_false nofun (nomatch ·.1), rfl, rfl,
      ⟨Int.natCast_nonneg _, config.maxBytes_pos.le⟩,
      fun r hx => (nomatch hx.elim And.left And.left),
      fun r => (if_neg (nomatch ·.1)).symm, nofun⟩
  have hcount := h.count.trans charged_one
  refine ⟨⟨hcount, h.length, h.fits.1⟩, ⟨h.bytes, h.fits.2⟩, fun r hp => ?_, fun r =>
    ⟨h.freed r, fun b hb => ?_, fun hp => if_pos hp⟩⟩
  · -- the record itself has a place, and is not in the channel
    have hpos : 0 < s.number [.reserved, .publishing] :=
      s.records.count_pos_of _ hp.1 (by simp [hp.2])
    have hroom : s.queue.length < config.capacity := by
      have := h.fits.1
      have := h.length
      omega
    rw [turn, if_pos ⟨hp, hroom⟩]
    rfl
  · have hat := h.succeeded r b hb
    exact ⟨hat, h.done r (.inr hat)⟩

def small : Config := ⟨1, 8, Nat.one_pos, Int.natCast_pos.mpr (Nat.succ_pos 7)⟩

def sample : List Event :=
  [.reserve 5, .accept 0 false, .publish 0, .next, .done 0, .release 0, .free 0]

theorem publication_never_blocks_freed : ∃ s, (machine small).machine.Run sample s
    ∧ s.At 0 .released ∧ 0 ∈ s.done := by
  have hr := Machine.run_reached (machine small).machine sample rfl
  exact ⟨_, hr, ((publication_never_blocks hr).2.2.2 0).2.1 true (.head _)⟩

end Inbox

end Evidence
