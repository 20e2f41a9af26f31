import Fathomry.AdapterRuntime
import Mathlib.Algebra.Order.BigOperators.Group.Finset
import Mathlib.Algebra.Order.Group.Int
import Mathlib.Algebra.Order.Monoid.Prod

/-!
# The books of admission

The runtime counts by hand: how many permits are out, how many bytes they
declare, how many bytes wait in the queue. A permit changes hands without the
counters moving, and it is given back from four places. **The counters are at
all times the sum of what the calls hold and what the operations hold.**

What a permit is worth is a pair, one slot and its bytes, so one equation
stands for both counters. What the operations hold is a parameter `live`
here: `Books z a live` reads the calls alone, and a call that begins moves
its permit from one side of the equation to the other (`Books.change`).

`promoteLocked` is a loop, and what it keeps is proved once, for any property
that granting the head and dropping the head keep (`promote_rule`). The four
places that give a permit back all end in it, so no capacity is lost
(`Ok.head`).
-/

namespace Adapter

open Caller

variable {ε T : Type} {z : Options}

def Phase.early : Phase ε → Bool
  | .entering | .queued => true
  | _ => false

def Phase.left : Phase ε → Bool
  | .failing _ | .failed _ | .begun _ => true
  | _ => false

namespace Caller

/-- **What a call holds of the allowance**: a slot and its bytes, or
nothing. -/
def permit (x : Caller ε T) : ℤ × ℤ := if x.charged then (1, x.request.workBytes) else 0

def waits (x : Caller ε T) : Bool :=
  match x.phase with
  | .queued => !x.granted && x.err.isNone
  | _ => false

/-- **What is true of every call.** Only roots wait, and `ready` is closed
once, with exactly one of the two answers. -/
structure Ok (x : Caller ε T) : Prop where
  positive : x.parent = none → 0 < x.request.workBytes
  root : x.phase.early = true → x.parent = none
  ready : x.ready = if x.granted || x.err.isSome then 1 else 0
  once : x.granted = true → x.err = none
  fresh : x.phase = .entering → x.ready = 0

variable {x : Caller ε T}

theorem waits_iff : x.waits = true ↔ x.phase = .queued ∧ x.granted = false ∧ x.err = none := by
  unfold waits
  split
  · next h => simp [h]
  · next h => exact ⟨nofun, fun hq => absurd hq.1 h⟩

theorem waits_of_phase (h : x.phase ≠ .queued) : x.waits = false :=
  eq_false_of_ne_true (fun hw => h (waits_iff.mp hw).1)

theorem waits_of_early (h : x.phase.early = false) : x.waits = false :=
  waits_of_phase (fun hq => nomatch (hq ▸ h))

theorem waits_of_granted (h : x.granted = true) : x.waits = false :=
  eq_false_of_ne_true (fun hw => nomatch h.symm.trans (waits_iff.mp hw).2.1)

theorem permit_of_charged (h : x.charged = true) : x.permit = (1, x.request.workBytes) := if_pos h

theorem permit_of_not (h : x.charged = false) : x.permit = 0 :=
  if_neg (Bool.eq_false_iff.mp h)

theorem charged_of_phase (h : x.phase ≠ .admitted) (h' : x.phase ≠ .queued) :
    x.charged = false := by
  unfold charged
  split
  · next hp => exact absurd hp h
  · next hp => exact absurd hp h'
  · exact Bool.and_false _

theorem charged_of_left (h : x.phase.left = true) : x.charged = false :=
  charged_of_phase (fun ha => nomatch (ha ▸ h)) (fun hq => nomatch (hq ▸ h))

theorem charged_of_parent {p : ℕ} (h : x.parent = some p) : x.charged = false := by
  unfold charged
  rw [h]
  rfl

theorem charged_of_waits (h : x.waits = true) : x.charged = false := by
  obtain ⟨hp, hg, -⟩ := waits_iff.mp h
  unfold charged
  rw [hp, hg]
  exact Bool.and_false _

theorem charged_of_admitted (hp : x.phase = .admitted) (hr : x.parent = none) :
    x.charged = true := by
  unfold charged
  rw [hp, hr]
  rfl

theorem charged_of_granted (hp : x.phase = .queued) (hg : x.granted = true)
    (hr : x.parent = none) : x.charged = true := by
  unfold charged
  rw [hp, hg, hr]
  rfl

theorem charged_new {c : Call T} : (new c : Caller ε T).charged = false := by
  cases hr : c.parent with
  | none =>
    have hp : (new c : Caller ε T).phase = .entering := by simp [new, hr]
    exact charged_of_phase (fun ha => nomatch hp.symm.trans ha) (fun hq => nomatch hp.symm.trans hq)
  | some p => exact charged_of_parent hr

/-- Bytes are declared positive, so a permit is never worth less than
nothing. -/
theorem Ok.permit_nonneg (h : x.Ok) : 0 ≤ x.permit := by
  unfold permit
  split
  · next hc =>
    have hr : x.parent = none := by
      exact Option.isNone_iff_eq_none.mp (Bool.and_eq_true_iff.mp hc).1
    exact ⟨zero_le_one, (h.positive hr).le⟩
  · exact le_rfl

theorem Ok.root_of_queued (h : x.Ok) (hp : x.phase = .queued) : x.parent = none :=
  h.root (by rw [hp]; rfl)

theorem Ok.ready_of_waits (h : x.Ok) (hw : x.waits = true) : x.ready = 0 := by
  obtain ⟨-, hg, he⟩ := waits_iff.mp hw
  rw [h.ready, hg, he]
  rfl

/-- A call whose `ready` is open has no answer. -/
theorem Ok.unanswered (h : x.Ok) (hr : x.ready = 0) : x.granted = false ∧ x.err = none := by
  have he := h.ready.symm.trans hr
  rw [ite_eq_right_iff] at he
  have hn : (x.granted || x.err.isSome) = false :=
    eq_false_of_ne_true (fun ht => one_ne_zero (he ht))
  rw [Bool.or_eq_false_iff] at hn
  exact ⟨hn.1, Option.not_isSome_iff_eq_none.mp (Bool.eq_false_iff.mp hn.2)⟩

theorem Ok.goto (h : x.Ok) {p : Phase ε} (hp : p.early = false) : (x.goto p).Ok :=
  ⟨h.positive, fun he => (nomatch he.symm.trans hp), h.ready, h.once,
    fun he : p = .entering => (nomatch (he ▸ hp))⟩

theorem Ok.refuse (h : x.Ok) (hw : x.waits = true) {err : Err ε} : (x.refuse err).Ok := by
  obtain ⟨hp, hg, -⟩ := waits_iff.mp hw
  have hready : x.ready + 1 = if x.granted || true then 1 else 0 := by
    rw [h.ready_of_waits hw, Bool.or_true, if_pos rfl]
  exact ⟨h.positive, h.root, hready, fun hg' => (nomatch hg.symm.trans hg'),
    fun hn => (nomatch hp.symm.trans hn)⟩

theorem Ok.grant (h : x.Ok) (hw : x.waits = true) : x.grant.Ok := by
  obtain ⟨hp, -, he⟩ := waits_iff.mp hw
  have hready : x.ready + 1 = 1 := by rw [h.ready_of_waits hw]
  exact ⟨h.positive, h.root, hready, fun _ => he, fun hn => (nomatch hp.symm.trans hn)⟩

end Caller

namespace Admission

variable {a : Admission ε T} {live : ℤ × ℤ} {c : ℕ}

/-! ## What promotion does -/

variable {f : Caller ε T → Caller ε T}

theorem toCall_change (hf : ∀ x, (f x).toCall = x.toCall) (d : ℕ) :
    ((a.change c f).callers.cell d).toCall = (a.callers.cell d).toCall :=
  Heap.cell_modify_proj a.callers c d hf

theorem bytes_change (hf : ∀ x, (f x).toCall = x.toCall) : (a.change c f).bytes = a.bytes :=
  funext (fun d => congrArg (fun x : Call T => x.request.workBytes) (toCall_change hf d))

/-- **The rule of promotion**: what granting the head of the queue and
dropping it keep, `promoteLocked` keeps. -/
theorem promote_rule {P : Admission ε T → Prop}
    (hg : ∀ {a : Admission ε T} {c rest}, P a → a.closing = false → a.queue = c :: rest →
      a.ctx c = none → a.fits z (a.bytes c) = true → P (a.grant c rest))
    (hd : ∀ {a : Admission ε T} {c rest}, P a → a.closing = false → a.queue = c :: rest →
      (a.ctx c).isSome = true → P (a.discard z c rest)) (h : P a) : P (a.promoteLocked z) := by
  unfold promoteLocked
  split_ifs with hcl
  · exact h
  -- the loop is over the queue it starts with, which is the queue at each turn
  have loop : ∀ (q : List ℕ) (a : Admission ε T), P a → a.closing = false → a.queue = q →
      P (promoteLoop z q a) := by
    intro q
    induction q with
    | nil => exact fun a ha _ _ => ha
    | cons c rest ih =>
      intro a ha hcl hq
      unfold promoteLoop
      split_ifs with hx hf
      · exact ih _ (hg ha hcl hq (Option.isNone_iff_eq_none.mp hx) hf) hcl rfl
      · exact ha
      · exact ih _ (hd ha hcl hq (Option.isSome_iff_ne_none.mpr
          (fun hn => hx (Option.isNone_iff_eq_none.mpr hn)))) hcl rfl
  exact loop a.queue a h (eq_false_of_ne_true hcl) rfl

theorem closing_promoteLocked : (a.promoteLocked z).closing = a.closing :=
  promote_rule (P := fun a' => a'.closing = a.closing) (fun hP _ _ _ _ => hP)
    (fun hP _ _ _ => hP) rfl

/-- **After promotion the head of the queue has to wait.** -/
theorem head_promoteLocked (hcl : a.closing = false) {c : ℕ} {rest : List ℕ}
    (hq : (a.promoteLocked z).queue = c :: rest) :
    (a.promoteLocked z).ctx c = none
      ∧ (a.promoteLocked z).fits z ((a.promoteLocked z).bytes c) = false := by
  unfold promoteLocked at *
  rw [if_neg (Bool.eq_false_iff.mp hcl)] at *
  have loop : ∀ (q : List ℕ) (a : Admission ε T), a.queue = q →
      (promoteLoop z q a).queue = c :: rest →
      (promoteLoop z q a).ctx c = none
        ∧ (promoteLoop z q a).fits z ((promoteLoop z q a).bytes c) = false := by
    intro q
    induction q with
    | nil => exact fun a ha hq => nomatch ha.symm.trans hq
    | cons d ds ih =>
      intro a ha
      unfold promoteLoop
      split_ifs with hx hf
      · exact ih _ rfl
      · intro hq
        obtain rfl : d = c := (List.cons.inj (ha.symm.trans hq)).1
        exact ⟨Option.isNone_iff_eq_none.mp hx, eq_false_of_ne_true hf⟩
      · exact ih _ rfl
  exact loop a.queue a rfl hq

/-- Promotion does not see a call that does not wait: changing it before or
after is the same. -/
theorem change_promoteLocked (hc : c ∉ a.queue) :
    (a.promoteLocked z).change c f = (a.change c f).promoteLocked z := by
  have cell_ne {a : Admission ε T} {d : ℕ} (hd : d ≠ c) :
      (a.change c f).callers.cell d = a.callers.cell d := Heap.cell_modify_of_ne a.callers f hd
  have loop : ∀ (q : List ℕ) (a : Admission ε T), c ∉ q →
      (promoteLoop z q a).change c f = promoteLoop z q (a.change c f) := by
    intro q
    induction q with
    | nil => exact fun a _ => rfl
    | cons d ds ih =>
      intro a hq
      have hd : d ≠ c := fun h => hq (h ▸ List.mem_cons_self)
      have hds : c ∉ ds := fun h => hq (.tail _ h)
      have hctx : (a.change c f).ctx d = a.ctx d := congrArg (·.ctx) (cell_ne hd)
      have hbytes : (a.change c f).bytes d = a.bytes d :=
        congrArg (·.request.workBytes) (cell_ne hd)
      have hgrant : (a.grant d ds).change c f = (a.change c f).grant d ds := by
        unfold grant
        rw [hbytes]
        unfold change charge requeue
        rw [Heap.modify_comm _ hd]
      have hdiscard : (a.discard z d ds).change c f = (a.change c f).discard z d ds := by
        unfold discard
        rw [hbytes, hctx]
        unfold change requeue
        rw [Heap.modify_comm _ hd]
      unfold promoteLoop
      rw [hctx, hbytes]
      show (if _ then (if a.fits z _ then _ else a) else _).change c f
        = if _ then (if a.fits z _ then _ else _) else _
      split_ifs
      · rw [ih _ hds, hgrant]
      · rfl
      · rw [ih _ hds, hdiscard]
  show (if a.closing then a else _).change c f = if a.closing then _ else promoteLoop z a.queue _
  split_ifs
  · rfl
  · exact loop a.queue a hc

theorem change_closeDoneLocked : a.closeDoneLocked.change c f = (a.change c f).closeDoneLocked := by
  show (if _ then _ else a).change c f = if a.closing = true ∧ a.active = 0 ∧ a.closed = false
    then _ else _
  split_ifs
  · rfl
  · rfl

theorem callers_closeDoneLocked : a.closeDoneLocked.callers = a.callers := by
  unfold closeDoneLocked
  split_ifs
  · rfl
  · rfl

/-- A call gives its permit back before it says so. -/
theorem goto_releasePermitLocked {b : ℤ} {p : Phase ε} (hc : c ∉ a.queue) :
    (a.releasePermitLocked z b).goto c p = (a.goto c p).releasePermitLocked z b := by
  unfold releasePermitLocked goto
  rw [change_closeDoneLocked, change_promoteLocked (a := a.discharge b) hc]
  rfl

theorem ok_modify (h : ∀ c < a.callers.next, (a.callers.cell c).Ok) (hf : (f (a.callers.cell c)).Ok)
    (d : ℕ) (hd : d < a.callers.next) : ((a.callers.modify c f).cell d).Ok :=
  a.callers.forall_modify (Q := fun _ x => x.Ok) d (fun _ => h d hd) hf

/-! ## The books -/

/-- **The books of admission.** The counters are the sum of what the calls
and the operations hold, the queue is the calls that wait, and none of it
passes a limit. -/
structure Books (z : Options) (a : Admission ε T) (live : ℤ × ℤ) : Prop where
  callers : ∀ c < a.callers.next, (a.callers.cell c).Ok
  used : (a.active, a.workBytes) = live + a.callers.total Caller.permit
  active_le : a.active ≤ z.maxActive
  work_le : a.workBytes ≤ z.maxWorkBytes
  nodup : a.queue.Nodup
  mem : ∀ c, c ∈ a.queue ↔ c < a.callers.next ∧ (a.callers.cell c).waits = true
  length_le : (a.queue.length : ℤ) ≤ z.maxQueued
  queued : a.queuedBytes = (a.queue.map a.bytes).sum
  queued_le : a.queuedBytes ≤ z.maxQueuedBytes
  done : a.done = if a.closed then 1 else 0
  closed : a.closed = true → a.closing = true ∧ a.active = 0
  quiet : a.closing = true → a.queue = []

/-- **The books at rest**, between sections: promotion has been run, and
the end of the last permit has been announced. -/
structure Ok (z : Options) (a : Admission ε T) (live : ℤ × ℤ) : Prop extends Books z a live where
  head : a.closing = false → ∀ c rest, a.queue = c :: rest →
    (a.ctx c).isSome = true ∨ a.fits z (a.bytes c) = false
  drained : a.closing = true → a.active = 0 → a.closed = true

namespace Books

theorem total_nonneg (h : Books z a live) : 0 ≤ a.callers.total permit :=
  Finset.sum_nonneg (fun c hc => (h.callers c (Finset.mem_range.mp hc)).permit_nonneg)

theorem used_nonneg (h : Books z a live) (hl : 0 ≤ live) : 0 ≤ (a.active, a.workBytes) :=
  h.used ▸ add_nonneg hl h.total_nonneg

variable {b : ℤ}

section

variable (h : Books z a live)
include h

theorem not_mem (hw : (a.callers.cell c).waits = false) : c ∉ a.queue :=
  fun hm => Bool.eq_false_iff.mp hw ((h.mem c).mp hm).2

/-- **A call changes.** What its permit loses goes to the operations. -/
theorem change {f : Caller ε T → Caller ε T} {δ : ℤ × ℤ} (hc : c < a.callers.next)
    (hcall : ∀ x, (f x).toCall = x.toCall) (hok : (f (a.callers.cell c)).Ok)
    (hw : (f (a.callers.cell c)).waits = (a.callers.cell c).waits)
    (hp : (a.callers.cell c).permit = (f (a.callers.cell c)).permit + δ) :
    Books z (a.change c f) (live + δ) := by
  refine { h with callers := fun d hd => ?_, used := ?_, mem := fun d => ?_, queued := ?_ }
  · exact ok_modify h.callers hok d hd
  · show (a.active, a.workBytes) = live + δ + (a.callers.modify c f).total permit
    rw [Heap.total_modify_sub _ hc, h.used, hp]
    abel
  · show d ∈ a.queue ↔ d < a.callers.next ∧ ((a.callers.modify c f).cell d).waits = true
    rw [h.mem d, Heap.cell_modify]
    split_ifs with hdc
    · rw [hdc, hw]
    · rfl
  · rw [bytes_change hcall]
    exact h.queued

theorem charge (hcl : a.closing = false) (hf : a.fits z b = true) :
    Books z (a.charge b) (live + (1, b)) := by
  obtain ⟨hslot, hroom⟩ := Bool.and_eq_true_iff.mp hf
  have hlt : a.active < z.maxActive := of_decide_eq_true hslot
  have hle : b ≤ z.maxWorkBytes - a.workBytes := of_decide_eq_true hroom
  refine { h with used := ?_, active_le := hlt, work_le := ?_, closed := fun hd => ?_ }
  · show (a.active + 1, a.workBytes + b) = live + (1, b) + a.callers.total permit
    rw [add_right_comm, ← h.used]
    rfl
  · show a.workBytes + b ≤ z.maxWorkBytes
    omega
  · exact nomatch hcl.symm.trans (h.closed hd).1

/-- A waiter leaves the queue before it says so. -/
theorem goto_leave (hm : c ∈ a.queue) (p : Phase ε) : ((a.leave c).promoteLocked z).goto c p
    = ((a.requeue (a.queue.erase c) (-a.bytes c)).change c (·.goto p)).promoteLocked z := by
  rw [show a.leave c = a.requeue (a.queue.erase c) (-a.bytes c) from if_pos hm]
  exact change_promoteLocked h.nodup.not_mem_erase

omit h in
theorem discharge (h : Books z a (live + (1, b))) (hl : 0 ≤ live) (hb : 0 ≤ b) :
    Books z (a.discharge b) live := by
  have hactive := h.active_le
  have hwork := h.work_le
  refine { h with used := ?_, active_le := ?_, work_le := ?_, closed := fun hd => ?_ }
  · show (a.active, a.workBytes) - (1, b) = live + a.callers.total Caller.permit
    exact sub_eq_of_eq_add (h.used.trans (add_right_comm _ _ _))
  · show a.active - 1 ≤ z.maxActive
    omega
  · show a.workBytes - b ≤ z.maxWorkBytes
    omega
  · -- Somebody holds a permit, so one is out.
    have hu : a.active = live.1 + 1 + (a.callers.total Caller.permit).1 := congrArg Prod.fst h.used
    have hp : (0 : ℤ) ≤ (a.callers.total Caller.permit).1 := h.total_nonneg.1
    have hl' : (0 : ℤ) ≤ live.1 := hl.1
    have hz := (h.closed hd).2
    omega

theorem depart {f : Caller ε T → Caller ε T} {δ : ℤ × ℤ} (hc : c ∈ a.queue)
    (hcall : ∀ x, (f x).toCall = x.toCall) (hok : (f (a.callers.cell c)).Ok)
    (hw : (f (a.callers.cell c)).waits = false) (hp : (f (a.callers.cell c)).permit + δ = 0) :
    Books z ((a.requeue (a.queue.erase c) (-a.bytes c)).change c f) (live + δ) := by
  obtain ⟨hlt, hwait⟩ := (h.mem c).mp hc
  have hx := h.callers c hlt
  have hpos : 0 < a.bytes c := hx.positive (hx.root_of_queued (waits_iff.mp hwait).1)
  have h0 : (a.callers.cell c).permit = 0 := permit_of_not (charged_of_waits hwait)
  have hle := h.queued_le
  refine { h with
    callers := fun d hd => ok_modify h.callers hok d hd
    used := ?_
    nodup := h.nodup.erase c
    mem := fun d => ?_
    length_le := ?_
    queued := ?_
    queued_le := ?_
    quiet := fun hcl => ?_ }
  · show (a.active, a.workBytes) = live + δ + (a.callers.modify c f).total permit
    rw [Heap.total_modify_sub _ hlt, h.used, h0, eq_neg_of_add_eq_zero_left hp]
    abel
  · show d ∈ a.queue.erase c
      ↔ d < a.callers.next ∧ ((a.callers.modify c f).cell d).waits = true
    rw [h.nodup.mem_erase_iff, Heap.cell_modify]
    split_ifs with hdc
    · rw [hdc, hw]
      simp
    · rw [h.mem d]
      simp [hdc]
  · exact (Int.ofNat_le.mpr List.erase_sublist.length_le).trans h.length_le
  · rw [bytes_change hcall]
    show a.queuedBytes + -a.bytes c = ((a.queue.erase c).map a.bytes).sum
    rw [h.queued, ← List.sum_map_erase a.bytes hc]
    omega
  · show a.queuedBytes + -a.bytes c ≤ z.maxQueuedBytes
    omega
  · show a.queue.erase c = []
    rw [h.quiet hcl]
    rfl

theorem enqueue (hc : c < a.callers.next) (hp : (a.callers.cell c).phase = .entering)
    (hcl : a.closing = false) (hlen : ¬ z.maxQueued ≤ a.queue.length)
    (hbytes : ¬ z.maxQueuedBytes - a.queuedBytes < a.bytes c) :
    Books z ((a.requeue (a.queue ++ [c]) (a.bytes c)).goto c .queued) live := by
  have hx := h.callers c hc
  obtain ⟨hg, he⟩ := hx.unanswered (hx.fresh hp)
  have hout : c ∉ a.queue :=
    h.not_mem (waits_of_phase (fun hq => nomatch hp.symm.trans hq))
  have hwait : ((a.callers.cell c).goto .queued).waits = true := waits_iff.mpr ⟨rfl, hg, he⟩
  have h0 : (a.callers.cell c).permit = 0 := permit_of_not (charged_of_phase
    (fun ha => nomatch hp.symm.trans ha) (fun hq => nomatch hp.symm.trans hq))
  have h0' : ((a.callers.cell c).goto .queued).permit = 0 :=
    permit_of_not (charged_of_waits hwait)
  have hok : ((a.callers.cell c).goto .queued).Ok :=
    ⟨hx.positive, fun _ => hx.root (by rw [hp]; rfl), hx.ready, hx.once, nofun⟩
  refine { h with
    callers := fun d hd => ok_modify (f := (·.goto .queued)) h.callers hok d hd
    used := ?_
    nodup := List.Nodup.append h.nodup (List.nodup_singleton c) (List.disjoint_singleton.mpr hout)
    mem := fun d => ?_
    length_le := ?_
    queued := ?_
    queued_le := ?_
    quiet := fun hq => nomatch hcl.symm.trans hq }
  · show (a.active, a.workBytes) = live + (a.callers.modify c (·.goto .queued)).total permit
    rw [Heap.total_modify_of_eq _ c (h0'.trans h0.symm)]
    exact h.used
  · show d ∈ a.queue ++ [c]
      ↔ d < a.callers.next ∧ ((a.callers.modify c (·.goto .queued)).cell d).waits = true
    rw [List.mem_append, List.mem_singleton, h.mem d, Heap.cell_modify]
    split_ifs with hdc
    · subst hdc
      simp [hc, hwait]
    · simp [hdc]
  · show ((a.queue ++ [c]).length : ℤ) ≤ z.maxQueued
    rw [List.length_append, List.length_singleton]
    omega
  · rw [show ((a.requeue (a.queue ++ [c]) (a.bytes c)).goto c .queued).bytes = a.bytes from
      bytes_change (fun _ => rfl)]
    show a.queuedBytes + a.bytes c = ((a.queue ++ [c]).map a.bytes).sum
    simp [h.queued]
  · show a.queuedBytes + a.bytes c ≤ z.maxQueuedBytes
    omega

/-- **Shutdown answers every waiter.** -/
theorem shutdown (hcl : a.closing = false) (cause : Option (Err ε)) :
    Books z (a.shutdown z cause) live := by
  refine { h with
    callers := fun d hd => ?_
    used := ?_
    nodup := List.nodup_nil
    mem := fun d => ?_
    length_le := z.queued_bound.1
    queued := rfl
    queued_le := z.queuedBytes_bound.1
    closed := fun hd => nomatch hcl.symm.trans (h.closed hd).1
    quiet := fun _ => rfl }
  · show Caller.Ok (if d ∈ a.queue then _ else a.callers.cell d)
    split_ifs with hm
    · exact (h.callers d hd).refuse ((h.mem d).mp hm).2
    · exact h.callers d hd
  · have htotal : (a.shutdown z cause).callers.total permit
        = a.callers.total permit := by
      refine Heap.total_eq_of_cells rfl (fun d _ => ?_)
      show permit (if d ∈ a.queue then _ else _) = _
      split_ifs
      · rfl
      · rfl
    rw [htotal]
    exact h.used
  · show d ∈ [] ↔ d < a.callers.next ∧ waits (if d ∈ a.queue then _ else _) = true
    refine ⟨nofun, fun ⟨hd, hw⟩ => ?_⟩
    split_ifs at hw with hm
    · exact nomatch (waits_iff.mp hw).2.2
    · exact absurd ((h.mem d).mpr ⟨hd, hw⟩) hm

/-- **One more call**, which holds nothing. -/
theorem invoke {x : Call T} (hx : x.parent = none → 0 < x.request.workBytes) :
    Books z (a.invoke (.new x)) live := by
  have hw : (new x : Caller ε T).waits = false := by
    refine waits_of_phase (fun hq => ?_)
    simp only [new] at hq
    split_ifs at hq
  have hf : (new x : Caller ε T).permit = 0 := permit_of_not charged_new
  have hok : (new x : Caller ε T).Ok := by
    refine ⟨hx, fun hp => ?_, rfl, nofun, fun _ => rfl⟩
    show x.parent = none
    by_contra hn
    simp [new, hn, Phase.early] at hp
  refine { h with callers := fun d hd => ?_, used := ?_, mem := fun d => ?_, queued := ?_ }
  · exact a.callers.forall_alloc h.callers hok d hd
  · show _ = live + (a.callers.alloc (.new x)).total permit
    rw [Heap.total_alloc, hf, add_zero]
    exact h.used
  · have hold := a.callers.alloc_iff_of_not (P := fun x => x.waits = true)
      (Bool.eq_false_iff.mp hw) d
    exact (h.mem d).trans hold.symm
  · refine h.queued.trans (congrArg List.sum (List.map_congr_left (fun d hd => ?_)))
    have hlt := ((h.mem d).mp hd).1
    exact congrArg (·.request.workBytes) (Heap.cell_alloc_of_lt _ _ hlt).symm

theorem grant {rest : List ℕ} (hcl : a.closing = false) (hq : a.queue = c :: rest)
    (hf : a.fits z (a.bytes c) = true) : Books z (a.grant c rest) live := by
  have hc : c ∈ a.queue := hq ▸ List.mem_cons_self
  obtain ⟨hlt, hwait⟩ := (h.mem c).mp hc
  have hp := (waits_iff.mp hwait).1
  have hx := h.callers c hlt
  have hpermit : (a.callers.cell c).grant.permit = (1, a.bytes c) :=
    permit_of_charged (charged_of_granted hp rfl (hx.root_of_queued hp))
  have hd := h.depart (f := Caller.grant) (δ := -(1, a.bytes c)) hc (fun _ => rfl)
    (hx.grant hwait) (waits_of_granted rfl) (by rw [hpermit, add_neg_cancel])
  have hrest : a.queue.erase c = rest := by rw [hq, List.erase_cons_head]
  rw [hrest] at hd
  exact (neg_add_cancel_right live (1, a.bytes c)) ▸ hd.charge hcl hf

theorem discard {rest : List ℕ} (hq : a.queue = c :: rest) : Books z (a.discard z c rest) live := by
  have hc : c ∈ a.queue := hq ▸ List.mem_cons_self
  obtain ⟨hlt, hwait⟩ := (h.mem c).mp hc
  have hfree : (a.callers.cell c).charged = false := charged_of_waits hwait
  have hd := h.depart (f := (·.refuse (waitError z "admit" (a.ctx c)))) (δ := 0) hc (fun _ => rfl)
    ((h.callers c hlt).refuse hwait)
    (eq_false_of_ne_true (fun hw => nomatch (waits_iff.mp hw).2.2))
    ((add_zero _).trans (permit_of_not hfree))
  have hrest : a.queue.erase c = rest := by rw [hq, List.erase_cons_head]
  rw [hrest, add_zero] at hd
  exact hd

theorem promote : Books z (a.promoteLocked z) live :=
  promote_rule (P := fun a => Books z a live) (fun hB hcl hq _ => hB.grant hcl hq)
    (fun hB _ hq _ => hB.discard hq) h

/-- The end of the last permit is announced once. -/
theorem closeDone
    (hh : a.closing = false → ∀ c rest, a.queue = c :: rest →
      (a.ctx c).isSome = true ∨ a.fits z (a.bytes c) = false) :
    Ok z a.closeDoneLocked live := by
  unfold closeDoneLocked
  split_ifs with hd
  · obtain ⟨hcl, h0, hn⟩ := hd
    have hdone : a.done + 1 = 1 := by rw [h.done, hn]; rfl
    exact { h with
      done := hdone
      closed := fun _ => ⟨hcl, h0⟩
      head := hh
      drained := fun _ _ => rfl }
  · refine { h with head := hh, drained := fun hcl h0 => ?_ }
    by_contra hn
    exact hd ⟨hcl, h0, eq_false_of_ne_true hn⟩

end

/-- **A permit is given back**, and whoever can have it now is granted
it. -/
theorem releasePermit (h : Books z a (live + (1, b))) (hl : 0 ≤ live) (hb : 0 ≤ b) :
    Ok z (a.releasePermitLocked z b) live := by
  refine (h.discharge hl hb).promote.closeDone (fun hcl c rest hq => .inr ?_)
  exact (head_promoteLocked (closing_promoteLocked.symm.trans hcl) hq).2

end Books

namespace Ok

variable (h : Ok z a live)
include h

theorem change {f : Caller ε T → Caller ε T} {δ : ℤ × ℤ} (hc : c < a.callers.next)
    (hcall : ∀ x, (f x).toCall = x.toCall) (hok : (f (a.callers.cell c)).Ok)
    (hw : (f (a.callers.cell c)).waits = (a.callers.cell c).waits)
    (hctx : (a.callers.cell c).ctx.isSome = true → (f (a.callers.cell c)).ctx.isSome = true)
    (hp : (a.callers.cell c).permit = (f (a.callers.cell c)).permit + δ) :
    Ok z (a.change c f) (live + δ) where
  toBooks := h.toBooks.change hc hcall hok hw hp
  head := by
    intro hcl d rest hq
    rw [bytes_change hcall]
    refine (h.head hcl d rest hq).imp (fun hs => ?_) id
    exact a.callers.forall_modify (Q := fun d x => (a.ctx d).isSome = true → x.ctx.isSome = true) d
      (fun _ => id) hctx hs
  drained := h.drained

theorem goto {p : Phase ε} {δ : ℤ × ℤ} (hc : c < a.callers.next) (he : p.early = false)
    (hw : (a.callers.cell c).waits = false)
    (hp : (a.callers.cell c).permit = ((a.callers.cell c).goto p).permit + δ) :
    Ok z (a.goto c p) (live + δ) :=
  h.change hc (fun _ => rfl) ((h.callers c hc).goto he)
    ((waits_of_early he).trans hw.symm) id hp

/-- A call that neither waits nor holds a permit is done with admission. -/
theorem goto_left {p : Phase ε} (hc : c < a.callers.next) (hp : p.left = true)
    (he : p.early = false) (hw : (a.callers.cell c).waits = false)
    (hx : (a.callers.cell c).charged = false) : Ok z (a.goto c p) live := by
  have hx' : ((a.callers.cell c).goto p).charged = false := charged_of_left hp
  have hp : (a.callers.cell c).permit = ((a.callers.cell c).goto p).permit + 0 := by
    rw [permit_of_not hx, permit_of_not hx', add_zero]
  exact add_zero live ▸ h.goto hc he hw hp

theorem acquire (hc : c < a.callers.next) (hp : a.phase c = .entering) :
    Ok z (a.acquire z c) live := by
  have hw : (a.callers.cell c).waits = false :=
    waits_of_phase (fun hq => nomatch hp.symm.trans hq)
  have hx : (a.callers.cell c).charged = false := charged_of_phase
    (fun ha => nomatch hp.symm.trans ha) (fun hq => nomatch hp.symm.trans hq)
  have hopen : ¬ a.stopped = true → a.closing = false := fun hs =>
    eq_false_of_ne_true (fun hcl => hs (Bool.or_eq_true_iff.mpr (.inl hcl)))
  unfold Admission.acquire
  split_ifs with hs _ _ hf hl
  iterate 3 exact h.goto_left hc rfl rfl hw hx
  · have hcl := hopen hs
    have hroot := (h.callers c hc).root (by rw [show (a.callers.cell c).phase = _ from hp]; rfl)
    have hpermit : ((a.callers.cell c).goto .admitted).permit = (1, a.bytes c) :=
      permit_of_charged (charged_of_admitted rfl hroot)
    have hB := h.toBooks.change (f := (·.goto .admitted)) (δ := -(1, a.bytes c)) hc
      (fun _ => rfl) ((h.callers c hc).goto rfl)
      ((waits_of_early rfl).trans hw.symm)
      (by rw [hpermit, permit_of_not hx, add_neg_cancel])
    have hB' := (neg_add_cancel_right live (1, a.bytes c)) ▸ hB.charge hcl hf.2
    exact { hB' with
      head := fun _ d rest hq => nomatch hf.1.symm.trans hq
      drained := fun hd => nomatch hcl.symm.trans hd }
  · exact h.goto_left hc rfl rfl hw hx
  have hcl := hopen hs
  obtain ⟨hlen, hbytes⟩ := not_or.mp hl
  refine { h.toBooks.enqueue hc hp hcl hlen hbytes with
    head := fun _ d rest hq => ?_
    drained := fun hd => nomatch hcl.symm.trans hd }
  replace hq : a.queue ++ [c] = d :: rest := hq
  have hout : c ∉ a.queue := h.not_mem hw
  rw [show ((a.requeue (a.queue ++ [c]) (a.bytes c)).goto c .queued).bytes = a.bytes from
    bytes_change (fun _ => rfl)]
  cases hqa : a.queue with
  | nil =>
    -- the newcomer is the head, and it does not fit
    rw [hqa] at hq
    obtain rfl : c = d := (List.cons.inj hq).1
    exact .inr (eq_false_of_ne_true (fun ht => hf ⟨hqa, ht⟩))
  | cons e es =>
    rw [hqa] at hq
    obtain rfl : e = d := (List.cons.inj hq).1
    refine (h.head hcl e es hqa).imp (fun hsome => ?_) id
    have hne : e ≠ c := fun hec => hout (hqa ▸ hec ▸ List.mem_cons_self)
    show ((a.callers.modify c (·.goto .queued)).cell e).ctx.isSome = true
    rw [Heap.cell_modify_of_ne _ _ hne]
    exact hsome

theorem giveBack (hl : 0 ≤ live) {err : Err ε} (hc : c < a.callers.next)
    (hx : (a.callers.cell c).charged = true) (hw : (a.callers.cell c).waits = false)
    (hroot : (a.callers.cell c).parent = none) :
    Ok z ((a.releasePermitLocked z (a.bytes c)).goto c (.failing err)) live := by
  rw [goto_releasePermitLocked (h.not_mem hw)]
  have hfree : ((a.callers.cell c).goto (.failing err)).charged = false :=
    charged_of_left rfl
  have hp : (a.callers.cell c).permit
      = ((a.callers.cell c).goto (.failing err)).permit + (1, a.bytes c) := by
    rw [permit_of_charged hx, permit_of_not hfree, zero_add]
    rfl
  have hB := (h.goto hc rfl hw hp).toBooks
  exact hB.releasePermit hl ((h.callers c hc).positive hroot).le

theorem giveUp {err : Err ε} (hm : c ∈ a.queue) :
    Ok z (((a.leave c).promoteLocked z).goto c (.failing err)) live := by
  obtain ⟨hc, hwait⟩ := (h.mem c).mp hm
  have hfree : ((a.callers.cell c).goto (.failing err)).permit = 0 :=
    permit_of_not (charged_of_left rfl)
  have hB := h.toBooks.depart (f := (·.goto (.failing err))) (δ := 0) hm (fun _ => rfl)
    ((h.callers c hc).goto rfl) (waits_of_early rfl) ((add_zero _).trans hfree)
  rw [add_zero] at hB
  rw [h.goto_leave hm]
  refine { hB.promote with head := fun hcl d rest hq => .inr ?_, drained := fun hd _ => ?_ }
  · exact (head_promoteLocked (closing_promoteLocked.symm.trans hcl) hq).2
  · rw [closing_promoteLocked] at hd
    exact nomatch h.quiet hd ▸ hm

/-- **`acquire`, after its `select`, keeps the books.** -/
theorem resume (hl : 0 ≤ live) (hc : c < a.callers.next) (hp : a.phase c = .queued) :
    Ok z (a.resume z c) live := by
  have hx := h.callers c hc
  have hroot := hx.root_of_queued hp
  unfold Admission.resume
  split_ifs with hok
  · have hw : (a.callers.cell c).waits = false := waits_of_granted hok.1
    have hadmitted : ((a.callers.cell c).goto .admitted).charged = true :=
      charged_of_admitted rfl hroot
    have hsame : (a.callers.cell c).permit = ((a.callers.cell c).goto .admitted).permit + 0 := by
      rw [permit_of_charged (charged_of_granted hp hok.1 hroot), add_zero,
        permit_of_charged hadmitted]
      rfl
    exact add_zero live ▸ h.goto hc rfl hw hsame
  generalize (a.withdraw z c).refusal z c = err
  unfold withdraw
  split_ifs with hg he
  · exact h.giveBack hl hc (charged_of_granted hp hg hroot) (waits_of_granted hg) hroot
  · exact h.giveUp ((h.mem c).mpr ⟨hc, waits_iff.mpr
      ⟨hp, eq_false_of_ne_true hg, Option.isNone_iff_eq_none.mp he⟩⟩)
  · have hw : (a.callers.cell c).waits = false := eq_false_of_ne_true (fun hw =>
      he (Option.isNone_iff_eq_none.mpr (waits_iff.mp hw).2.2))
    have hx' : (a.callers.cell c).charged = false := by
      unfold charged
      rw [show (a.callers.cell c).phase = _ from hp, eq_false_of_ne_true hg]
      exact Bool.and_false _
    exact h.goto_left hc rfl rfl hw hx'

/-- **Every step of the admitting part keeps the books.** -/
theorem step (hl : 0 ≤ live) {e : Event ε} {a' : Admission ε T} (hs : a.step z e = some a') :
    Ok z a' live := by
  cases stepped hs with
  | cancelCall c how hc =>
    have hx := h.callers c hc
    have hctx (x : Ctx ε) : (x.or (some how)).isSome = true := by
      rw [Option.isSome_or, Option.isSome_some, Bool.or_true]
    exact add_zero live ▸ h.change (δ := 0) hc (fun _ => rfl)
      { hx with } rfl (fun _ => hctx _) (add_zero _).symm
  | cancelLifetime c how hc =>
    have hx := h.callers c hc
    exact add_zero live ▸ h.change (δ := 0) hc (fun _ => rfl)
      { hx with } rfl id (add_zero _).symm
  | cancelBase => exact { h with }
  | acquire c hc hp => exact h.acquire hc hp
  | resume c hc hp => exact h.resume hl hc hp
  | abort c err hc hp =>
    replace hp : (a.callers.cell c).phase = .failing err := hp
    exact h.goto_left hc rfl rfl (waits_of_early (by rw [hp]; rfl))
      (charged_of_left (by rw [hp]; rfl))

theorem invoke {x : Call T} (hx : x.parent = none → 0 < x.request.workBytes) :
    Ok z (a.invoke (.new x)) live := by
  refine { h.toBooks.invoke hx with head := fun hcl c rest hq => ?_, drained := h.drained }
  have hlt : c < a.callers.next := ((h.mem c).mp (hq ▸ List.mem_cons_self)).1
  have hcell : (a.invoke (.new x)).callers.cell c = a.callers.cell c :=
    Heap.cell_alloc_of_lt _ _ hlt
  refine (h.head hcl c rest hq).imp (fun hs => ?_) (fun hf => ?_)
  · exact (congrArg (·.ctx.isSome) hcell).trans hs
  · rw [show (a.invoke (.new x)).bytes c = a.bytes c from congrArg (·.request.workBytes) hcell]
    exact hf

end Ok

/-! ## What a call asked for -/

/-- What calls asked for stays as it was. -/
structure Kept (a a' : Admission ε T) : Prop where
  next : a'.callers.next = a.callers.next
  call : ∀ d, (a'.callers.cell d).toCall = (a.callers.cell d).toCall

variable {a' : Admission ε T}

theorem Kept.trans {a'' : Admission ε T} (h : Kept a a') (h' : Kept a' a'') : Kept a a'' :=
  ⟨h'.next.trans h.next, fun d => (h'.call d).trans (h.call d)⟩

theorem Kept.of_eq (h : a'.callers = a.callers) : Kept a a' :=
  ⟨congrArg _ h, fun d => by rw [h]⟩

theorem Kept.of_modify (hf : ∀ x, (f x).toCall = x.toCall) (h : a'.callers = a.callers.modify c f) :
    Kept a a' :=
  ⟨by rw [h]; rfl, fun d => by rw [h]; exact toCall_change hf d⟩

theorem kept_change (hf : ∀ x, (f x).toCall = x.toCall) : Kept a (a.change c f) :=
  Kept.of_modify hf rfl

theorem kept_goto (p : Phase ε) : Kept a (a.goto c p) :=
  kept_change (fun _ => rfl)

theorem kept_promoteLocked : Kept a (a.promoteLocked z) :=
  promote_rule
    (fun h _ _ _ _ => h.trans (Kept.of_modify (f := Caller.grant) (fun _ => rfl) rfl))
    (fun {b d _} h _ _ _ => h.trans
      (Kept.of_modify (f := (·.refuse (waitError z "admit" (b.ctx d)))) (fun _ => rfl) rfl))
    (Kept.of_eq rfl)

theorem kept_closeDoneLocked : Kept a a.closeDoneLocked := Kept.of_eq callers_closeDoneLocked

theorem kept_releasePermitLocked (b : ℤ) : Kept a (a.releasePermitLocked z b) :=
  have hd : Kept a (a.discharge b) := Kept.of_eq rfl
  (hd.trans kept_promoteLocked).trans kept_closeDoneLocked

theorem kept_withdraw : Kept a (a.withdraw z c) := by
  unfold withdraw
  split_ifs
  · exact kept_releasePermitLocked _
  · refine Kept.trans ?_ kept_promoteLocked
    unfold leave
    split_ifs
    all_goals exact Kept.of_eq rfl
  · exact Kept.of_eq rfl

theorem kept_step {e : Event ε} (hs : a.step z e = some a') : Kept a a' := by
  cases stepped hs with
  | cancelCall | cancelLifetime | abort => exact kept_change (fun _ => rfl)
  | cancelBase => exact Kept.of_eq rfl
  | acquire c =>
    have hgoto {a' : Admission ε T} (p : Phase ε)
        (h : a'.callers = a.callers.modify c (·.goto p)) : Kept a a' :=
      Kept.of_modify (f := (·.goto p)) (fun _ => rfl) h
    unfold acquire
    split_ifs
    all_goals exact hgoto _ rfl
  | resume =>
    unfold resume
    split_ifs
    · exact kept_goto _
    · exact kept_withdraw.trans (kept_goto _)

theorem kept_shutdown (cause : Option (Err ε)) : Kept a (a.shutdown z cause) := by
  refine ⟨rfl, fun d => ?_⟩
  show toCall (if d ∈ a.queue then _ else _) = _
  split_ifs
  · rfl
  · rfl

theorem ok_init : Ok z (init : Admission ε T) 0 where
  callers := nofun
  used := rfl
  active_le := zero_le_one.trans z.active_bound.1
  work_le := zero_le_one.trans z.work_bound.1
  nodup := List.nodup_nil
  mem := fun _ => ⟨nofun, fun hm => nomatch hm.1⟩
  length_le := z.queued_bound.1
  queued := rfl
  queued_le := z.queuedBytes_bound.1
  done := rfl
  closed := nofun
  quiet := fun _ => rfl
  head := nofun
  drained := nofun

end Admission

end Adapter
