import Fathomry.AdapterInbox
import Mathlib.Algebra.BigOperators.Pi
import Mathlib.Algebra.BigOperators.Ring.Finset
import Mathlib.Algebra.Order.Group.Int

/-!
# The custody of records

A record is in one place at a time: reserved for a call that has not been
accepted yet, in the queue, in the hands of one consumer, or gone. Which of
these it is can be read off the record itself, and the queue, the claims and
the three counters of the inbox have to agree with it. `Ledger.Ok` states
that they do, and every section keeps it.

A claim is *valid* while it can still be ended. Between the section that
moves its record and the end of `end` the claim still names the record, and
does not count any more. So of a record and a claim it is the same to say
that the record is in the hands of the claim and that the claim is valid
for the record (`Ledger.Ok.claim`), which is why the check `end` makes
under the lock of the inbox never fails (`Ledger.Ok.claimed_of_holding`).
-/

namespace Adapter

variable {ε : Type} {y : EvidenceOptions}

namespace Entry

def live (x : Entry) : Bool := x.reserved || x.result.isSome

def queued (x : Entry) : Bool := x.result.isSome && x.claim.isNone

/-- **What a record counts for**: among all records, in bytes, and among
the reservations. -/
def share (x : Entry) : ℤ × ℤ × ℤ :=
  if x.live then (1, x.bytes, if x.reserved then 1 else 0) else 0

/-- **What is true of every record.** -/
structure Ok (x : Entry) : Prop where
  unused : x.reserved = true → x.result = none
  held : x.claim ≠ none → x.result ≠ none
  positive : 0 < x.bytes

variable {x : Entry}

theorem live_of_result {v : Result} (h : x.result = some v) : x.live = true := by
  unfold live
  rw [h]
  exact Bool.or_true _

theorem live_of_reserved (h : x.reserved = true) : x.live = true := by
  unfold live
  rw [h]
  rfl

theorem queued_iff : x.queued = true ↔ x.result ≠ none ∧ x.claim = none := by
  unfold queued
  rw [Bool.and_eq_true_iff, Option.isSome_iff_ne_none, Option.isNone_iff_eq_none]

theorem live_of_queued (h : x.queued = true) : x.live = true := by
  obtain ⟨v, hv⟩ := Option.ne_none_iff_exists'.mp (queued_iff.mp h).1
  exact live_of_result hv

theorem Ok.unclaimed (h : x.Ok) (hr : x.reserved = true) : x.claim = none := by
  by_contra hc
  exact h.held hc (h.unused hr)

theorem Ok.not_reserved (h : x.Ok) (hv : x.result ≠ none) : x.reserved = false :=
  eq_false_of_ne_true (fun hr => hv (h.unused hr))

theorem share_reserved (h : x.reserved = true) : x.share = (1, x.bytes, 1) := by
  unfold share
  rw [if_pos (live_of_reserved h), if_pos h]

theorem share_accepted (hv : x.result ≠ none) (hr : x.reserved = false) :
    x.share = (1, x.bytes, 0) := by
  obtain ⟨v, hv⟩ := Option.ne_none_iff_exists'.mp hv
  unfold share
  rw [if_pos (live_of_result hv), hr]
  rfl

theorem share_gone (h : x.live = false) : x.share = 0 := if_neg (Bool.eq_false_iff.mp h)

/-- **A record in custody is in one place**: it is a reservation, queued, or
claimed. -/
theorem Ok.share_eq (h : x.Ok) : x.share =
    ((if x.reserved = true then 1 else 0) + (if x.queued = true then 1 else 0)
        + (if x.claim.isSome = true then 1 else 0),
      (if x.live = true then x.bytes else 0), if x.reserved = true then 1 else 0) := by
  cases hr : x.reserved with
  | true =>
    have hq : x.queued = false :=
      eq_false_of_ne_true (fun hq => (queued_iff.mp hq).1 (h.unused hr))
    rw [share_reserved hr, live_of_reserved hr, hq, h.unclaimed hr]
    rfl
  | false =>
    by_cases hv : x.result = none
    · have hc : x.claim = none := by
        by_contra hc
        exact h.held hc hv
      have hl : x.live = false := by
        unfold live
        rw [hr, hv]
        rfl
      have hq : x.queued = false := eq_false_of_ne_true (fun hq => (queued_iff.mp hq).1 hv)
      rw [share_gone hl, hl, hq, hc]
      rfl
    · obtain ⟨v, hv'⟩ := Option.ne_none_iff_exists'.mp hv
      rw [share_accepted hv hr, live_of_result hv']
      unfold queued
      rw [hv']
      cases x.claim with
      | none | some => rfl

end Entry

/-- The record a claim can still be ended for. -/
def Delivery.valid (x : Delivery) : Option ℕ :=
  match x.lock with
  | .leaving _ => none
  | _ => x.entry

namespace Delivery

variable {x : Delivery}

theorem valid_of_free (h : x.lock = .free) : x.valid = x.entry := by
  unfold valid
  rw [h]

theorem valid_of_holding {r : ℕ} {retry : Bool} (h : x.lock = .holding r retry) :
    x.valid = x.entry := by
  unfold valid
  rw [h]

theorem valid_of_leaving {r : ℕ} (h : x.lock = .leaving r) : x.valid = none := by
  unfold valid
  rw [h]

end Delivery

namespace Ledger

variable {b : Ledger} {d e r : ℕ}

/-- **The books of an inbox.** The counters are the sum of what the records
count for, the queue and the set of entries are the records that say so, and
no limit is passed. -/
structure Books (y : EvidenceOptions) (b : Ledger) : Prop where
  entry : ∀ e < b.records.next, (b.records.cell e).Ok
  used : (b.outstanding, b.bytes, b.pending) = b.records.total Entry.share
  capacity : b.outstanding ≤ y.capacity
  maxBytes : b.bytes ≤ y.maxBytes
  entries : ∀ e, e ∈ b.entries ↔ e < b.records.next ∧ (b.records.cell e).live = true
  nodup : b.queue.Nodup
  queue : ∀ e, e ∈ b.queue ↔ e < b.records.next ∧ (b.records.cell e).queued = true

/-- **The claims of an inbox.** A record is in the hands of the claim that
is valid for it. -/
structure Claims (b : Ledger) : Prop where
  claim : ∀ e d, (e < b.records.next ∧ (b.records.cell e).claim = some d)
    ↔ (d < b.deliveries.next ∧ (b.deliveries.cell d).valid = some e)
  result : ∀ d < b.deliveries.next, ∀ e, (b.deliveries.cell d).valid = some e →
    (b.deliveries.cell d).result = (b.records.cell e).result
  held : ∀ d < b.deliveries.next, ∀ r retry, (b.deliveries.cell d).lock = .holding r retry →
    (b.deliveries.cell d).entry ≠ none

/-- **What is true of an inbox** between sections. -/
structure Ok (y : EvidenceOptions) (b : Ledger) : Prop extends Books y b, Claims b

theorem ok_init : Ok y init where
  entry := nofun
  used := rfl
  capacity := zero_le_one.trans y.capacity_bound.1
  maxBytes := zero_le_one.trans y.bytes_bound.1
  entries := fun e => ⟨fun hm => absurd hm (Finset.notMem_empty e), fun hm => nomatch hm.1⟩
  nodup := List.nodup_nil
  queue := fun _ => ⟨nofun, fun hm => nomatch hm.1⟩
  claim := fun _ _ => ⟨fun hm => (nomatch hm.1), fun hm => nomatch hm.1⟩
  result := nofun
  held := nofun

/-! ## Reservations -/

/-- **A reservation** within the limits. -/
theorem Ok.reserve (h : Ok y b) {bytes : ℤ} (hb : b.refuse (ε := ε) y bytes = none) :
    Ok y (b.reserve bytes) := by
  unfold Ledger.refuse at hb
  split_ifs at hb with hcl hlim
  obtain ⟨hpos, hlim⟩ := not_or.mp hlim
  obtain ⟨hcap, hmax⟩ := not_or.mp hlim
  refine { h with
    entry := fun e he => ?_
    used := ?_
    capacity := not_le.mp hcap
    maxBytes := ?_
    entries := fun e => ?_
    queue := fun e => ?_
    claim := fun e d => ?_
    result := fun d hd e hv => ?_ }
  · refine b.records.forall_alloc h.entry ?_ e he
    exact ⟨fun _ => rfl, fun hc => absurd rfl hc, Int.lt_of_lt_of_le one_pos (not_lt.mp hpos)⟩
  · show (b.outstanding + 1, b.bytes + bytes, b.pending + 1) = (b.records.alloc _).total _
    rw [Heap.total_alloc, ← h.used, Entry.share_reserved rfl]
    rfl
  · show b.bytes + bytes ≤ y.maxBytes
    omega
  · show e ∈ insert b.records.next b.entries ↔ e < b.records.next + 1
      ∧ ((b.records.alloc (.new bytes)).cell e).live = true
    rw [b.records.alloc_iff (P := fun x => x.live = true), Finset.mem_insert, h.entries, or_comm]
    exact or_congr_right (and_iff_left rfl).symm
  · exact (h.queue e).trans
      (b.records.alloc_iff_of_not (P := fun x => x.queued = true) (a := .new bytes) nofun e).symm
  · exact (b.records.alloc_iff_of_not (P := fun x => x.claim = some d)
      (a := .new bytes) nofun e).trans (h.claim e d)
  · rw [show (b.reserve bytes).records.cell e = _ from
      b.records.cell_alloc_of_lt _ ((h.claim e d).mpr ⟨hd, hv⟩).1]
    exact h.result d hd e hv

/-! ## One record changes -/

section Record

variable {b' : Ledger} {f : Entry → Entry}

section Members

variable {P P' : ℕ → Prop} {p : Prop}

theorem iff_ite (h : P e ↔ p) (e' : ℕ) : P e' ↔ if e' = e then p else P e' := by
  split_ifs with hee
  · exact hee ▸ h
  · rfl

theorem erase_iff_ite (h : ∀ e', P' e' ↔ e' ≠ e ∧ P e') (hp : ¬ p) (e' : ℕ) :
    P' e' ↔ if e' = e then p else P e' := by
  rw [h]
  split_ifs with hee
  · exact iff_of_false (fun hm => hm.1 hee) hp
  · exact and_iff_right hee

theorem concat_iff_ite {q : List ℕ} (hp : p) (e' : ℕ) :
    e' ∈ q ++ [e] ↔ if e' = e then p else e' ∈ q := by
  rw [List.mem_append, List.mem_singleton]
  split_ifs with hee
  · exact iff_of_true (.inr hee) hp
  · exact or_iff_left hee

end Members

/-- **One record changes**, and the counters, the queue and the set of
entries follow it. -/
theorem Books.record (h : Books y b) (he : e < b.records.next)
    (hrec : b'.records = b.records.modify e f) (hok : (f (b.records.cell e)).Ok)
    (hused : (b'.outstanding, b'.bytes, b'.pending) = (b.outstanding, b.bytes, b.pending)
      + ((f (b.records.cell e)).share - (b.records.cell e).share))
    (hcap : b'.outstanding ≤ b.outstanding) (hmax : b'.bytes ≤ b.bytes)
    (hent : ∀ e', e' ∈ b'.entries ↔ if e' = e then (f (b.records.cell e)).live = true
      else e' ∈ b.entries)
    (hnodup : b'.queue.Nodup)
    (hq : ∀ e', e' ∈ b'.queue ↔ if e' = e then (f (b.records.cell e)).queued = true
      else e' ∈ b.queue) : Books y b' := by
  refine ⟨fun e' he' => ?_, ?_, hcap.trans h.capacity, hmax.trans h.maxBytes, fun e' => ?_, hnodup,
    fun e' => ?_⟩
  · rw [hrec] at he' ⊢
    exact b.records.forall_modify (Q := fun _ x => x.Ok) e' (fun _ => h.entry e' he') hok
  · rw [hused, h.used, hrec, Heap.total_modify_sub _ he]
  · rw [hent, hrec, Heap.next_modify, Heap.cell_modify]
    split_ifs with hee
    · rw [hee]
      exact (and_iff_right he).symm
    · exact h.entries e'
  · rw [hq, hrec, Heap.next_modify, Heap.cell_modify]
    split_ifs with hee
    · rw [hee]
      exact (and_iff_right he).symm
    · exact h.queue e'

theorem Claims.record (h : Claims b) (hrec : b'.records = b.records.modify e f)
    (hdel : b'.deliveries = b.deliveries) (hc : (b.records.cell e).claim = none)
    (hf : (f (b.records.cell e)).claim = none) : Claims b' := by
  have hclaim (e' : ℕ) : (b'.records.cell e').claim = (b.records.cell e').claim := by
    rw [hrec]
    exact b.records.cell_modify_congr (hf.trans hc.symm) e'
  refine ⟨fun e' d => ?_, fun d hd e' hv => ?_, ?_⟩
  · rw [hclaim, hdel, show b'.records.next = b.records.next by rw [hrec]; rfl]
    exact h.claim e' d
  · rw [hdel] at hd hv ⊢
    have hne : e' ≠ e := by
      intro hee
      subst hee
      exact nomatch hc.symm.trans ((h.claim e' d).mpr ⟨hd, hv⟩).2
    rw [hrec, Heap.cell_modify_of_ne _ _ hne]
    exact h.result d hd e' hv
  · rw [hdel]
    exact h.held

/-- **A claim lets go of its record.** -/
theorem Claims.release (h : Claims b) (he : e < b.records.next)
    (hrec : b'.records = b.records.modify e f)
    (hdel : b'.deliveries = b.deliveries.modify d (·.setLock (.leaving r)))
    (hc : (b.records.cell e).claim = some d) (hf : (f (b.records.cell e)).claim = none) :
    Claims b' := by
  have hvalid (d' : ℕ) : (b'.deliveries.cell d').valid
      = if d' = d then none else (b.deliveries.cell d').valid := by
    rw [hdel, Heap.cell_modify]
    split_ifs
    · exact Delivery.valid_of_leaving rfl
    · rfl
  have hnext : b'.deliveries.next = b.deliveries.next := by
    rw [hdel]
    rfl
  refine ⟨fun e' d' => ?_, fun d' hd' e' hv => ?_, fun d' hd' r' retry hl => ?_⟩
  · rw [hvalid, hnext, hrec, Heap.next_modify, Heap.cell_modify]
    by_cases hee : e' = e
    · subst hee
      rw [if_pos rfl, hf]
      refine ⟨fun hm => (nomatch hm.2), fun hm => ?_⟩
      split_ifs at hm with hdd
      · exact nomatch hm.2
      · exact absurd (Option.some.inj (((h.claim e' d').mpr hm).2.symm.trans hc)) hdd
    · rw [if_neg hee, h.claim e' d']
      by_cases hdd : d' = d
      · subst hdd
        rw [if_pos rfl]
        refine ⟨fun hm => ?_, fun hm => (nomatch hm.2)⟩
        -- the claim was valid for one record only
        exact absurd (Option.some.inj (hm.2.symm.trans ((h.claim e d').mp ⟨he, hc⟩).2)) hee
      · rw [if_neg hdd]
  · rw [hvalid] at hv
    split_ifs at hv with hdd
    have hne : e' ≠ e := by
      intro hee
      subst hee
      have hd'' := ((h.claim e' d').mpr ⟨hnext ▸ hd', hv⟩).2
      exact hdd (Option.some.inj (hd''.symm.trans hc))
    rw [hdel, hrec, Heap.cell_modify_of_ne _ _ hdd, Heap.cell_modify_of_ne _ _ hne]
    exact h.result d' (hnext ▸ hd') e' hv
  · rw [hdel, Heap.cell_modify] at hl ⊢
    split_ifs at hl ⊢ with hdd
    · cases hl
    · exact h.held d' (hnext ▸ hd') r' retry hl

/-- The lock of a claim changes hands, or the claim is cleared, and it is
valid for what it was valid for. -/
theorem Claims.lock (h : Claims b) {g : Delivery → Delivery}
    (hrec : b'.records = b.records) (hdel : b'.deliveries = b.deliveries.modify d g)
    (hv : (g (b.deliveries.cell d)).valid = (b.deliveries.cell d).valid)
    (hres : (b.deliveries.cell d).valid ≠ none →
      (g (b.deliveries.cell d)).result = (b.deliveries.cell d).result)
    (hheld : ∀ r retry, (g (b.deliveries.cell d)).lock = .holding r retry →
      (g (b.deliveries.cell d)).entry ≠ none) : Claims b' := by
  have hvalid (d' : ℕ) : (b'.deliveries.cell d').valid = (b.deliveries.cell d').valid := by
    rw [hdel]
    exact b.deliveries.cell_modify_congr hv d'
  have hnext : b'.deliveries.next = b.deliveries.next := by
    rw [hdel]
    rfl
  refine ⟨fun e' d' => ?_, fun d' hd' e' hv' => ?_, fun d' hd' r' retry hl => ?_⟩
  · rw [hvalid, hnext, hrec]
    exact h.claim e' d'
  · rw [hvalid] at hv'
    have hr := h.result d' (hnext ▸ hd') e' hv'
    rw [hrec, hdel, Heap.cell_modify]
    split_ifs with hdd
    · subst hdd
      exact (hres (fun hn => nomatch hv'.symm.trans hn)).trans hr
    · exact hr
  · rw [hdel, Heap.cell_modify] at hl ⊢
    split_ifs at hl ⊢ with hdd
    · subst hdd
      exact hheld r' retry hl
    · exact h.held d' (hnext ▸ hd') r' retry hl

end Record

/-! ## The sections -/

variable (h : Ok y b)
include h

theorem Ok.abort (he : e < b.records.next) : Ok y (b.abort e) := by
  unfold Ledger.abort
  split_ifs with hr
  · have hx := h.entry e he
    have hgone : (b.records.cell e).abort.live = false := by
      show (false || (b.records.cell e).result.isSome) = false
      rw [hx.unused hr]
      rfl
    refine ⟨h.toBooks.record he rfl ?_ ?_ ?_ ?_ ?_ h.nodup ?_,
      h.toClaims.record rfl rfl (hx.unclaimed hr) (hx.unclaimed hr)⟩
    · exact ⟨nofun, hx.held, hx.positive⟩
    · rw [Entry.share_gone hgone, Entry.share_reserved hr, zero_sub, ← sub_eq_add_neg]
      rfl
    · exact Int.sub_le_self _ zero_le_one
    · exact Int.sub_le_self _ hx.positive.le
    · exact erase_iff_ite (fun _ => Finset.mem_erase) (Bool.eq_false_iff.mp hgone)
    · exact iff_ite (iff_of_false
        (fun hm => (Entry.queued_iff.mp ((h.queue e).mp hm).2).1 (hx.unused hr))
        (fun hq => (Entry.queued_iff.mp hq).1 (hx.unused hr)))
  · exact h

theorem Ok.commit (he : e < b.records.next) (hr : (b.records.cell e).reserved = true) (v : Result) :
    Ok y (b.commit e v) := by
  have hx := h.entry e he
  have hout : e ∉ b.queue := fun hm =>
    (Entry.queued_iff.mp ((h.queue e).mp hm).2).1 (hx.unused hr)
  have hqueued : ((b.records.cell e).commit v).queued = true :=
    Entry.queued_iff.mpr ⟨nofun, hx.unclaimed hr⟩
  refine ⟨h.toBooks.record (f := (·.commit v)) he rfl ?_ ?_ le_rfl le_rfl ?_ ?_ ?_,
    h.toClaims.record (f := (·.commit v)) rfl rfl (hx.unclaimed hr) (hx.unclaimed hr)⟩
  · exact ⟨nofun, nofun, hx.positive⟩
  · rw [Entry.share_accepted (x := (b.records.cell e).commit v) nofun rfl, Entry.share_reserved hr]
    show (b.outstanding, b.bytes, b.pending - 1) = (b.outstanding + (1 - 1),
      b.bytes + ((b.records.cell e).bytes - (b.records.cell e).bytes), b.pending + (0 - 1))
    rw [sub_self, sub_self, add_zero, add_zero, zero_sub, ← sub_eq_add_neg]
  · exact iff_ite (iff_of_true ((h.entries e).mpr ⟨he, Entry.live_of_reserved hr⟩) rfl)
  · exact List.nodup_append_comm.mp (List.nodup_cons.mpr ⟨hout, h.nodup⟩)
  · exact concat_iff_ite hqueued

/-- **A consumer takes a record off the queue.** -/
theorem Ok.take (hq : e ∈ b.queue) (shared : Bool) : Ok y (b.take e shared) := by
  obtain ⟨he, hqueued⟩ := (h.queue e).mp hq
  obtain ⟨hres, hclaim⟩ := Entry.queued_iff.mp hqueued
  have hx := h.entry e he
  have hr := hx.not_reserved hres
  have hrec : (b.take e shared).records = b.records.modify e (·.take b.deliveries.next) := rfl
  have hdel : (b.take e shared).deliveries
      = b.deliveries.alloc ⟨some e, (b.records.cell e).result, .free, shared⟩ := rfl
  refine ⟨h.toBooks.record (f := (·.take b.deliveries.next)) he rfl ?_ ?_ le_rfl le_rfl ?_ ?_ ?_,
    fun e' d => ?_, fun d hd e' hv => ?_, fun d hd r retry hl => ?_⟩
  · exact ⟨hx.unused, fun _ => hres, hx.positive⟩
  · exact (add_eq_left.mpr (sub_self _)).symm
  · exact iff_ite ((h.entries e).trans (and_iff_right he))
  · exact h.nodup.erase e
  · exact erase_iff_ite (fun _ => h.nodup.mem_erase_iff)
      (fun hq => Option.some_ne_none _ (Entry.queued_iff.mp hq).2)
  · rw [hrec, hdel, Heap.next_modify, Heap.next_alloc, Heap.cell_modify]
    by_cases hdn : d = b.deliveries.next
    · rw [hdn, Heap.cell_alloc_self, Delivery.valid_of_free rfl]
      split_ifs with hee
      · exact iff_of_true ⟨hee ▸ he, rfl⟩ ⟨Nat.lt_add_one _, congrArg some hee.symm⟩
      · refine ⟨fun hm => ?_, fun hm => absurd (Option.some.inj hm.2).symm hee⟩
        exact absurd ((h.claim e' _).mp hm).1 (lt_irrefl _)
    · rw [Heap.cell_alloc_of_ne _ _ hdn, Nat.lt_succ_iff_lt_or_eq, or_iff_left hdn, ← h.claim e' d]
      split_ifs with hee
      · subst hee
        refine ⟨fun hm => absurd (Option.some.inj hm.2).symm hdn, fun hm => ?_⟩
        exact nomatch hclaim.symm.trans hm.2
      · rfl
  · rw [hrec, hdel, Heap.cell_modify_proj (π := Entry.result) (f := (·.take b.deliveries.next))
      b.records e e' (fun _ => rfl)]
    refine b.deliveries.forall_alloc (Q := fun _ x => x.valid = some e' →
      x.result = (b.records.cell e').result) (fun d hd => h.result d hd e') (fun hv => ?_) d hd hv
    rw [Option.some.inj hv]
  · exact b.deliveries.forall_alloc (Q := fun _ x => x.lock = .holding r retry → x.entry ≠ none)
      (fun d hd => h.held d hd r retry) (fun hn => by cases hn) d hd hl

/-- **The check of `end` under the lock of the inbox never fails**: a claim
that got past its own lock has its record. -/
theorem Ok.claimed_of_holding (hd : d < b.deliveries.next) {retry : Bool}
    (hl : (b.deliveries.cell d).lock = .holding r retry)
    (he : (b.deliveries.cell d).entry = some e) :
    e < b.records.next ∧ (b.records.cell e).claim = some d :=
  (h.claim e d).mpr ⟨hd, (Delivery.valid_of_holding hl).trans he⟩

theorem Ok.hold (hl : (b.deliveries.cell d).lock = .free)
    (he : (b.deliveries.cell d).entry = some e) (retry : Bool) :
    Ok y (b.setLock d (.holding r retry)) := by
  refine ⟨{ h.toBooks with }, h.toClaims.lock (g := (·.setLock (.holding r retry))) rfl rfl ?_
    (fun _ => rfl) (fun _ _ _ => fun hn => nomatch he.symm.trans hn)⟩
  rw [Delivery.valid_of_free hl, Delivery.valid_of_holding rfl]
  rfl

theorem Ok.requeue (he : e < b.records.next) (hc : (b.records.cell e).claim = some d) :
    Ok y (b.requeue d e r) := by
  have hx := h.entry e he
  have hres : (b.records.cell e).result ≠ none := hx.held (fun hn => nomatch hc.symm.trans hn)
  have hout : e ∉ b.queue := fun hm =>
    nomatch hc.symm.trans (Entry.queued_iff.mp ((h.queue e).mp hm).2).2
  have hqueued : (b.records.cell e).giveBack.queued = true := Entry.queued_iff.mpr ⟨hres, rfl⟩
  refine ⟨h.toBooks.record he rfl ?_ ?_ le_rfl le_rfl ?_ ?_ ?_,
    h.toClaims.release he rfl rfl hc rfl⟩
  · exact ⟨hx.unused, fun hn => absurd rfl hn, hx.positive⟩
  · exact (add_eq_left.mpr (sub_self _)).symm
  · exact iff_ite ((h.entries e).trans (and_iff_right he))
  · exact List.nodup_append_comm.mp (List.nodup_cons.mpr ⟨hout, h.nodup⟩)
  · exact concat_iff_ite hqueued

theorem Ok.drop (he : e < b.records.next) (hc : (b.records.cell e).claim = some d) :
    Ok y (b.drop d e r) := by
  have hx := h.entry e he
  have hres : (b.records.cell e).result ≠ none := hx.held (fun hn => nomatch hc.symm.trans hn)
  have hr := hx.not_reserved hres
  have hgone : (b.records.cell e).drop.live = false := by
    show ((b.records.cell e).reserved || false) = false
    rw [hr]
    rfl
  refine ⟨h.toBooks.record he rfl ?_ ?_ ?_ ?_ ?_ h.nodup ?_,
    h.toClaims.release he rfl rfl hc rfl⟩
  · exact ⟨fun _ => rfl, fun hn => absurd rfl hn, hx.positive⟩
  · rw [Entry.share_gone hgone, Entry.share_accepted hres hr, zero_sub, ← sub_eq_add_neg]
    show (b.outstanding - 1, b.bytes - _, b.pending)
      = (b.outstanding - 1, b.bytes - _, b.pending - 0)
    rw [sub_zero]
  · exact Int.sub_le_self _ zero_le_one
  · exact Int.sub_le_self _ hx.positive.le
  · exact erase_iff_ite (fun _ => Finset.mem_erase) (Bool.eq_false_iff.mp hgone)
  · refine iff_ite (iff_of_false (fun hm => ?_) (fun hq => (Entry.queued_iff.mp hq).1 rfl))
    exact nomatch hc.symm.trans (Entry.queued_iff.mp ((h.queue e).mp hm).2).2

theorem Ok.clear (hl : (b.deliveries.cell d).lock = .leaving r) : Ok y (b.clear d) := by
  have hv : (b.deliveries.cell d).valid = none := Delivery.valid_of_leaving hl
  refine ⟨{ h.toBooks with }, h.toClaims.lock rfl rfl ?_
    (absurd hv) nofun⟩
  rw [hv, Delivery.valid_of_free rfl]
  rfl

/-! ## What the counters count -/

/-- A claim has a record in its hands. -/
def Holds (b : Ledger) (d e : ℕ) : Prop :=
  d < b.deliveries.next ∧ (b.deliveries.cell d).valid = some e

def reservations (b : Ledger) : Finset ℕ :=
  (Finset.range b.records.next).filter (fun e => (b.records.cell e).reserved = true)

def claimed (b : Ledger) : Finset ℕ :=
  (Finset.range b.records.next).filter (fun e => (b.records.cell e).claim.isSome = true)

/-- **The counters are the records in custody.** -/
theorem Ok.counted :
    b.outstanding = b.pending + b.queue.length + b.claimed.card
      ∧ b.pending = b.reservations.card ∧ b.bytes = ∑ e ∈ b.entries, (b.records.cell e).bytes := by
  have hused : (b.outstanding, b.bytes, b.pending) = ∑ e ∈ Finset.range b.records.next, _ :=
    h.used.trans (Finset.sum_congr rfl (fun e he => (h.entry e (Finset.mem_range.mp he)).share_eq))
  have hqueue : b.queue.length = ((Finset.range b.records.next).filter
      (fun e => (b.records.cell e).queued = true)).card := by
    rw [← List.toFinset_card_of_nodup h.nodup]
    refine congrArg Finset.card (Finset.ext (fun e => ?_))
    rw [List.mem_toFinset, h.queue, Finset.mem_filter, Finset.mem_range]
  have hentries : b.entries = (Finset.range b.records.next).filter
      (fun e => (b.records.cell e).live = true) := by
    ext e
    rw [h.entries, Finset.mem_filter, Finset.mem_range]
  have hpending : b.pending = b.reservations.card := by
    unfold reservations
    rw [Finset.natCast_card_filter]
    exact (congrArg (fun x => x.2.2) hused).trans (by rw [Prod.snd_sum, Prod.snd_sum])
  refine ⟨?_, hpending, ?_⟩
  · unfold reservations at hpending
    unfold claimed
    rw [hpending, hqueue, Finset.natCast_card_filter, Finset.natCast_card_filter,
      Finset.natCast_card_filter, ← Finset.sum_add_distrib, ← Finset.sum_add_distrib]
    exact (congrArg Prod.fst hused).trans Prod.fst_sum
  · rw [hentries, Finset.sum_filter]
    exact (congrArg (fun x => x.2.1) hused).trans (by rw [Prod.snd_sum, Prod.fst_sum])

/-- **A record is in one place**: once in the queue, or in the hands of one
claim. -/
def Keeps (b : Ledger) (e : ℕ) : Prop :=
  (b.queue.count e = 1 ∧ ∀ d, ¬ b.Holds d e) ∨ (b.queue.count e = 0 ∧ ∃! d, b.Holds d e)

/-- A record is in no place any more. -/
def Lacks (b : Ledger) (e : ℕ) : Prop :=
  e ∉ b.entries ∧ e ∉ b.queue ∧ ∀ d, ¬ b.Holds d e

theorem Ok.keeps (he : e < b.records.next) (hv : (b.records.cell e).result ≠ none) : b.Keeps e := by
  cases hc : (b.records.cell e).claim with
  | none =>
    have hm : e ∈ b.queue := (h.queue e).mpr ⟨he, Entry.queued_iff.mpr ⟨hv, hc⟩⟩
    refine .inl ⟨List.count_eq_one_of_mem h.nodup hm, fun d hd => ?_⟩
    exact nomatch hc.symm.trans ((h.claim e d).mpr hd).2
  | some d =>
    have hm : e ∉ b.queue := fun hm =>
      nomatch hc.symm.trans (Entry.queued_iff.mp ((h.queue e).mp hm).2).2
    refine .inr ⟨List.count_eq_zero_of_not_mem hm, d, (h.claim e d).mp ⟨he, hc⟩, fun d' hd' => ?_⟩
    exact (Option.some.inj (hc.symm.trans ((h.claim e d').mpr hd').2)).symm

theorem Ok.result_of_keeps (hk : b.Keeps e) : (b.records.cell e).result ≠ none := by
  obtain ⟨hq, -⟩ | ⟨-, d, hd, -⟩ := hk
  · have hm : e ∈ b.queue := List.count_pos_iff.mp (hq ▸ Nat.one_pos)
    exact (Entry.queued_iff.mp ((h.queue e).mp hm).2).1
  · obtain ⟨he, hc⟩ := (h.claim e d).mpr hd
    exact (h.entry e he).held (by rw [hc]; exact Option.some_ne_none d)

/-- A record that is not in custody is nowhere. -/
theorem Ok.lacks (hl : (b.records.cell e).live = false) : b.Lacks e := by
  refine ⟨fun hm => ?_, fun hm => ?_, fun d hd => ?_⟩
  · exact nomatch hl.symm.trans ((h.entries e).mp hm).2
  · exact nomatch hl.symm.trans (Entry.live_of_queued ((h.queue e).mp hm).2)
  · obtain ⟨he, hc⟩ := (h.claim e d).mpr hd
    have hv := (h.entry e he).held (by rw [hc]; exact Option.some_ne_none d)
    obtain ⟨v, hv⟩ := Option.ne_none_iff_exists'.mp hv
    exact nomatch hl.symm.trans (Entry.live_of_result hv)

end Ledger

/-- **Every step of a consumer keeps the books and the claims.** -/
theorem Inbox.ok_of_step {read : Result → Reading} {b b' : Inbox ε} (h : b.toLedger.Ok y)
    {e : Inbox.Event ε} (hs : b.step read e = some b') : b'.toLedger.Ok y := by
  generalize hb : b'.toLedger = b₁
  cases hb ▸ stepped hs with
  | idle => exact h
  | sealInbox => exact { h with }
  | take r e shared hq => exact h.take hq shared
  | hold r d e retry hd hl he => exact h.hold hl he retry
  | moveRefused d r e retry hd hl he hc => exact absurd (h.claimed_of_holding hd hl he).2 hc
  | requeue d r e hd hl he hc => exact h.requeue (h.claimed_of_holding hd hl he).1 hc
  | drop d r e hd hl he hc => exact h.drop (h.claimed_of_holding hd hl he).1 hc
  | clear d r hd hl => exact h.clear hl

end Adapter
