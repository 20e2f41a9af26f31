import Fathomry.AdapterFairness
import Fathomry.Forest
import Mathlib.Algebra.BigOperators.Pi

/-!
# What a runtime guarantees

Three things a caller of the runtime may rely on, over any interleaving of
calls, cancellations, producers, guards, outcomes and shutdown. A tree of
operations is taken down from the leaves, and its root gives back what the
whole tree was let in with, once. The counters of admission are the permits
that are out. And a permit that comes free goes to whoever has waited for it
longest.
-/

namespace Adapter

variable {ε T : Type} {z : Options}

/-! ## Permits -/

namespace Admission

variable {a : Admission ε T}

/-- The calls that hold a permit: roots that have been let in and have not
begun. -/
def holders (a : Admission ε T) : Finset ℕ :=
  (Finset.range a.callers.next).filter (fun c => (a.callers.cell c).charged = true)

theorem total_permit (a : Admission ε T) :
    a.callers.total Caller.permit = ∑ c ∈ a.holders, (1, a.bytes c) :=
  Heap.total_ite a.callers (fun x => x.charged = true) (fun x => (1, x.request.workBytes))

theorem closed_promoteLocked : (a.promoteLocked z).closed = a.closed :=
  promote_rule (P := fun a' => a'.closed = a.closed) (fun hP _ _ _ _ => hP)
    (fun hP _ _ _ => hP) rfl

theorem closed_closeDoneLocked (h : a.closed = true) : a.closeDoneLocked.closed = true := by
  unfold closeDoneLocked
  split_ifs
  · rfl
  · exact h

theorem closed_releasePermitLocked (h : a.closed = true) (b : ℤ) :
    (a.releasePermitLocked z b).closed = true :=
  closed_closeDoneLocked ((closed_promoteLocked).trans h)

/-- **Once all permits are back it stays so.** -/
theorem closed_of_step (h : a.closed = true) {e : Event ε} {a' : Admission ε T}
    (hs : a.step z e = some a') : a'.closed = true := by
  cases stepped hs with
  | cancelCall | cancelLifetime | cancelBase | abort => exact h
  | acquire =>
    unfold acquire
    split_ifs
    all_goals exact h
  | resume =>
    unfold resume withdraw leave
    split_ifs
    · exact h
    · exact closed_releasePermitLocked h _
    iterate 2 exact closed_promoteLocked.trans h
    · exact h

end Admission

/-! ## Trees -/

namespace Tree

variable {t : Tree ε T} {r : ℕ}

def root (t : Tree ε T) (v : ℕ) : ℕ := if v < t.nodes.next then (t.nodes.cell v).root else v

open Classical in
noncomputable def descendants (t : Tree ε T) (r : ℕ) : Finset ℕ :=
  (Finset.range t.nodes.next).filter
    (fun u => Forest.Below t.parent u r ∧ (t.nodes.cell u).released = false)

/-- The unreleased family of an unreleased root is the root and what is
below it. -/
theorem Ok.kin_eq (h : Ok z t) (hr : r < t.nodes.next) (hp : (t.nodes.cell r).parent = none)
    (hf : (t.nodes.cell r).released = false) : t.kin r = 1 + (t.descendants r).card := by
  classical
  have hlink {v p : ℕ} (hv : t.parent v = some p) : v < t.nodes.next
      ∧ (t.nodes.cell v).parent = some p := Option.ite_none_right_eq_some.mp hv
  have hold {v p : ℕ} (hv : t.parent v = some p) : p < v :=
    ((h.link v (hlink hv).1).child p (hlink hv).2).1
  have htop {v : ℕ} (hv : t.parent v = none) : t.root v = v := by
    unfold root
    split_ifs with hlt
    · unfold parent at hv
      rw [if_pos hlt] at hv
      exact ((h.link v hlt).top hv).1
    · rfl
  have hroot {v p : ℕ} (hv : t.parent v = some p) : t.root v = t.root p := by
    have hlt := (hlink hv).1
    unfold root
    rw [if_pos hlt, if_pos ((hold hv).trans hlt)]
    exact ((h.link v hlt).child p (hlink hv).2).2.1
  have hcard := Forest.card_family hold htop hroot
    (s := (Finset.range t.nodes.next).filter (fun v => (t.nodes.cell v).released = false))
    ((if_pos hr).trans hp) (Finset.mem_filter.mpr ⟨Finset.mem_range.mpr hr, hf⟩)
  rw [Finset.filter_filter, Finset.filter_filter] at hcard
  unfold kin descendants
  rw [Heap.count_eq_card]
  refine Eq.trans (congrArg Finset.card (Finset.filter_congr (fun v hv => ?_)))
    (hcard.trans (congrArg (fun s => 1 + Finset.card s) (Finset.filter_congr (fun v _ => ?_))))
  · unfold root
    rw [if_pos (Finset.mem_range.mp hv)]
    exact and_comm
  · exact and_comm

/-- The permits of the operations are those of the unreleased roots. -/
theorem Ok.total_permit (h : Ok z t) :
    t.nodes.total Node.permit = ∑ r ∈ t.roots, (1, (t.nodes.cell r).request.workBytes) := by
  have hroots : t.roots = (Finset.range t.nodes.next).filter
      (fun v => (t.nodes.cell v).parent = none ∧ (t.nodes.cell v).released = false) := by
    ext v
    rw [h.roots, Finset.mem_filter, Finset.mem_range]
  rw [hroots]
  exact Heap.total_ite t.nodes (fun n => n.parent = none ∧ n.released = false)
    (fun n => (1, n.request.workBytes))

theorem finishing_of_releaseSource (h : Ok z t) {v : ℕ} {cleanup : Option (Err ε)} {t' : Tree ε T}
    [Inhabited T] (hs : t.step z (.releaseSource v cleanup) = some t') :
    v < t.nodes.next ∧ (t.nodes.cell v).finishing = true ∧ (t.nodes.cell v).released = false := by
  cases stepped hs with
  | releaseSource _ _ _ hv hf =>
    exact ⟨hv, (h.node v hv).started.trans (by rw [hf]; rfl),
      (h.node v hv).ended.trans (by rw [hf]; rfl)⟩

end Tree

namespace Runtime

variable {s s' : Runtime ε T} {tr : List (Event ε T)}

/-- **The counters are what the holders of permits have declared.** -/
theorem Sound.counted (h : Sound z s) :
    s.active = s.roots.card + s.holders.card
      ∧ s.workBytes = ∑ r ∈ s.roots, (s.nodes.cell r).request.workBytes
        + ∑ c ∈ s.holders, s.bytes c := by
  have hu := h.books.used
  rw [h.tree.total_permit, Admission.total_permit] at hu
  constructor
  · have h₁ := congrArg Prod.fst hu
    simpa [Prod.fst_add, Prod.fst_sum] using h₁
  · have h₂ := congrArg Prod.snd hu
    simpa [Prod.snd_add, Prod.snd_sum] using h₂

variable [Inhabited T]

/-! ## A runtime to run -/

namespace Sample

/-- One permit, two calls that may wait for it, and trees of two. -/
def limits : Options where
  name := "app"
  maxActive := 1
  maxQueued := 2
  maxWorkBytes := 8
  maxQueuedBytes := 8
  maxTasks := 2
  maxDepth := 2
  maxHolds := 1
  name_valid := by decide
  active_bound := by decide
  queued_bound := by decide
  work_bound := by decide
  queuedBytes_bound := by decide
  unqueued := by decide
  tasks_bound := by decide
  depth_bound := by decide
  holds_bound := by decide

abbrev Step := Event Unit Unit

abbrev runtime : Machine (Runtime Unit Unit) Step := machine limits

def load : Step := .call ⟨⟨"load", "", 4, 1⟩, id, none, 0, 0⟩

def part : Step := .call ⟨⟨"load.part", "", 0, 1⟩, id, some 0, 0, 0⟩

def waiting : List Step :=
  [load, .admission (.acquire 0), .begin 0, .tree (.capture 0 ⟨"db", 1⟩), part, .begin 1,
    load, .admission (.acquire 2), load, .admission (.acquire 3)]

def released : List Step :=
  waiting ++ [.tree (.producerReturned 1), .tree (.releaseSource 1 none), .finish 1,
    .tree (.producerReturned 0), .tree (.releaseSource 0 none), .finish 0]

/-- The runtime is shut down, and the call that was let in gives its permit
back. -/
def closed : List Step := released ++ [.shutdown none, .admission (.resume 2)]

end Sample

/-! ## The tree of operations -/

/-- **A tree is taken down from its leaves, once.** What is below a released
operation is released. `releaseSource` is called at most once, when
everything below is released and while the root still has its permit. The
locked section of `finish` runs once for each operation that is released,
gives back the permit of a root in that very section, and leaves a resolved
operation behind. The family of an unreleased root is counted right and
stays within its limits. -/
theorem tree_taken_down_once (hr : (machine z).Run tr s) :
    (∀ v < s.nodes.next, (s.nodes.cell v).released = true →
      ∀ u, Forest.Below s.toTree.parent u v → (s.nodes.cell u).released = true)
    ∧ (∀ r, tr.countP (·.releases r) ≤ 1)
    ∧ (∀ r cleanup s', s.step z (.tree (.releaseSource r cleanup)) = some s' →
      (s.nodes.cell r).released = false
        ∧ ∀ u, Forest.Below s.toTree.parent u r → (s.nodes.cell u).released = true)
    ∧ (∀ v < s.nodes.next,
      tr.countP (·.finishes v) = (if (s.nodes.cell v).released then 1 else 0)
        ∧ (s.nodes.cell v).done = (if (s.nodes.cell v).released then 1 else 0)
        ∧ (s.nodes.cell v).ready = if (s.nodes.cell v).resolved then 1 else 0)
    ∧ (s.active, s.workBytes) = s.nodes.total Node.permit + s.callers.total Caller.permit
    ∧ (∀ r s', s.step z (.finish r) = some s' → (s.nodes.cell r).parent = none →
      (s.nodes.cell r).permit = (1, (s.nodes.cell r).request.workBytes)
        ∧ (s'.nodes.cell r).released = true ∧ (s'.nodes.cell r).permit = 0
        ∧ s'.toAdmission
          = s.toAdmission.releasePermitLocked z (s.nodes.cell r).request.workBytes)
    ∧ (∀ r < s.nodes.next, (s.nodes.cell r).parent = none → (s.nodes.cell r).released = false →
      (s.nodes.cell r).family = 1 + (s.toTree.descendants r).card
        ∧ (s.nodes.cell r).family ≤ z.maxTasks)
    ∧ (∀ v < s.nodes.next, (s.nodes.cell v).depth ≤ z.maxDepth)
    ∧ ∀ v < s.nodes.next, (s.nodes.cell v).released = true → (s.nodes.cell v).resolved = true := by
  have h := sound_of_run hr
  have hist := history_of_run hr
  refine ⟨fun v hv hf u hb => ?_, fun r => (hist.releases r).trans (Bool.toNat_le _), ?_, ?_,
    h.books.used, ?_, fun r hv hp hf => ?_, fun v hv => (h.tree.node v hv).depth, fun v hv hr => ?_⟩
  · exact (h.tree.released_of_below hv ((h.tree.node v hv).finishing_of_released hf) hb).2
  · intro r cleanup s' hs
    obtain ⟨t, ht, -⟩ := Option.map_eq_some_iff.mp hs
    obtain ⟨hv, hf, hlive⟩ := Tree.finishing_of_releaseSource h.tree ht
    exact ⟨hlive, fun u hb => (h.tree.released_of_below hv hf hb).2⟩
  · intro v hv
    refine ⟨?_, (h.tree.node v hv).done, (h.tree.node v hv).ready⟩
    rw [hist.finishes v, show s.toTree.gone v = _ from Tree.marked_of_lt hv]
    cases (s.nodes.cell v).released with
    | false | true => rfl
  · intro r s' hs hp
    cases stepped hs with
    | finishRoot _ cleanup hv hf =>
      have hlive : (s.nodes.cell r).released = false :=
        (h.tree.node r hv).ended.trans (by rw [hf]; rfl)
      have hgone : ((s.toTree.finishRoot r cleanup).nodes.cell r).released = true := by
        show ((s.nodes.modify r (·.retire cleanup false)).cell r).released = true
        rw [Heap.cell_modify_self]
        rfl
      exact ⟨Node.permit_of_root hp hlive, hgone, Node.permit_of_released hgone, rfl⟩
    | finishChild _ p _ _ _ hp' => exact nomatch hp.symm.trans hp'
  · obtain ⟨hfam, hle⟩ := (h.tree.node r hv).family hp hf
    have hkin := h.tree.kin_eq hv hp hf
    exact ⟨hfam.trans (by rw [hkin]; exact Nat.cast_add 1 _), hfam ▸ hle⟩
  · exact ((h.tree.node v hv).concluded ((h.tree.node v hv).finishing_of_released hr)).2.2

/-- A root that has been released: so has its child, and each went through
`finish` once. -/
theorem tree_taken_down_once_released :
    ∃ s, Sample.runtime.Run Sample.released s ∧ (s.nodes.cell 0).released = true
      ∧ Forest.Below s.toTree.parent 1 0 ∧ (s.nodes.cell 1).released = true
      ∧ Sample.released.countP (·.finishes 0) = 1 ∧ (s.nodes.cell 0).resolved = true :=
  have hr := Sample.runtime.run_reached Sample.released rfl
  have hall := tree_taken_down_once hr
  have hb : Forest.Below (Tree.parent _) 1 0 := .single rfl
  ⟨_, hr, rfl, hb, hall.1 0 (by decide) rfl 1 hb, (hall.2.2.2.1 0 (by decide)).1,
    hall.2.2.2.2.2.2.2.2 0 (by decide) rfl⟩

/-! ## The counters of admission -/

theorem closed_of_step (h : s.closed = true) {e : Event ε T} (hstep : s.step z e = some s') :
    s'.closed = true := by
  cases stepped hstep with
  | call | refuseChild | beginRoot | beginChild | shutdownAgain | finishChild | tree => exact h
  | admission e a ha => exact Admission.closed_of_step h ha
  | refuseRoot | finishRoot => exact Admission.closed_releasePermitLocked h _
  | shutdown => exact Admission.closed_closeDoneLocked h

/-- **Permits are conserved.** No limit is passed; the counters are the
unreleased roots and the calls that were let in and have not begun, with the
bytes they declared; and `done` is closed when the runtime is closing and
all permits are back. After that nobody has one again. -/
theorem permits_conserved (hr : (machine z).Run tr s) :
    (0 ≤ s.active ∧ s.active ≤ z.maxActive)
    ∧ (0 ≤ s.workBytes ∧ s.workBytes ≤ z.maxWorkBytes)
    ∧ (s.queue.length : ℤ) ≤ z.maxQueued
    ∧ (s.queuedBytes = (s.queue.map s.bytes).sum ∧ s.queuedBytes ≤ z.maxQueuedBytes)
    ∧ (∀ v, v ∈ s.roots ↔ v < s.nodes.next ∧ (s.nodes.cell v).parent = none
      ∧ (s.nodes.cell v).released = false)
    ∧ s.active = s.roots.card + s.holders.card
    ∧ s.workBytes = ∑ r ∈ s.roots, (s.nodes.cell r).request.workBytes
      + ∑ c ∈ s.holders, s.bytes c
    ∧ s.done = (if s.closing = true ∧ s.active = 0 then 1 else 0)
    ∧ (s.done = 1 → ∀ tr' s', (machine z).exec s tr' = some s' →
      s'.done = 1 ∧ s'.active = 0 ∧ s'.roots = ∅ ∧ s'.holders = ∅) := by
  have h := sound_of_run hr
  have hused := h.books.used_nonneg h.tree.permits_nonneg
  have hdone {s : Runtime ε T} (h : Sound z s) :
      s.done = if s.closing = true ∧ s.active = 0 then 1 else 0 := by
    rw [h.books.done]
    exact if_congr ⟨h.books.closed, fun hc => h.books.drained hc.1 hc.2⟩ rfl rfl
  refine ⟨⟨hused.1, h.books.active_le⟩, ⟨hused.2, h.books.work_le⟩, h.books.length_le,
    ⟨h.books.queued, h.books.queued_le⟩, h.tree.roots, h.counted.1, h.counted.2, hdone h, ?_⟩
  intro hd tr' s' he
  have hcl : s.closed = true := by
    have hone := h.books.done.symm.trans hd
    by_contra hn
    rw [if_neg hn] at hone
    cases hone
  have hcl' : s'.closed = true :=
    Machine.Run.exec_rel
      (fun _ => id) (fun hab hbc ha => hbc (hab ha)) (fun _ hl ha => closed_of_step ha hl)
      hr he hcl
  have h' := sound_of_run (hr.append he)
  have hzero := (h'.books.closed hcl').2
  have hcount := h'.counted.1
  refine ⟨h'.books.done.trans (if_pos hcl'), hzero, ?_, ?_⟩
  all_goals exact Finset.card_eq_zero.mp (by omega)

/-- A runtime that was shut down: the permit that was out is back. -/
theorem permits_conserved_closed :
    ∃ s, Sample.runtime.Run Sample.closed s ∧ s.done = 1
      ∧ ∀ tr' s', Sample.runtime.exec s tr' = some s' →
        s'.done = 1 ∧ s'.active = 0 ∧ s'.roots = ∅ ∧ s'.holders = ∅ :=
  have hr := Sample.runtime.run_reached Sample.closed rfl
  ⟨_, hr, rfl, (permits_conserved hr).2.2.2.2.2.2.2.2 rfl⟩

/-! ## The order of admission -/

/-- **First come, first served, and nothing is left over.** Between sections
of a runtime that is not closing, the first of the queue has given up or does
not fit. A section keeps the order of the queue and lets calls join at its
end. Of two calls that wait the later is granted a permit only if the
earlier is out of the queue with a permit or with an ended context, and
whoever takes a permit without having waited finds nobody waiting. -/
theorem first_come_first_served (hr : (machine z).Run tr s) :
    (s.closing = false → ∀ c rest, s.queue = c :: rest →
      (s.ctx c).isSome = true ∨ s.active = z.maxActive
        ∨ z.maxWorkBytes - s.workBytes < s.bytes c)
    ∧ ∀ e s', s.step z e = some s' →
      s'.queue.Sublist (s.queue ++ e.arrival.toList)
      ∧ (∀ x y, [x, y].Sublist s.queue → (s'.callers.cell y).granted = true →
        x ∉ s'.queue ∧ ((s'.callers.cell x).granted = true ∨ (s.ctx x).isSome = true))
      ∧ ∀ c, c ∉ s.queue → (s.callers.cell c).charged = false →
        (s'.callers.cell c).charged = true → s.queue = [] := by
  have h := sound_of_run hr
  refine ⟨fun hcl c rest hq => ?_, fun e s' hs => ?_⟩
  · refine (h.books.head hcl c rest hq).imp_right (fun hf => ?_)
    unfold Admission.fits at hf
    rw [Bool.and_eq_false_iff, decide_eq_false_iff_not, decide_eq_false_iff_not, not_lt,
      not_le] at hf
    exact hf.imp_left (le_antisymm h.books.active_le)
  · have hfair := fair_of_step h hs
    refine ⟨hfair.queue, hfair.order, fun c hq hx hx' => ?_⟩
    obtain hold | hmem | hnew := hfair.taken c hx'
    · exact nomatch hx.symm.trans hold
    · exact absurd hmem hq
    · exact hnew.2

/-- Two calls wait for the only permit: the first does not fit. -/
theorem first_come_first_served_waiting :
    ∃ s, Sample.runtime.Run Sample.waiting s ∧ s.queue = [2, 3] ∧ s.closing = false
      ∧ ((s.ctx 2).isSome = true ∨ s.active = Sample.limits.maxActive
        ∨ Sample.limits.maxWorkBytes - s.workBytes < s.bytes 2) :=
  have hr := Sample.runtime.run_reached Sample.waiting rfl
  ⟨_, hr, rfl, rfl, (first_come_first_served hr).1 rfl 2 [3] rfl⟩

end Runtime

end Adapter
