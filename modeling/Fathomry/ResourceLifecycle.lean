import Fathomry.Lifecycle
import Fathomry.ResourceBinding
import Mathlib.Tactic.Linarith

/-!
# A binding follows the life of its generations

What a binding owns is a `Lifecycle`: the generation under construction is
pending, the one `Acquire` hands out is active, the ones waiting for their
cleanup are retired, and the loans of a generation are its leases that have
not been given back. This module reads a binding that way
(`Binding.lifecycle`), says which acts each event amounts to
(`Binding.acts`), and proves that a binding follows them
(`Binding.exec_lifecycle`). Everything `Lifecycle` proves then holds of the
binding.

Following needs two facts the lifecycle does not know. The coordinator's
program counter names the pending generation, and the counter `borrows` of
a generation is the number of its outstanding leases – the code decides to
clean on the counter, the lifecycle on the loans. Both are `Synced`.
-/

namespace Resource

open Lifecycle (Act)

variable {ε V C T : Type}

def Static.setRelease (d : Static) (release : Bool) : Static := { d with release := release }

/-- The part of a binding that ownership depends on. -/
@[ext]
structure Core (T : Type) where
  next : ℕ
  borrows : ℕ → ℤ
  data : ℕ → Static
  leases : Heap (Lease T)
  pending : Option ℕ
  active : Option ℕ
  retired : List ℕ
  coordinator : Coordinator
  stopping : Bool

namespace Core

/-! ## The moves of the core -/

def goto (k : Core T) (pc : Coordinator) : Core T := { k with coordinator := pc }

def spawn (k : Core T) (d : Static) : Core T :=
  { k with
    next := k.next + 1
    borrows := Function.update k.borrows k.next 0
    data := Function.update k.data k.next d
    pending := some k.next
    coordinator := .preparing k.next }

def setRelease (k : Core T) (g : ℕ) (release : Bool) : Core T :=
  { k with data := Function.update k.data g ((k.data g).setRelease release) }

theorem release_setRelease (k : Core T) (g : ℕ) (release : Bool) :
    ((k.setRelease g release).data g).release = release := by
  show (Function.update k.data g ((k.data g).setRelease release) g).release = release
  rw [Function.update_self]
  rfl

def receive (k : Core T) (g : ℕ) (inst : Option (Instance T)) : Core T :=
  match inst with
  | some i => k.setRelease g i.release
  | none => k

def adopt (k : Core T) (g : ℕ) : Core T :=
  { k with
    pending := none
    active := some g
    retired := k.retired ++ k.active.toList
    coordinator := .loop }

/-- A construction ends without adoption; what it returned is retired. -/
def dismiss (k : Core T) (l : List ℕ) : Core T :=
  { k with pending := none, retired := k.retired ++ l, coordinator := .loop }

def close (k : Core T) : Core T :=
  { k with stopping := true, active := none, retired := k.retired ++ k.active.toList }

def lend (k : Core T) (g : ℕ) (l : Lease T) : Core T :=
  { k with
    borrows := Function.update k.borrows g (k.borrows g + 1)
    leases := k.leases.alloc l }

def modifyLease (k : Core T) (l : ℕ) (f : Lease T → Lease T) : Core T :=
  { k with leases := k.leases.modify l f }

def giveBack (k : Core T) (l : ℕ) : Core T :=
  { k with
    borrows := Function.update k.borrows (k.leases.cell l).address
      (k.borrows (k.leases.cell l).address - 1)
    leases := k.leases.modify l Lease.giveBack }

def remove (k : Core T) (g : ℕ) : Core T :=
  { k.setRelease g false with retired := k.retired.erase g, coordinator := .loop }

/-! ## Loans -/

/-- **The outstanding leases of a generation**: those whose release has not
given the borrow back yet. -/
def outstanding (k : Core T) (g : ℕ) : ℕ :=
  k.leases.count (fun l => l.borrowing = true ∧ l.address = g)

variable {g : ℕ} {l : Lease T}

theorem outstanding_lend (k : Core T) (hl : l.borrowing = true) (ha : l.address = g) :
    (k.lend g l).outstanding = Function.update k.outstanding g (k.outstanding g + 1) := by
  funext x
  unfold outstanding lend
  rw [Heap.count_alloc, Function.update_apply]
  by_cases hx : x = g
  · rw [if_pos hx, if_pos ⟨hl, ha.trans hx.symm⟩, hx]
  · rw [if_neg hx, if_neg (fun h => hx (h.2.symm.trans ha)), Nat.add_zero]

theorem outstanding_modifyLease (k : Core T) (l : ℕ) {f : Lease T → Lease T}
    (hb : ∀ x, (f x).borrowing = x.borrowing) (ha : ∀ x, (f x).address = x.address) :
    (k.modifyLease l f).outstanding = k.outstanding := by
  funext x
  refine Heap.count_modify_of_iff _ k.leases l ?_
  rw [hb, ha]

theorem outstanding_giveBack (k : Core T) {l : ℕ} (hl : l < k.leases.next)
    (hb : (k.leases.cell l).borrowing = true) :
    k.outstanding (k.leases.cell l).address ≠ 0
      ∧ (k.giveBack l).outstanding = Function.update k.outstanding (k.leases.cell l).address
        (k.outstanding (k.leases.cell l).address - 1) := by
  refine ⟨(Heap.count_pos_of _ k.leases hl ⟨hb, rfl⟩).ne', funext fun x => ?_⟩
  show (k.leases.modify l Lease.giveBack).count
    (fun y => y.borrowing = true ∧ y.address = x) = _
  rw [Function.update_apply]
  split_ifs with hx
  · rw [hx]
    refine Nat.eq_sub_of_add_eq (Heap.count_modify_loss _ k.leases hl ⟨hb, rfl⟩ ?_)
    exact fun h => Bool.false_ne_true h.1
  · refine Heap.count_modify_of_iff _ k.leases l ?_
    exact ⟨fun h => absurd h.2.symm hx, fun h => absurd h.2.symm hx⟩

/-! ## The lifecycle -/

/-- The life of the generations, read off the binding. -/
def lifecycle (k : Core T) : Lifecycle where
  born := k.next
  pending := k.pending
  active := k.active
  retired := k.retired
  disposing := k.coordinator.disposing
  loans := k.outstanding
  closed := k.stopping

/-- **What keeps a binding in step with its lifecycle.** -/
structure Synced (k : Core T) : Prop where
  candidate : k.pending = k.coordinator.candidate
  leased : ∀ l < k.leases.next, (k.leases.cell l).address < k.next
  borrows : ∀ g < k.next, k.borrows g = (k.outstanding g : ℤ)
  lent : ∀ l < k.leases.next, (k.leases.cell l).released = false →
    (k.leases.cell l).borrowing = true

variable {k : Core T}

section

variable (h : k.Synced)
include h

theorem Synced.goto (pc : Coordinator) (hpc : pc.candidate = k.coordinator.candidate) :
    (k.goto pc).Synced :=
  ⟨h.candidate.trans hpc.symm, h.leased, h.borrows, h.lent⟩

theorem Synced.receive (g : ℕ) (inst : Option (Instance T)) : (k.receive g inst).Synced := by
  cases inst with
  | none => exact h
  | some => exact { h with }

theorem Synced.spawn (d : Static) : (k.spawn d).Synced where
  candidate := rfl
  leased := fun l hl => Nat.lt_succ_of_lt (h.leased l hl)
  borrows := by
    intro g hg
    show Function.update k.borrows k.next 0 g = (k.outstanding g : ℤ)
    rw [Function.update_apply]
    split_ifs with hx
    · -- no lease names a generation that did not exist
      have hzero : k.outstanding g = 0 := by
        refine (Heap.count_eq_zero_iff _ k.leases).mpr (fun l hl hc => ?_)
        have hlt := h.leased l hl
        rw [hc.2, hx] at hlt
        exact lt_irrefl _ hlt
      rw [hzero]
      rfl
    · exact h.borrows g (lt_of_le_of_ne (Nat.lt_succ_iff.mp hg) hx)
  lent := h.lent

theorem Synced.adopt (g : ℕ) : (k.adopt g).Synced :=
  ⟨rfl, h.leased, h.borrows, h.lent⟩

theorem Synced.dismiss (l : List ℕ) : (k.dismiss l).Synced :=
  ⟨rfl, h.leased, h.borrows, h.lent⟩

theorem Synced.remove (hpc : k.coordinator.candidate = none) : (k.remove g).Synced :=
  ⟨h.candidate.trans hpc, h.leased, h.borrows, h.lent⟩

theorem Synced.lend (hg : g < k.next) (hl : l.borrowing = true) (ha : l.address = g) :
    (k.lend g l).Synced where
  candidate := h.candidate
  leased := k.leases.forall_alloc (Q := fun _ y => y.address < k.next) h.leased (ha ▸ hg)
  borrows := by
    intro x hx
    rw [outstanding_lend k hl ha]
    show Function.update k.borrows g (k.borrows g + 1) x = _
    rw [Function.update_apply, Function.update_apply]
    split_ifs
    · rw [h.borrows g hg]
      exact (Nat.cast_succ _).symm
    · exact h.borrows x hx
  lent := k.leases.forall_alloc (Q := fun _ y => y.released = false → y.borrowing = true) h.lent
    (fun _ => hl)

theorem Synced.modifyLease (l : ℕ) {f : Lease T → Lease T} (hb : ∀ x, (f x).borrowing = x.borrowing)
    (ha : ∀ x, (f x).address = x.address) (hr : ∀ x, (f x).released = true) :
    (k.modifyLease l f).Synced where
  candidate := h.candidate
  leased := by
    intro x hx
    show ((k.leases.modify l f).cell x).address < k.next
    rw [Heap.cell_modify_proj k.leases l x ha]
    exact h.leased x hx
  borrows := by
    rw [outstanding_modifyLease k l hb ha]
    exact h.borrows
  lent := by
    intro x hx hrel
    show ((k.leases.modify l f).cell x).borrowing = true
    rw [Heap.cell_modify_proj k.leases l x hb]
    refine h.lent x hx ?_
    exact k.leases.forall_modify
      (Q := fun x y => y.released = false → (k.leases.cell x).released = false) x (fun _ => id)
      (fun hf => nomatch (hr _).symm.trans hf) hrel

theorem Synced.giveBack {l : ℕ} (hl : l < k.leases.next) (hr : (k.leases.cell l).released = true)
    (hb : (k.leases.cell l).borrowing = true) : (k.giveBack l).Synced where
  candidate := h.candidate
  leased := by
    intro x hx
    exact lt_of_eq_of_lt (Heap.cell_modify_proj
      k.leases l x (fun _ => rfl)) (h.leased x hx)
  borrows := by
    intro x hx
    obtain ⟨hne, hout⟩ := outstanding_giveBack k hl hb
    rw [hout]
    show Function.update k.borrows (k.leases.cell l).address _ x = _
    rw [Function.update_apply, Function.update_apply]
    split_ifs
    · rw [h.borrows _ (h.leased l hl), Nat.cast_sub (Nat.one_le_iff_ne_zero.mpr hne)]
      rfl
    · exact h.borrows x hx
  lent := by
    intro x hx hrel
    have hrel' : (k.leases.cell x).released = false :=
      (Heap.cell_modify_proj (f := Lease.giveBack) k.leases l x
        (fun _ => rfl)).symm.trans hrel
    have hxl : x ≠ l := by
      rintro rfl
      exact nomatch hr.symm.trans hrel'
    exact (congrArg Lease.borrowing (Heap.cell_modify_of_ne k.leases Lease.giveBack hxl)).trans
      (h.lent x hx hrel')

end

/-! ### Each move is an act -/

theorem step_spawn (d : Static) (hs : k.stopping = false) (hp : k.pending = none)
    (hd : k.coordinator.disposing = none) :
    k.lifecycle.step .spawn = some (k.spawn d).lifecycle := by
  refine (if_pos ⟨hs, hp⟩).trans (congrArg some ?_)
  exact Lifecycle.ext rfl rfl rfl rfl hd rfl rfl

theorem step_adopt (hs : k.stopping = false) (hp : k.pending = some g)
    (hd : k.coordinator.disposing = none) :
    k.lifecycle.step (.adopt g) = some (k.adopt g).lifecycle := by
  refine (if_pos ⟨hs, hp⟩).trans (congrArg some ?_)
  exact Lifecycle.ext rfl rfl rfl rfl hd rfl rfl

theorem step_reject (hp : k.pending = some g) (hd : k.coordinator.disposing = none) :
    k.lifecycle.step (.reject g) = some (k.dismiss [g]).lifecycle := by
  refine (if_pos hp).trans (congrArg some ?_)
  exact Lifecycle.ext rfl rfl rfl rfl hd rfl rfl

theorem step_abandon (hp : k.pending = some g) (hd : k.coordinator.disposing = none) :
    k.lifecycle.step (.abandon g) = some (k.dismiss []).lifecycle := by
  refine (if_pos hp).trans (congrArg some ?_)
  exact Lifecycle.ext rfl rfl rfl (List.append_nil _).symm hd rfl rfl

theorem step_lend (ha : k.active = some g) (hl : l.borrowing = true) (hg : l.address = g) :
    k.lifecycle.step (.lend g) = some (k.lend g l).lifecycle := by
  refine (if_pos ha).trans (congrArg some ?_)
  exact Lifecycle.ext rfl rfl rfl rfl rfl (outstanding_lend k hl hg).symm rfl

theorem step_giveBack {l : ℕ} (hl : l < k.leases.next) (hb : (k.leases.cell l).borrowing = true) :
    k.lifecycle.step (.giveBack (k.leases.cell l).address) = some (k.giveBack l).lifecycle := by
  obtain ⟨hne, hout⟩ := outstanding_giveBack k hl hb
  refine (if_pos hne).trans (congrArg some ?_)
  exact Lifecycle.ext rfl rfl rfl rfl rfl hout.symm rfl

end Core

namespace Binding

variable (o : Options ε V C) (b : Binding ε C T)

def core : Core T where
  next := b.generations.next
  borrows := fun g => (b.generations.cell g).borrows
  data := fun g => (b.generations.cell g).static
  leases := b.leases
  pending := b.pending
  active := b.active
  retired := b.retired
  coordinator := b.coordinator
  stopping := b.stopping

/-- **The life of a binding's generations.** -/
def lifecycle : Lifecycle := b.core.lifecycle

def outstanding (g : ℕ) : ℕ := b.core.outstanding g

/-! ## What each function does to the core -/

/-- A change of a generation that keeps its borrows and its fixed part is
invisible to the core. -/
theorem core_modify (g : ℕ) {f : Generation ε T → Generation ε T}
    (hf : ∀ x, (f x).borrows = x.borrows) (hd : ∀ x, (f x).static = x.static) :
    (b.modify g f).core = b.core := by
  refine Core.ext rfl (funext fun x => ?_) (funext fun x => ?_) rfl rfl rfl rfl rfl rfl
  · exact Heap.cell_modify_proj b.generations g x hf
  · exact Heap.cell_modify_proj b.generations g x hd

theorem core_modify_borrows (g : ℕ) (f : ℤ → ℤ) :
    (b.modify g (Generation.borrow f)).core
      = { b.core with borrows := Function.update b.core.borrows g (f (b.core.borrows g)) } := by
  refine Core.ext rfl (funext fun x => ?_) (funext fun x => ?_) rfl rfl rfl rfl rfl rfl
  · exact Heap.cell_modify_update (π := Generation.borrows)
      b.generations g x (fun _ => rfl)
  · exact Heap.cell_modify_proj (π := Generation.static)
      b.generations g x (fun _ => rfl)

theorem core_modify_release (g : ℕ) (value : T) (release : Bool) :
    (b.modify g (Generation.hold value release)).core = b.core.setRelease g release := by
  refine Core.ext rfl (funext fun x => ?_) (funext fun x => ?_) rfl rfl rfl rfl rfl rfl
  · exact Heap.cell_modify_proj
      (π := Generation.borrows) b.generations g x (fun _ => rfl)
  · exact Heap.cell_modify_update
      (π := Generation.static) (φ := fun d => d.setRelease release)
      b.generations g x (fun _ => rfl)

@[simp] theorem core_signal : b.signal.core = b.core := rfl

@[simp] theorem core_goto (pc : Coordinator) : (b.goto pc).core = b.core.goto pc := rfl

@[simp] theorem core_settleDesired (generation : ℕ) (err : Option (Err ε)) :
    (b.settleDesired generation err).core = b.core := by
  unfold settleDesired
  cases b.desired with
  | none | some => rfl

@[simp] theorem core_cancel (g : ℕ) (cause : Option (Err ε)) : (b.cancel g cause).core = b.core :=
  b.core_modify g (fun _ => rfl) (fun _ => rfl)

@[simp] theorem core_cancelPending (cause : Option (Err ε)) :
    (b.cancelPending cause).core = b.core := by
  unfold cancelPending
  cases b.pending with
  | none => rfl
  | some g => exact b.core_cancel g cause

@[simp] theorem core_unblock : b.unblock.core = b.core := by
  have hlist : ∀ (l : List ℕ) (b : Binding ε C T),
      (l.foldl (fun b g => b.modify g (fun x => { x with blocked := false })) b).core
        = b.core := by
    intro l
    induction l with
    | nil => exact fun _ => rfl
    | cons g l ih =>
      intro b
      rw [List.foldl_cons, ih]
      exact b.core_modify g (fun _ => rfl) (fun _ => rfl)
  exact hlist b.retired b

@[simp] theorem core_install (value : C) : (b.install o value).core = b.core := rfl

@[simp] theorem core_shortcut (p : ℕ) (active : Option ℕ) (equalActive : Bool) :
    (b.shortcut p active equalActive).core = b.core := by
  unfold shortcut
  cases active with
  | none => rfl
  | some =>
    dsimp only
    split_ifs
    · rfl
    · rfl

@[simp] theorem core_commit (c : Commit C) : (b.commit o c).1.core = b.core := by
  cases c with
  | keep => rfl
  | replace previous active value =>
    show ((((b.supersede o previous).install o value).cancelPending _).shortcut _ _ _).core = _
    rw [core_shortcut, core_cancelPending, core_install]
    cases previous with
    | none | some => rfl

theorem core_retry {sequence p : ℕ} {b' : Binding ε C T}
    (h : b.retry o sequence = .ok (b', p)) : b'.core = b.core := by
  unfold retry at h
  split at h
  · cases h
  · split_ifs at h
    · cases h
      rw [core_signal, core_unblock, core_install]
    · cases h
      rw [core_signal, core_unblock]

theorem core_stop (cause : Option (Err ε)) (hs : b.stopping = false) :
    (b.stop o cause).core = b.core.close := by
  have hprep : ((b.halt.settleDesired 0 (some (fail .closed "stop" o.name
      (details o b.version 0 true) [cause]))).cancelPending cause).core
      = { b.core with stopping := true } := by
    rw [core_cancelPending, core_settleDesired]
    rfl
  unfold stop
  rw [if_neg (by rw [hs]; exact Bool.false_ne_true)]
  exact congrArg (fun k : Core T =>
    { k with retired := k.retired ++ k.active.toList, active := none }) hprep

variable {l : ℕ}

/-- **A lease is granted on the active generation only**, by a binding that
has one to spare. -/
theorem core_acquire {ctx : Ctx ε} {stopped : Bool} {b' : Binding ε C T}
    (h : b.acquire o ctx stopped = .ok (b', l)) :
    ∃ g, b.active = some g ∧ b.borrowers g ≠ o.maxBorrowers ∧ l = b.leases.next
      ∧ b'.core = b.core.lend g ⟨g, (b.generations.cell g).number,
        (b.generations.cell g).value, false, true⟩ := by
  unfold acquire at h
  split_ifs at h
  split at h
  · cases h
  next g ha =>
  split_ifs at h with hb
  cases h
  refine ⟨g, ha, hb, rfl, ?_⟩
  exact congrArg (fun k : Core T => { k with
    leases := b.leases.alloc ⟨g, (b.generations.cell g).number,
      (b.generations.cell g).value, false, true⟩ }) (b.core_modify_borrows g (· + 1))

theorem core_release [Inhabited T] {b' : Binding ε C T} (h : b.release l = .ok b') :
    b'.core = b.core.modifyLease l Lease.swap := by
  unfold release at h
  split_ifs at h
  cases h
  rfl

theorem core_unborrow (l : ℕ) : (b.unborrow l).core = b.core.giveBack l := by
  have hcore : (b.giveBack l).core = b.core.giveBack l :=
    congrArg (fun k : Core T => { k with
      leases := b.leases.modify l Lease.giveBack })
      (b.core_modify_borrows (b.leases.cell l).address (· - 1))
  unfold unborrow
  dsimp only
  split_ifs
  · exact hcore
  · exact hcore

theorem core_spawn [Inhabited T] (p : ℕ) :
    (b.spawn p).core = b.core.spawn ⟨increment b.generation, p, false⟩ := by
  refine Core.ext rfl (funext fun x => ?_) (funext fun x => ?_) rfl rfl rfl rfl rfl rfl
  · exact Heap.cell_alloc_update b.generations _ x Generation.borrows
  · exact Heap.cell_alloc_update b.generations _ x Generation.static

theorem core_endPending (g : ℕ) (inst : Option (Instance T)) :
    (b.endPending g inst).core = { b.core.receive g inst with pending := none } := by
  cases inst with
  | none => rfl
  | some i => exact core_modify_release { b with pending := none } g i.value i.release

def leftover (g : ℕ) (inst : Option (Instance T)) : List ℕ := if inst.isSome then [g] else []

theorem core_dismiss (g : ℕ) (inst : Option (Instance T)) :
    (b.dismiss g inst).core = { b.core with retired := b.core.retired ++ leftover g inst } := by
  unfold dismiss leftover
  split_ifs
  · exact congrArg (fun k : Core T => { k with retired := k.retired ++ [g] }) (b.core_cancel g _)
  · rw [core_cancel, List.append_nil]

/-- Rejecting a candidate retires its instance. -/
theorem core_reject (g : ℕ) (inst : Option (Instance T)) (err : Option (Err ε))
    (r : Reading ε) :
    (b.reject o g inst err r).core
      = { b.core with retired := b.core.retired ++ leftover g inst } := by
  unfold reject
  split_ifs
  iterate 2 exact b.core_dismiss g inst

/-- **What ending a construction does**: the candidate is adopted, or what
it returned is retired. -/
theorem core_finishConstruct (g : ℕ) (inst : Option (Instance T)) (err : Option (Err ε))
    (r : Reading ε) :
    (b.finishConstruct o g inst err r).core
      = if b.adopts g inst err r.stopped then (b.core.receive g inst).adopt g
        else (b.core.receive g inst).dismiss (leftover g inst) := by
  have hend := b.core_endPending g inst
  unfold finishConstruct
  split_ifs
  · exact congrArg (fun k : Core T => { k with
      active := some g, coordinator := .loop, retired := k.retired ++ k.active.toList }) hend
  · rw [core_goto, core_signal, core_reject]
    exact congrArg (fun k : Core T => { k with
      coordinator := .loop, retired := k.retired ++ leftover g inst }) hend

@[simp] theorem core_recordCleanup (g : ℕ) (result : ReleaseResult ε) :
    (b.recordCleanup o g result).core = b.core := by
  unfold recordCleanup
  split
  · rfl
  · rfl

@[simp] theorem core_endClean (g : ℕ) (result : ReleaseResult ε) :
    (b.endClean o g result).core = b.core := by
  unfold endClean
  rw [core_recordCleanup]
  exact b.core_modify g (fun _ => rfl) (fun _ => rfl)

/-- **What ending a cleanup does**: a completed one drops the generation. -/
theorem core_finishClean [Inhabited T] (g : ℕ) (result : ReleaseResult ε) :
    (b.finishClean o g result).core
      = if result.complete then b.core.remove g else b.core.goto .loop := by
  unfold finishClean
  rw [core_goto, core_signal]
  split_ifs
  · unfold remove
    rw [core_modify_release]
    exact congrArg (fun k : Core T => k.remove g) (b.core_endClean o g result)
  · rw [core_modify _ g (f := fun x => { x with blocked := true })
      (fun _ => rfl) (fun _ => rfl), core_endClean]

/-! ## The acts of an event -/

def constructAct (g : ℕ) (inst : Option (Instance T)) (err : Option (Err ε))
    (stopped : Bool) : Act :=
  if b.adopts g inst err stopped then .adopt g
  else if inst.isSome then .reject g else .abandon g

def leaseActs : Except (Err ε) (Binding ε C T × ℕ) → List Act
  | .ok _ => b.active.toList.map .lend
  | .error _ => []

/-- **What an event does to the generations.** -/
def acts [Inhabited T] : Event ε C T → List Act
  | .stop _ => if b.stopping then [] else [.close]
  | .acquire ctx stopped => b.leaseActs (b.acquire o ctx stopped)
  | .unborrow l => [.giveBack (b.leases.cell l).address]
  | .loop =>
    match (b.loop o).coordinator with
    | .cleaning g => [.choose g]
    | .preparing _ => [.spawn]
    | _ => []
  | .expire g _ | .skipped g _ _ => [.abandon g]
  | .built g inst err r => [b.constructAct g inst err r.stopped]
  | .startRelease g => [.start g]
  | .cleaned g result => if result.complete then [.finish g] else [.keep g]
  | .discard g => [.discard g]
  | _ => []

/-- `b` follows its lifecycle to `b'` through the acts `as`. -/
def Follows (b b' : Binding ε C T) (as : List Act) : Prop :=
  b'.core.Synced ∧ Lifecycle.machine.exec b.lifecycle as = some b'.lifecycle

variable {o b} {b' : Binding ε C T}

theorem follows_of_core_eq (h : b.core.Synced) (hc : b'.core = b.core) : Follows b b' [] := by
  refine ⟨hc ▸ h, ?_⟩
  unfold lifecycle
  rw [hc]
  rfl

/-- A move of the core that is an act is followed by it. -/
theorem follows_of_step {k : Core T} {a : Act} (hc : b'.core = k) (hk : k.Synced)
    (hs : b.core.lifecycle.step a = some k.lifecycle) : Follows b b' [a] := by
  subst hc
  exact ⟨hk, (Machine.exec_singleton _ _).trans hs⟩

/-- A move of the coordinator that constructs and cleans what it did before
does nothing to the generations. -/
theorem follows_goto (h : b.core.Synced) {p q : Coordinator} (hp : b.coordinator = p)
    (hc : q.candidate = p.candidate) (hd : q.disposing = p.disposing) :
    Follows b (b.goto q) [] := by
  subst hp
  exact ⟨h.goto q hc, congrArg some (Lifecycle.ext rfl rfl rfl rfl hd.symm rfl rfl)⟩

theorem follows_acquire (h : b.core.Synced) (hi : b.lifecycle.Inv) {ctx : Ctx ε} {stopped : Bool}
    (ha : b.acquire o ctx stopped = .ok (b', l)) : Follows b b' (b.active.toList.map .lend) := by
  obtain ⟨g, hg, -, -, hc⟩ := b.core_acquire o ha
  have hlt : g < b.core.next := hi.bound g (Lifecycle.mem_slots.mpr (.inr (.inl hg)))
  rw [hg]
  exact follows_of_step hc (h.lend hlt rfl rfl) (Core.step_lend hg rfl rfl)

theorem follows_release [Inhabited T] (h : b.core.Synced) (hr : b.release l = .ok b') :
    Follows b b' [] := by
  have hout := b.core.outstanding_modifyLease l (f := Lease.swap) (fun _ => rfl) (fun _ => rfl)
  unfold Follows lifecycle
  rw [b.core_release hr]
  refine ⟨h.modifyLease l (fun _ => rfl) (fun _ => rfl) (fun _ => rfl), congrArg some ?_⟩
  exact Lifecycle.ext rfl rfl rfl rfl rfl hout.symm rfl

variable {g : ℕ}

theorem disposing_of_candidate {pc : Coordinator} (h : pc.candidate = some g) :
    pc.disposing = none := by
  cases pc with
  | preparing | admitted | copied | building | returned => rfl
  | loop | waiting | cleaning | releasing | exiting | exited => cases h

/-- **Ending a construction is one act.** -/
theorem follows_finishConstruct (h : b.core.Synced) (hg : b.coordinator.candidate = some g)
    (inst : Option (Instance T)) (err : Option (Err ε)) (r : Reading ε) :
    Follows b (b.finishConstruct o g inst err r) [b.constructAct g inst err r.stopped] := by
  have hp : (b.core.receive g inst).pending = some g := by
    cases inst with
    | none | some => exact h.candidate.trans hg
  have hd : (b.core.receive g inst).coordinator.disposing = none := by
    cases inst with
    | none | some => exact disposing_of_candidate hg
  have hc := b.core_finishConstruct o g inst err r
  have hk := h.receive g inst
  have hl : b.core.lifecycle = (b.core.receive g inst).lifecycle := by
    cases inst with
    | none | some => rfl
  unfold constructAct
  by_cases had : b.adopts g inst err r.stopped = true
  · rw [if_pos had] at hc ⊢
    have hs : (b.core.receive g inst).stopping = false := by
      cases inst with
      | none | some => exact (b.adopts_iff.mp had).2.2.2.1
    exact follows_of_step hc (hk.adopt g) (hl ▸ Core.step_adopt hs hp hd)
  · rw [if_neg had] at hc ⊢
    cases inst with
    | none => exact follows_of_step hc (hk.dismiss []) (Core.step_abandon hp hd)
    | some => exact follows_of_step hc (hk.dismiss [g]) (Core.step_reject hp hd)

theorem constructAct_none (g : ℕ) (err : Option (Err ε)) (stopped : Bool) :
    b.constructAct g none err stopped = .abandon g := by
  unfold constructAct adopts
  rw [if_neg (by simp)]
  rfl

/-- **A section of `run` chooses a generation to clean, begins a new one,
or moves nothing.** -/
theorem follows_loop [Inhabited T] (h : b.core.Synced) (hi : b.lifecycle.Inv)
    (hpc : b.coordinator = .loop) : Follows b (b.loop o) (b.acts o .loop) := by
  have hcand : b.coordinator.candidate = none := congrArg Coordinator.candidate hpc
  have hdisp : b.coordinator.disposing = none := congrArg Coordinator.disposing hpc
  unfold acts
  have hl := b.looped o
  generalize b.loop o = b' at hl
  cases hl with
  | exit => exact follows_goto h hpc rfl rfl
  | clean g hg =>
    have hm : g ∈ b.core.retired := List.mem_of_find?_eq_some hg
    have hborrows : b.core.borrows g = 0 := (b.cleanable_iff.mp (List.find?_some hg)).1
    have hlt : g < b.core.next := hi.bound g (Lifecycle.mem_slots.mpr (.inr (.inr hm)))
    -- the code looks at the counter; that there is no loan is `Synced`
    have hz : b.core.outstanding g = 0 := by
      rw [h.borrows g hlt] at hborrows
      exact Nat.cast_eq_zero.mp hborrows
    refine follows_of_step ?_ (h.goto (.cleaning g) hcand.symm)
      (if_pos ⟨hdisp, hm, hz⟩)
    rw [core_goto, core_modify _ g (f := fun x => { x with cleaning := true }) (fun _ => rfl)
      (fun _ => rfl)]
  | exhausted p => exact follows_goto h hpc rfl rfl
  | spawn p hf hc =>
    obtain ⟨hs, -, hp, -⟩ := (b.constructible_iff o).mp hc
    exact follows_of_step (b.core_spawn p) (h.spawn _) (Core.step_spawn _ hs hp hdisp)
  | wait => exact follows_goto h hpc rfl rfl

theorem follows_cleaned [Inhabited T] (h : b.core.Synced) (result : ReleaseResult ε)
    (hpc : b.coordinator = .releasing g) :
    Follows b (b.finishClean o g result) (if result.complete then [.finish g] else [.keep g]) := by
  have hcand : b.core.coordinator.candidate = none := congrArg Coordinator.candidate hpc
  have hdisp := congrArg Coordinator.disposing hpc
  have hc := b.core_finishClean o g result
  split_ifs at hc ⊢
  · exact follows_of_step hc (h.remove hcand) (if_pos hdisp)
  · exact follows_of_step hc (h.goto .loop hcand.symm) (if_pos hdisp)

/-- **A binding follows its lifecycle**: each step is the acts of its event. -/
theorem follows_step [Inhabited T] {e : Event ε C T} (h : b.core.Synced)
    (hi : b.lifecycle.Inv) (hs : step o b e = some b') : Follows b b' (b.acts o e) := by
  cases stepped hs with
  | commit c => exact follows_of_core_eq h (b.core_commit o c)
  | retry sequence =>
    cases hr : b.retry o sequence with
    | error => exact follows_of_core_eq h rfl
    | ok => exact follows_of_core_eq h (b.core_retry o hr)
  | stop cause =>
    unfold acts
    split_ifs with hst
    · rw [show b.stop o cause = b from if_pos hst]
      exact follows_of_core_eq h rfl
    · exact follows_of_step (b.core_stop o cause (eq_false_of_ne_true hst)) { h with } rfl
  | retryCleanup => exact follows_of_core_eq h b.core_unblock
  | acquire ctx stopped =>
    show Follows b (b.after ((b.acquire o ctx stopped).map Prod.fst))
      (b.leaseActs (b.acquire o ctx stopped))
    cases ha : b.acquire o ctx stopped with
    | error => exact follows_of_core_eq h rfl
    | ok => exact follows_acquire h hi ha
  | release l =>
    cases hr : b.release l with
    | error => exact follows_of_core_eq h rfl
    | ok => exact follows_release h hr
  | unborrow l hl hr hb =>
    exact follows_of_step (b.core_unborrow l) (h.giveBack hl hr hb) (Core.step_giveBack hl hb)
  | loop hpc => exact follows_loop h hi hpc
  | wake hpc => exact follows_goto h hpc rfl rfl
  | slot g hpc | vacate g hpc | copy g hpc | build g hpc | exit hpc =>
    exact follows_goto h hpc rfl rfl
  | skip g stopped hpc =>
    exact hpc.elim (fun hpc => follows_goto h hpc rfl rfl) (fun hpc => follows_goto h hpc rfl rfl)
  | expire g r hpc =>
    show Follows b _ [.abandon g]
    rw [← constructAct_none g (b.ctxOf g).err r.stopped]
    exact follows_finishConstruct h (congrArg Coordinator.candidate hpc) none _ r
  | skipped g cancelled r hpc =>
    show Follows b _ [.abandon g]
    rw [← constructAct_none g (if cancelled then (b.ctxOf g).err else none) r.stopped]
    exact follows_finishConstruct h (congrArg Coordinator.candidate hpc) none _ r
  | built g inst err r hpc =>
    exact follows_finishConstruct h (congrArg Coordinator.candidate hpc) inst err r
  | startRelease g hpc =>
    refine follows_of_step ?_ (h.goto (.releasing g) (congrArg Coordinator.candidate hpc).symm)
      (if_pos (congrArg Coordinator.disposing hpc))
    rw [core_goto, core_cancel]
  | cleaned g result hpc => exact follows_cleaned h result hpc
  | discard g hpc =>
    refine follows_of_step ?_ (h.remove (congrArg Coordinator.candidate hpc))
      (if_pos (congrArg Coordinator.disposing hpc))
    rw [core_finishClean, core_cancel]
    rfl

/-! ## Runs -/

variable [Inhabited T] [Inhabited C]

/-- **Every reachable binding is in step with its lifecycle, and the
lifecycle is reached by the acts of its events.** -/
theorem synced_of_run {tr : List (Event ε C T)} (hr : (machine o).Run tr b) :
    b.core.Synced ∧ b.lifecycle.Inv := by
  refine hr.invariant (I := fun _ b => b.core.Synced ∧ b.lifecycle.Inv) ?_ ?_
  · refine ⟨⟨rfl, nofun, nofun, nofun⟩, ?_⟩
    show (init : Binding ε C T).lifecycle.Inv
    exact Lifecycle.inv_init
  · intro tr b e b' _ hb hs
    obtain ⟨h', he⟩ := follows_step hb.1 hb.2 hs
    exact ⟨h', hb.2.exec he⟩

end Binding

end Resource
