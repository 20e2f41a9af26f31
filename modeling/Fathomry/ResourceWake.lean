import Fathomry.ResourceOwnership
import Fathomry.ResourceReceipts

/-!
# The coordinator never misses a wake-up

The coordinator looks for work under the lock and, finding none, waits for
a token on a channel with one slot. The look and the wait are two sections:
between them, and while it waits, callers change the binding. No wake-up is
missed because every change that can enable work fills the slot in the same
section – a commit, a retry, shutdown, a retried cleanup, and the return of
the last borrow of a generation that is no longer active. The two changes
that do not signal cannot enable anything: a new lease is on the active
generation, and a borrow that is not the last leaves the generation
borrowed.

The invariant is therefore about the one situation in which nobody is going
to look: the coordinator waits and the slot is empty (`Binding.Rested`).
-/

namespace Resource

variable {ε V C T : Type}

namespace Binding

/-- **There is nothing for the coordinator to do**: nothing to clean, nothing
to construct, and no end to come to. -/
structure Idle (o : Options ε V C) (b : Binding ε C T) : Prop where
  clean : ∀ g ∈ b.retired, ¬ b.cleanable g = true
  construct : ¬ b.constructible o = true
  exit : ¬ (b.stopping = true ∧ b.retired = [] ∧ b.pending = none)

/-- A coordinator that waits with no token to come has nothing to do. -/
def Rested (o : Options ε V C) (b : Binding ε C T) : Prop :=
  b.coordinator = .waiting → b.wake = false → b.Idle o

variable {o : Options ε V C} {b b' : Binding ε C T}

theorem rested_of_wake (h : b.wake = true) : b.Rested o :=
  fun _ hw => nomatch h.symm.trans hw

theorem rested_of_ne (h : b.coordinator ≠ .waiting) : b.Rested o := fun hc _ => absurd hc h

/-- A section that touches neither the token nor the work, and enables no
cleanup. -/
theorem Rested.congr (h : b.Rested o) (hp : b'.place = b.place) (hw : b'.wake = b.wake)
    (hwant : b'.wanted = b.wanted) (ha : b'.active = b.active)
    (hc : ∀ g ∈ b.retired, b'.cleanable g = true → b.cleanable g = true) : b'.Rested o := by
  obtain ⟨h1, h2, h3, h4⟩ : b'.coordinator = b.coordinator ∧ b'.stopping = b.stopping
      ∧ b'.retired = b.retired ∧ b'.pending = b.pending := by
    simpa [place] using hp
  intro hpc hwake
  have hidle := h (h1.symm.trans hpc) (hw.symm.trans hwake)
  refine ⟨fun g hg hcl => ?_, fun hcon => hidle.construct ?_, fun hx => hidle.exit ?_⟩
  · rw [h3] at hg
    exact hidle.clean g hg (hc g hg hcl)
  · unfold constructible owned at hcon ⊢
    rwa [h2, h3, h4, hwant, ha] at hcon
  · rwa [h2, h3, h4] at hx

theorem wake_retry {sequence : ℕ} {x : Binding ε C T × ℕ} (h : b.retry o sequence = .ok x) :
    x.1.wake = true := by
  unfold retry at h
  split at h
  · cases h
  · split_ifs at h
    iterate 2
      rw [← Except.ok.inj h]
      rfl

theorem rested_acquire (h : b.Rested o) (hi : b.lifecycle.Inv) (ctx : Ctx ε) (stopped : Bool) :
    (b.after ((b.acquire o ctx stopped).map Prod.fst)).Rested o := by
  cases hacq : b.acquire o ctx stopped with
  | error => exact h
  | ok x =>
    have hplace : x.1.place = b.place := by
      have := place_acquire (o := o) (b := b) ctx stopped
      rwa [hacq] at this
    have hgrant : ∃ g, b.active = some g ∧ x.1 = b.grant g := by
      unfold acquire at hacq
      split_ifs at hacq
      split at hacq
      · cases hacq
      · next g ha =>
        split_ifs at hacq
        exact ⟨g, ha, congrArg Prod.fst (Except.ok.inj hacq).symm⟩
    obtain ⟨g, ha, hx⟩ := hgrant
    show x.1.Rested o
    rw [hx] at hplace ⊢
    refine h.congr hplace rfl rfl rfl (fun r hr hcl => ?_)
    have hne : r ≠ g := by
      rintro rfl
      exact hi.not_mem_of_active ha hr
    have hcell : (b.grant g).generations.cell r = b.generations.cell r :=
      Heap.cell_modify_of_ne b.generations (Generation.borrow (· + 1)) hne
    unfold cleanable at hcl ⊢
    rwa [hcell] at hcl

/-- A borrow that is given back without a signal leaves its generation
borrowed, or was of the active one. -/
theorem rested_unborrow (h : b.Rested o) (hi : b.lifecycle.Inv) (l : ℕ) :
    (b.unborrow l).Rested o := by
  have hplace := place_unborrow (b := b) l
  unfold unborrow at hplace ⊢
  by_cases hsig : (b.giveBack l).active ≠ some (b.leases.cell l).address
      ∧ ((b.giveBack l).generations.cell (b.leases.cell l).address).borrows = 0
  · rw [if_pos hsig]
    exact rested_of_wake rfl
  · rw [if_neg hsig] at hplace ⊢
    refine h.congr hplace rfl rfl rfl (fun r hr hcl => ?_)
    by_cases hra : r = (b.leases.cell l).address
    · -- it is retired, so not active, and the code saw a borrow left
      subst hra
      refine absurd ⟨fun ha => hi.not_mem_of_active ha hr, ?_⟩ hsig
      exact ((b.giveBack l).cleanable_iff.mp hcl).1
    · have hcell : (b.giveBack l).generations.cell r = b.generations.cell r :=
        Heap.cell_modify_of_ne b.generations (Generation.borrow (· - 1)) hra
      unfold cleanable at hcl ⊢
      rwa [hcell] at hcl

/-- The look of the coordinator: it waits only after it found nothing. -/
theorem rested_loop [Inhabited T] (hn : b.ledger.Numbered) : (b.loop o).Rested o := by
  have hl := b.looped o
  generalize b.loop o = c at hl
  cases hl with
  | exit | clean | spawn => exact rested_of_ne nofun
  | exhausted => exact rested_of_wake rfl
  | wait he hf hc =>
    refine fun _ _ => ⟨fun g hg => ?_, fun hcon => ?_, he⟩
    · exact List.find?_eq_none.mp hf g hg
    · -- what is wanted has a selection, so it would have been started
      exact hn.wanted ((b.constructible_iff o).mp hcon).2.1 (hc hcon)

/-- **Every step keeps a waiting coordinator informed.** -/
theorem rested_step [Inhabited T] {e : Event ε C T} (h : b.Rested o) (hi : b.lifecycle.Inv)
    (hn : b.ledger.Numbered) (hs : step o b e = some b') : b'.Rested o := by
  cases stepped hs with
  | commit c =>
    cases c with
    | keep => exact h
    | replace => exact rested_of_wake rfl
  | retry sequence =>
    cases hr : b.retry o sequence with
    | error => exact h
    | ok => exact rested_of_wake (wake_retry hr)
  | stop cause =>
    by_cases hst : b.stopping = true
    · rw [show b.stop o cause = b from if_pos hst]
      exact h
    · rw [show b.stop o cause = _ from if_neg hst]
      exact rested_of_wake rfl
  | retryCleanup => exact rested_of_wake rfl
  | acquire ctx stopped => exact rested_acquire h hi ctx stopped
  | release =>
    unfold release
    split_ifs
    · exact h
    · exact h.congr rfl rfl rfl rfl (fun _ _ hc => hc)
  | unborrow l => exact rested_unborrow h hi l
  | loop => exact rested_loop hn
  | wake | slot | copy | build | skip | vacate | exit | expire | skipped | built | startRelease
  | cleaned | discard => exact rested_of_ne nofun

/-- **No wake-up is missed.** -/
theorem rested_of_run [Inhabited T] [Inhabited C] {tr : List (Event ε C T)}
    (hr : (machine o).Run tr b) : b.Rested o :=
  hr.invariant (rested_of_ne (b := init) nofun)
    (fun hr h hs => rested_step h (synced_of_run hr).2 (ledger_of_run hr).1 hs)

end Binding

end Resource
