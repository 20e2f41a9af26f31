import Fathomry.ResourceLifecycle
import Mathlib.Algebra.BigOperators.Ring.Finset

/-!
# What a binding owns

The results of `Lifecycle` read back on a binding, and what the history of
a binding says of it. A history is the list of events executed so far: the
label `built g (some i) err r` records that `Build` handed over an
instance, `startRelease g` that its `Release` callback was called,
`cleaned g result` that it returned. Nothing of this is kept in the state,
so "the callback is never called again after it reported completion" is a
statement about runs, proved from the acts the events amount to.
-/

namespace Resource

open Lifecycle (Act)

variable {ε V C T : Type}

/-! ## Events in a history -/

def Event.starts (g : ℕ) : Event ε C T → Bool
  | .startRelease x => x = g
  | _ => false

def Event.ends (g : ℕ) : Event ε C T → Bool
  | .cleaned x _ => x = g
  | _ => false

def Event.disposal : Event ε C T → List Act
  | .startRelease g => [.start g]
  | .cleaned g result => if result.complete then [.finish g] else [.keep g]
  | .discard g => [.discard g]
  | _ => []

theorem finish_mem_disposal {g : ℕ} {e : Event ε C T} (h : .finish g ∈ e.disposal) :
    ∃ result : ReleaseResult ε, result.complete = true ∧ e = .cleaned g result := by
  cases e with
  | cleaned x result =>
    replace h : Act.finish g ∈ if result.complete then [Act.finish x] else [Act.keep x] := h
    split_ifs at h with hc
    · rw [List.mem_singleton] at h
      exact ⟨result, hc, by rw [Act.finish.inj h]⟩
    · rw [List.mem_singleton] at h
      cases h
  | _ => exact nomatch h

theorem discard_mem_disposal {g : ℕ} {e : Event ε C T} (h : .discard g ∈ e.disposal) :
    e = .discard g := by
  cases e with
  | discard => rw [Act.discard.inj (List.mem_singleton.mp h)]
  | cleaned x result =>
    replace h : Act.discard g ∈ if result.complete then [Act.finish x] else [Act.keep x] := h
    split_ifs at h
    all_goals exact nomatch h
  | _ => exact nomatch h

def Completed (g : ℕ) (tr : List (Event ε C T)) : Prop :=
  ∃ result : ReleaseResult ε, result.complete = true ∧ .cleaned g result ∈ tr

def Returned (g : ℕ) (i : Instance T) (tr : List (Event ε C T)) : Prop :=
  ∃ err r, .built g (some i) err r ∈ tr

namespace Binding

variable [Inhabited T] [Inhabited C] {o : Options ε V C} {b b' : Binding ε C T}
  {tr : List (Event ε C T)} {g : ℕ}

def history (o : Options ε V C) (tr : List (Event ε C T)) : List Act :=
  (machine o).outputs (fun b e => b.acts o e) (machine o).start tr

theorem exec_acts {e : Event ε C T} (hr : (machine o).Run tr b)
    (hs : (machine o).step b e = some b') :
    Lifecycle.machine.exec b.lifecycle (b.acts o e) = some b'.lifecycle :=
  have h := synced_of_run hr
  (follows_step h.1 h.2 hs).2

/-- **A run of a binding is a run of its lifecycle.** -/
theorem run_lifecycle (hr : (machine o).Run tr b) :
    Lifecycle.machine.Run (history o tr) b.lifecycle :=
  hr.map (Lifecycle.ext rfl rfl rfl rfl rfl rfl rfl) exec_acts

theorem exec_lifecycle {tr' : List (Event ε C T)} (hr : (machine o).Run tr b)
    (he : (machine o).exec b tr' = some b') :
    ∃ as, Lifecycle.machine.exec b.lifecycle as = some b'.lifecycle :=
  ⟨_, hr.map_exec exec_acts he⟩

/-! ### Limits -/

/-- **The counters of a binding are what its lifecycle owes.** -/
theorem borrows_eq (hr : (machine o).Run tr b) :
    ((b.active.toList ++ b.retired).map (fun g => (b.generations.cell g).borrows)).sum
      = (b.lifecycle.owed : ℤ) := by
  obtain ⟨hsync, hinv⟩ := synced_of_run hr
  rw [Lifecycle.owed_eq hinv, Nat.cast_list_sum, List.map_map]
  refine congrArg List.sum (List.map_congr_left (fun g hg => hsync.borrows g (hinv.bound g ?_)))
  rw [List.mem_append, Option.mem_toList] at hg
  exact Lifecycle.mem_slots.mpr (.inr hg)

omit [Inhabited C] in
/-- **What is tested before something is taken**: the section of `run` that
begins a generation has counted the places, an `acquire` that lends one the
loans. -/
theorem acts_tested (o : Options ε V C) (b : Binding ε C T) (e : Event ε C T) :
    (b.acts o e).length ≤ 1
      ∧ (.spawn ∈ b.acts o e → b.pending = none ∧ (b.owned : ℤ) < o.maxGenerations)
      ∧ ∀ g, .lend g ∈ b.acts o e → b.active = some g ∧ b.borrowers g ≠ o.maxBorrowers := by
  cases e with
  | stop =>
    simp only [acts]
    cases b.stopping with
    | true | false => simp
  | acquire ctx stopped =>
    show (b.leaseActs (b.acquire o ctx stopped)).length ≤ 1
      ∧ (_ ∈ b.leaseActs (b.acquire o ctx stopped) → _)
      ∧ ∀ g, _ ∈ b.leaseActs (b.acquire o ctx stopped) → _
    cases ha : b.acquire o ctx stopped with
    | error => simp [leaseActs]
    | ok =>
      obtain ⟨g, hg, hne, -⟩ := b.core_acquire o ha
      unfold leaseActs
      rw [hg]
      simpa using hne
  | loop =>
    unfold acts
    have hl := b.looped o
    generalize b.loop o = c at hl
    cases hl with
    | spawn p hf hc =>
      obtain ⟨-, -, hp, hlt⟩ := (b.constructible_iff o).mp hc
      exact ⟨le_rfl, fun _ => ⟨hp, hlt⟩, fun g hg => nomatch List.mem_singleton.mp hg⟩
    | exit | clean | exhausted | wait => simp [goto]
  | built =>
    simp only [acts, constructAct]
    split_ifs
    all_goals simp
  | cleaned g result =>
    simp only [acts]
    cases result.complete with
    | true | false => simp
  | _ => simp [acts]

def Limited (o : Options ε V C) (b : Binding ε C T) : Prop :=
  (b.lifecycle.slots.length : ℤ) ≤ o.maxGenerations ∧ (b.lifecycle.owed : ℤ) ≤ o.maxBorrowers

theorem Limited.step {e : Event ε C T} (h : b.Limited o) (hr : (machine o).Run tr b)
    (hs : (machine o).step b e = some b') : b'.Limited o := by
  have hinv := (synced_of_run hr).2
  have hexec := exec_acts hr hs
  obtain ⟨hone, hspawn, hlend⟩ := b.acts_tested o e
  generalize b.acts o e = as at hexec hone hspawn hlend
  match as, hone with
  | [], _ =>
    unfold Limited
    exact Option.some.inj hexec ▸ h
  | [a], _ =>
    replace hexec := (Machine.exec_singleton _ _).symm.trans hexec
    constructor
    · by_cases ha : a = .spawn
      · subst ha
        obtain ⟨hp, hlt⟩ := hspawn (.head _)
        obtain ⟨-, heq⟩ := Option.ite_none_right_eq_some.mp hexec
        have hslots : b.lifecycle.slots.length = b.owned := by
          show (b.pending.toList ++ b.active.toList ++ b.retired).length = _
          rw [hp, List.length_append]
          exact Nat.add_comm _ _
        rw [← Option.some.inj heq, Lifecycle.slots_spawn hp, List.length_cons, hslots,
          Nat.cast_succ]
        exact Int.add_one_le_of_lt hlt
      · have hle := (Lifecycle.subperm_of_step hexec ha).1.length_le
        exact (Int.ofNat_le.mpr hle).trans h.1
    · by_cases ha : ∃ g, a = .lend g
      · obtain ⟨g, rfl⟩ := ha
        obtain ⟨hg, hne⟩ := hlend g (.head _)
        -- the count is within the limit and is not the limit
        have hsum := borrows_eq hr
        rw [hg, Option.toList_some, List.singleton_append, List.map_cons, List.sum_cons] at hsum
        rw [Lifecycle.owed_lend hinv hexec, Nat.cast_succ, ← hsum]
        exact Int.add_one_le_of_lt (lt_of_le_of_ne (hsum.le.trans h.2) hne)
      · have hle := Lifecycle.owed_le hinv hexec (fun g hg => ha ⟨g, hg⟩)
        exact (Int.ofNat_le.mpr hle).trans h.2

/-- **Every reachable binding keeps its limits.** -/
theorem limited_of_run (hr : (machine o).Run tr b) : b.Limited o := by
  refine hr.invariant (I := fun _ b => b.Limited o) ?_ (fun hr h => h.step hr)
  have hg := o.generations_bound.1
  have hb := o.borrowers_bound.1
  exact ⟨show (0 : ℤ) ≤ _ by omega, show (0 : ℤ) ≤ _ by omega⟩

/-! ### Which events give which acts -/

omit [Inhabited C] in
theorem filter_acts (o : Options ε V C) (b : Binding ε C T) (e : Event ε C T) :
    (b.acts o e).filter Act.disposal = e.disposal := by
  cases e with
  | stop =>
    show (if b.stopping then [] else [Act.close]).filter Act.disposal = []
    cases b.stopping with
    | true | false => rfl
  | acquire ctx stopped =>
    show (b.leaseActs (b.acquire o ctx stopped)).filter Act.disposal = []
    cases b.acquire o ctx stopped with
    | error => rfl
    | ok =>
      show (b.active.toList.map Act.lend).filter Act.disposal = []
      cases b.active with
      | none | some => rfl
  | loop =>
    unfold acts
    cases (b.loop o).coordinator with
    | cleaning | preparing => rfl
    | loop | waiting | admitted | copied | building | returned | releasing | exiting | exited => rfl
  | built g inst err r =>
    show [b.constructAct g inst err r.stopped].filter Act.disposal = []
    unfold constructAct
    split_ifs
    all_goals rfl
  | cleaned g result =>
    show (if result.complete then [Act.finish g] else [Act.keep g]).filter Act.disposal
      = if result.complete then [Act.finish g] else [Act.keep g]
    cases result.complete with
    | true | false => rfl
  | _ => rfl

/-- **Acts of disposal come from the events of a cleanup.** -/
theorem mem_history_iff {a : Act} (ha : a.disposal = true) (hr : (machine o).Run tr b) :
    a ∈ history o tr ↔ ∃ e ∈ tr, a ∈ e.disposal := by
  constructor
  · intro hm
    obtain ⟨b, e, he, hae⟩ := Machine.exists_of_mem_outputs hm
    exact ⟨e, he, filter_acts o b e ▸ List.mem_filter.mpr ⟨hae, ha⟩⟩
  · rintro ⟨e, he, hae⟩
    have hout (b : Binding ε C T) : ∃ x ∈ b.acts o e, x = a := by
      rw [← filter_acts o b e] at hae
      exact ⟨a, List.mem_of_mem_filter hae, rfl⟩
    obtain ⟨x, hx, rfl⟩ := Machine.exists_mem_outputs hr he hout
    exact hx

theorem start_mem_history (hr : (machine o).Run tr b) (hm : .startRelease g ∈ tr) :
    .start g ∈ history o tr :=
  (mem_history_iff rfl hr).mpr ⟨_, hm, List.mem_singleton_self _⟩

theorem disposed_history (hr : (machine o).Run tr b) :
    Lifecycle.Disposed g (history o tr) ↔ Completed g tr ∨ .discard g ∈ tr := by
  refine or_congr ((mem_history_iff rfl hr).trans ⟨?_, ?_⟩)
    ((mem_history_iff rfl hr).trans ⟨?_, ?_⟩)
  · rintro ⟨e, he, hm⟩
    obtain ⟨result, hc, rfl⟩ := finish_mem_disposal hm
    exact ⟨result, hc, he⟩
  · rintro ⟨result, hc, hm⟩
    refine ⟨_, hm, ?_⟩
    show Act.finish g ∈ if result.complete then [Act.finish g] else [Act.keep g]
    rw [if_pos hc]
    exact .head _
  · rintro ⟨e, he, hm⟩
    obtain rfl := discard_mem_disposal hm
    exact he
  · exact fun hm => ⟨_, hm, List.mem_singleton_self _⟩

theorem built_history {i : Instance T} (hr : (machine o).Run tr b) (hm : Returned g i tr) :
    Lifecycle.Built g (history o tr) := by
  obtain ⟨err, r, hm⟩ := hm
  have hout (b : Binding ε C T) :
      ∃ a ∈ b.acts o (.built g (some i) err r), a = .adopt g ∨ a = .reject g := by
    refine ⟨_, List.mem_singleton_self _, ?_⟩
    unfold constructAct
    split
    · exact .inl rfl
    · exact .inr rfl
  obtain ⟨a, ha, rfl | rfl⟩ := Machine.exists_mem_outputs hr hm hout
  · exact .inl ha
  · exact .inr ha

theorem countP_history (hr : (machine o).Run tr b) {p : Act → Bool}
    {q : Event ε C T → Bool} (hp : ∀ a, p a = true → a.disposal = true)
    (hq : ∀ e : Event ε C T, e.disposal.countP p = [e].countP q) :
    (history o tr).countP p = tr.countP q := by
  refine Machine.countP_outputs (fun b e => ?_) hr
  rw [← hq e, ← filter_acts o b e, List.countP_filter]
  refine List.countP_congr (fun a _ => ?_)
  rw [Bool.and_eq_true]
  exact ⟨fun h => ⟨h, hp a h⟩, And.left⟩

/-- **A `Release` callback runs at most once at a time**: every call has
returned, one apart while the coordinator is in one. -/
theorem countP_starts (hr : (machine o).Run tr b) (g : ℕ) :
    tr.countP (Event.starts g)
      = tr.countP (Event.ends g) + if b.coordinator = .releasing g then 1 else 0 := by
  have hstart : (history o tr).countP (· = .start g) = tr.countP (Event.starts g) := by
    refine countP_history hr (fun a ha => ?_) (fun e => ?_)
    · rw [of_decide_eq_true ha]
      rfl
    · cases e with
      | startRelease => simp [Event.disposal, Event.starts]
      | cleaned x result =>
        show (if result.complete then [Act.finish x] else [Act.keep x]).countP _ = 0
        cases result.complete with
        | true | false => rfl
      | _ => rfl
  have hend : (history o tr).countP (Act.ends g) = tr.countP (Event.ends g) := by
    refine countP_history hr (fun a ha => ?_) (fun e => ?_)
    · cases a with
      | keep | finish => rfl
      | _ => cases ha
    · cases e with
      | cleaned x result =>
        show (if result.complete then [Act.finish x] else [Act.keep x]).countP _ = _
        cases result.complete with
        | true | false => simp [Act.ends, Event.ends]
      | _ => rfl
  rw [← hstart, ← hend, Lifecycle.count_start (run_lifecycle hr) g]
  exact congrArg _ (if_congr Coordinator.disposing_eq_iff rfl rfl)

/-! ## Use -/

/-- **A generation on loan is active or retired, its counter is right, and
its `Release` callback has not been called.** -/
theorem held_of_run (hr : (machine o).Run tr b) (hg : b.outstanding g ≠ 0) :
    (b.active = some g ∨ g ∈ b.retired)
      ∧ (b.generations.cell g).borrows = (b.outstanding g : ℤ) ∧ .startRelease g ∉ tr := by
  obtain ⟨hsync, hinv⟩ := synced_of_run hr
  have hheld : b.active = some g ∨ g ∈ b.retired := hinv.held g hg
  refine ⟨hheld, ?_, fun hm => ?_⟩
  · exact hsync.borrows g (hinv.bound g (Lifecycle.mem_slots.mpr (.inr hheld)))
  · have hist := Lifecycle.history_of_run (run_lifecycle hr) g
    exact hg (hist.started (start_mem_history hr hm)).1

/-- **A `Release` callback starts on a retired generation without
borrows.** -/
theorem startRelease_of_run (hr : (machine o).Run tr b)
    (hs : step o b (.startRelease g) = some b') :
    g ∈ b.retired ∧ (b.generations.cell g).borrows = 0 ∧ ¬ Completed g tr := by
  obtain ⟨hsync, hinv⟩ := synced_of_run hr
  cases stepped hs with
  | startRelease _ hpc =>
    have hd : b.lifecycle.disposing = some (g, false) := congrArg Coordinator.disposing hpc
    have hm : g ∈ b.lifecycle.slots :=
      Lifecycle.mem_slots.mpr (.inr (.inr (hinv.chosen g false hd).1))
    refine ⟨(hinv.chosen g false hd).1, ?_, fun hc => ?_⟩
    · have hz : b.core.outstanding g = 0 := (hinv.chosen g false hd).2
      have hb := hsync.borrows g (hinv.bound g hm)
      rwa [hz] at hb
    · -- a completed generation is gone, and this one is retired
      have hist := Lifecycle.history_of_run (run_lifecycle hr) g
      have hgone := hist.disposed ((disposed_history hr).mpr (.inl hc))
      exact Lifecycle.not_mem_slots_of_gone hinv hgone hm

/-- **A generation that left the active slot is never lent again.** -/
theorem not_lent_again {tr₁ tr₂ : List (Event ε C T)} {b₁ b₂ b₃ : Binding ε C T} {l : ℕ}
    {ctx : Ctx ε} {stopped : Bool} (hr : (machine o).Run tr b) (ha : b.active = some g)
    (he₁ : (machine o).exec b tr₁ = some b₁) (hleft : b₁.active ≠ some g)
    (he₂ : (machine o).exec b₁ tr₂ = some b₂)
    (hacq : b₂.acquire o ctx stopped = .ok (b₃, l)) : (b₃.leases.cell l).address ≠ g := by
  obtain ⟨as₁, hl₁⟩ := exec_lifecycle hr he₁
  obtain ⟨as₂, hl₂⟩ := exec_lifecycle (hr.append he₁) he₂
  have hnot := Lifecycle.not_active_again (run_lifecycle hr) ha hl₁ hleft hl₂
  obtain ⟨x, hx, -, rfl, hc⟩ := b₂.core_acquire o hacq
  have haddr : (b₃.leases.cell b₂.leases.next).address = x := by
    rw [show b₃.leases = _ from congrArg Core.leases hc]
    exact congrArg Lease.address (Heap.cell_alloc_self b₂.leases _)
  rw [haddr]
  rintro rfl
  exact hnot hx

/-! ## The callback of an instance -/

omit [Inhabited C] in
/-- **The callback of a generation that a step does not build stays**,
unless the generation goes. -/
theorem release_of_step {e : Event ε C T} (hinv : b.lifecycle.Inv)
    (hs : step o b e = some b') (hlt : g < b.generations.next)
    (hgone : b'.lifecycle.stage g ≠ .gone) (he : ∀ inst err r, e ≠ .built g inst err r) :
    (b'.core.data g).release = (b.core.data g).release := by
  have hother {x : ℕ} (release : Bool) (hx : g ≠ x) :
      ((b.core.setRelease x release).data g).release = (b.core.data g).release :=
    congrArg Static.release (Function.update_of_ne hx _ _)
  have hremove {x : ℕ} {r : Bool} (hd : b.lifecycle.disposing = some (x, r))
      (hc : b'.core = b.core.remove x) : (b'.core.data g).release = (b.core.data g).release := by
    rw [hc]
    refine hother false ?_
    rintro rfl
    refine hgone ?_
    unfold lifecycle
    rw [hc]
    exact Lifecycle.stage_of_remove hinv (hinv.chosen _ _ hd).1
  cases stepped hs with
  | commit => rw [core_commit]
  | retry sequence =>
    cases hr : b.retry o sequence with
    | error => rfl
    | ok x =>
      show (x.1.core.data g).release = _
      rw [b.core_retry o hr]
  | stop cause =>
    by_cases hst : b.stopping = true
    · rw [show b.stop o cause = b from if_pos hst]
    · rw [b.core_stop o cause (eq_false_of_ne_true hst)]
      rfl
  | retryCleanup =>
    show (b.unblock.core.data g).release = _
    rw [core_unblock]
  | acquire ctx stopped =>
    cases ha : b.acquire o ctx stopped with
    | error => rfl
    | ok x =>
      obtain ⟨_, -, -, -, hc⟩ := b.core_acquire o ha
      show (x.1.core.data g).release = _
      rw [hc]
      rfl
  | release l =>
    cases hr : b.release l with
    | error => rfl
    | ok x =>
      show (x.core.data g).release = _
      rw [b.core_release hr]
      rfl
  | unborrow l =>
    rw [b.core_unborrow l]
    rfl
  | loop =>
    have hl := b.looped o
    generalize b.loop o = c at hl
    cases hl with
    | clean x =>
      rw [core_goto, core_modify _ x (f := fun x => { x with cleaning := true }) (fun _ => rfl)
        (fun _ => rfl)]
      rfl
    | spawn =>
      rw [core_spawn]
      exact congrArg Static.release (Function.update_of_ne (ne_of_lt hlt) _ _)
    | exit | exhausted | wait => rfl
  | wake | slot | vacate | copy | build | skip | exit => rfl
  | expire | skipped =>
    rw [core_finishConstruct]
    split_ifs
    all_goals rfl
  | built x inst err r =>
    have hx : g ≠ x := fun hx => he inst err r (by rw [hx])
    rw [core_finishConstruct]
    cases inst with
    | none =>
      split_ifs
      all_goals rfl
    | some i =>
      split_ifs
      all_goals exact hother i.release hx
  | startRelease =>
    rw [core_goto, core_cancel]
    rfl
  | cleaned x result hpc =>
    have hc := b.core_finishClean o x result
    split_ifs at hc
    · exact hremove (congrArg Coordinator.disposing hpc) hc
    · rw [hc]
      rfl
  | discard x hpc =>
    refine hremove (congrArg Coordinator.disposing hpc) ?_
    rw [core_finishClean, core_cancel]
    rfl

theorem not_built_of_pending (hr : (machine o).Run tr b) (hp : b.pending = some g) :
    (∀ i, ¬ Returned g i tr) ∧ .discard g ∉ tr := by
  have hinv := (synced_of_run hr).2
  have hist := Lifecycle.history_of_run (run_lifecycle hr) g
  have hst : b.lifecycle.stage g = .pending := Lifecycle.stage_of_pending hinv hp
  refine ⟨fun i hm => ?_, fun hm => ?_⟩
  · have hrank := hist.built (built_history hr hm)
    rw [hst] at hrank
    exact nomatch hrank
  · have hgone := hist.disposed ((disposed_history hr).mpr (.inr hm))
    rw [hst] at hgone
    cases hgone

/-- **A generation carries the callback its instance came with**, as long as
it is owned; and only one without a callback is discarded. -/
theorem callback_of_run (hr : (machine o).Run tr b) : ∀ {g : ℕ} {i : Instance T},
    Returned g i tr → (b.lifecycle.stage g ≠ .gone → (b.core.data g).release = i.release)
      ∧ (.discard g ∈ tr → i.release = false) := by
  refine hr.invariant (I := fun tr b => ∀ {g : ℕ} {i : Instance T}, Returned g i tr →
    (b.lifecycle.stage g ≠ .gone → (b.core.data g).release = i.release)
      ∧ (.discard g ∈ tr → i.release = false)) ?_ ?_
  · rintro g i ⟨err, r, hm⟩
    cases hm
  intro tr b e b' hr ih hs g i hm
  obtain ⟨hsync, hinv⟩ := synced_of_run hr
  by_cases hb : ∃ inst err r, e = .built g inst err r
  · -- the step ends the construction of `g`, so this is its only instance
    obtain ⟨inst, err, r, rfl⟩ := hb
    replace hs : step o b (.built g inst err r) = some b' := hs
    cases stepped hs with
    | built _ _ _ _ hpc =>
      have hp : b.pending = some g := hsync.candidate.trans (congrArg Coordinator.candidate hpc)
      obtain ⟨hfresh, hkept⟩ := not_built_of_pending hr hp
      have hinst : inst = some i := by
        obtain ⟨err', r', hm⟩ := hm
        obtain hm | hm := List.mem_append.mp hm
        · exact absurd ⟨err', r', hm⟩ (hfresh i)
        · exact (Event.built.inj (List.mem_singleton.mp hm)).2.1.symm
      subst hinst
      refine ⟨fun _ => ?_, fun hd => ?_⟩
      · rw [core_finishConstruct]
        split_ifs
        all_goals exact b.core.release_setRelease g i.release
      · obtain hd | hd := List.mem_append.mp hd
        · exact absurd hd hkept
        · exact nomatch List.mem_singleton.mp hd
  · have hold : Returned g i tr := by
      obtain ⟨err, r, hm⟩ := hm
      obtain hm | hm := List.mem_append.mp hm
      · exact ⟨err, r, hm⟩
      · exact absurd ⟨some i, err, r, (List.mem_singleton.mp hm).symm⟩ hb
    have hrank := (Lifecycle.history_of_run (run_lifecycle hr) g).built (built_history hr hold)
    have hlt : g < b.generations.next := by
      by_contra hc
      rw [show b.lifecycle.stage g = .unborn from if_pos (not_lt.mp hc)] at hrank
      exact nomatch hrank
    refine ⟨fun hgone => ?_, fun hd => ?_⟩
    · refine (release_of_step hinv hs hlt hgone fun inst err r he => hb ⟨inst, err, r, he⟩).trans
        ((ih hold).1 fun hc => hgone ?_)
      exact hinv.gone_of_exec (exec_acts hr hs) hc
    · obtain hd | hd := List.mem_append.mp hd
      · exact (ih hold).2 hd
      · obtain rfl := List.mem_singleton.mp hd
        replace hs : step o b (.discard g) = some b' := hs
        cases stepped hs with
        | discard _ hpc hrel =>
          have hch := (hinv.chosen g false (congrArg Coordinator.disposing hpc)).1
          have hst := Lifecycle.stage_of_retired hinv hch
          rw [← (ih hold).1 (by rw [hst]; exact nofun)]
          exact hrel

/-! ## The end -/

/-- A coordinator that has left its loop left nothing behind. -/
def Terminal (b : Binding ε C T) : Prop :=
  b.coordinator = .exiting ∨ b.coordinator = .exited →
    b.stopping = true ∧ b.retired = [] ∧ b.pending = none

def place (b : Binding ε C T) : Coordinator × Bool × List ℕ × Option ℕ :=
  (b.coordinator, b.stopping, b.retired, b.pending)

section
omit [Inhabited C]

omit [Inhabited T] in
theorem place_of_core_eq (hc : b'.core = b.core) : b'.place = b.place := by
  unfold place
  rw [show b'.coordinator = b.coordinator from congrArg Core.coordinator hc,
    show b'.stopping = b.stopping from congrArg Core.stopping hc,
    show b'.retired = b.retired from congrArg Core.retired hc,
    show b'.pending = b.pending from congrArg Core.pending hc]

omit [Inhabited T] in
theorem place_retry (sequence : ℕ) :
    (b.after ((b.retry o sequence).map Prod.fst)).place = b.place := by
  cases hr : b.retry o sequence with
  | error => rfl
  | ok => exact place_of_core_eq (b.core_retry o hr)

omit [Inhabited T] in
theorem place_acquire (ctx : Ctx ε) (stopped : Bool) :
    (b.after ((b.acquire o ctx stopped).map Prod.fst)).place = b.place := by
  cases ha : b.acquire o ctx stopped with
  | error => rfl
  | ok =>
    obtain ⟨g, -, -, -, hc⟩ := b.core_acquire o ha
    exact congrArg (fun k : Core T => (k.coordinator, k.stopping, k.retired, k.pending)) hc

theorem place_release (l : ℕ) : (b.after (b.release l)).place = b.place := by
  cases hr : b.release l with
  | error => rfl
  | ok =>
    exact congrArg (fun k : Core T => (k.coordinator, k.stopping, k.retired, k.pending))
      (b.core_release hr)

omit [Inhabited T] in
theorem place_unborrow (l : ℕ) : (b.unborrow l).place = b.place :=
  congrArg (fun k : Core T => (k.coordinator, k.stopping, k.retired, k.pending))
    (b.core_unborrow l)

omit [Inhabited T] in
theorem terminal_congr (hp : b'.place = b.place) : b'.Terminal ↔ b.Terminal := by
  obtain ⟨h1, h2, h3, h4⟩ : b'.coordinator = b.coordinator ∧ b'.stopping = b.stopping
      ∧ b'.retired = b.retired ∧ b'.pending = b.pending := by
    simpa [place] using hp
  unfold Terminal
  rw [h1, h2, h3, h4]

/-- **A step keeps the end**, and does not leave it. -/
theorem terminal_step {e : Event ε C T} (h : b.Terminal) (hs : step o b e = some b') :
    b'.Terminal ∧ (b.coordinator = .exited → b'.coordinator = .exited) := by
  -- an event of a caller leaves the coordinator where it is
  have hsame (hp : b'.place = b.place) :
      b'.Terminal ∧ (b.coordinator = .exited → b'.coordinator = .exited) :=
    ⟨(terminal_congr hp).mpr h, fun he => (congrArg Prod.fst hp).trans he⟩
  -- an event of the coordinator ends before it has left
  have hloop {p q : Coordinator} (hp : b.coordinator = p) (hq : b'.coordinator = q)
      (h1 : p ≠ .exited) (h2 : q ≠ .exiting) (h3 : q ≠ .exited) :
      b'.Terminal ∧ (b.coordinator = .exited → b'.coordinator = .exited) :=
    ⟨fun hc => absurd hc (not_or.mpr ⟨hq ▸ h2, hq ▸ h3⟩), fun he => absurd (hp.symm.trans he) h1⟩
  cases stepped hs with
  | commit c => exact hsame (place_of_core_eq (b.core_commit o c))
  | retry sequence => exact hsame (place_retry sequence)
  | stop cause =>
    by_cases hst : b.stopping = true
    · exact hsame (congrArg place (if_pos hst))
    · have hpc : (b.stop o cause).coordinator = b.coordinator :=
        congrArg Core.coordinator (b.core_stop o cause (eq_false_of_ne_true hst))
      refine ⟨fun he => absurd (h ?_).1 hst, fun he => hpc.trans he⟩
      rwa [hpc] at he
  | retryCleanup => exact hsame (place_of_core_eq b.core_unblock)
  | acquire ctx stopped => exact hsame (place_acquire ctx stopped)
  | release l => exact hsame (place_release l)
  | unborrow l => exact hsame (place_unborrow l)
  | loop hpc =>
    have hl := b.looped o
    generalize b.loop o = c at hl hsame hloop
    cases hl with
    | exit hs hr hp =>
      exact ⟨fun _ => ⟨hs, hr, hp⟩, fun he => nomatch hpc.symm.trans he⟩
    | clean | spawn | exhausted | wait => exact hloop hpc rfl nofun nofun nofun
  | wake hpc | slot g hpc | copy g hpc | build g hpc | vacate g hpc | built g inst err r hpc
  | cleaned g result hpc | expire g r hpc | skipped g c r hpc | startRelease g hpc
  | discard g hpc => exact hloop hpc rfl nofun nofun nofun
  | skip g stopped hpc =>
    exact hpc.elim (fun hpc => hloop hpc rfl nofun nofun nofun)
      (fun hpc => hloop hpc rfl nofun nofun nofun)
  | exit hpc => exact ⟨fun _ => h (.inl hpc), fun _ => rfl⟩

end

theorem terminal_of_run (hr : (machine o).Run tr b) : b.Terminal :=
  hr.invariant (I := fun _ b => b.Terminal)
    (fun hc => hc.elim nofun nofun)
    (fun _ h hs => (terminal_step h hs).1)

theorem closed_of_exec {tr' : List (Event ε C T)} (hr : (machine o).Run tr b)
    (hc : b.closed = true) (he : (machine o).exec b tr' = some b') : b'.closed = true := by
  refine hr.exec_rel (R := fun b b' : Binding ε C T => b.closed = true → b'.closed = true)
    (fun _ => id) (fun h1 h2 h => h2 (h1 h)) (fun hr hs hc => ?_) he hc
  exact decide_eq_true ((terminal_step (terminal_of_run hr) hs).2 (of_decide_eq_true hc))

/-- **A closed binding owns nothing.** -/
theorem empty_of_closed (hr : (machine o).Run tr b) (hc : b.closed = true) :
    b.active = none ∧ b.pending = none ∧ b.retired = [] := by
  obtain ⟨hs, hret, hp⟩ := terminal_of_run hr (.inr (of_decide_eq_true hc))
  exact ⟨(synced_of_run hr).2.closed hs, hp, hret⟩

/-! ## Ownership -/

/-- **An instance is owned in one place until it has been released**, and
once it has been it is in no place. -/
theorem owned_of_run {i : Instance T} (hr : (machine o).Run tr b) (hm : Returned g i tr) :
    ((b.active.toList ++ b.retired).count g = 1 ∧ ¬ Completed g tr ∧ .discard g ∉ tr)
      ∨ ((b.active.toList ++ b.retired).count g = 0
        ∧ (Completed g tr ∨ (i.release = false ∧ .discard g ∈ tr))) := by
  have hd := disposed_history (g := g) hr
  obtain ⟨hc, hn⟩ | ⟨hn, hdisp⟩ :=
    Lifecycle.owned_or_disposed (run_lifecycle hr) (built_history hr hm)
  · rw [hd, not_or] at hn
    exact .inl ⟨hc, hn⟩
  · refine .inr ⟨List.count_eq_zero_of_not_mem fun hmem => hn ?_, ?_⟩
    · rw [List.mem_append, Option.mem_toList] at hmem
      exact Lifecycle.mem_slots.mpr (.inr hmem)
    · exact (hd.mp hdisp).imp_right fun hdis => ⟨(callback_of_run hr hm).2 hdis, hdis⟩

end Binding

end Resource
