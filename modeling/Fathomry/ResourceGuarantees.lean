import Fathomry.ResourceScopeRuns
import Fathomry.ResourceWake

/-!
# What a scope guarantees of its bindings

The results about single bindings, for the bindings of a scope. A run here
is any interleaving of declarations, `Apply` and `Retry` calls with their
cancellations, leases, coordinators, callbacks that return anything, and
shutdown.
-/

namespace Resource

namespace Scope

variable {ε V : Type} {C T : ℕ → Type} [Inhabited V] [∀ i, Inhabited (C i)]
  [∀ i, Inhabited (T i)] {z : ScopeOptions} {o : ∀ i, Options ε V (C i)} {s s' : Scope ε V C T}
  {tr : List (Label ε V C T)}

/-! ## A scope to run -/

namespace Sample

def limits : ScopeOptions where
  name := "app"
  maxBindings := 64
  maxPreparing := 4
  cleanupTimeout := 5000000000
  name_valid := by decide
  bindings_bound := by decide
  preparing_bound := by decide
  timeout_bound := by decide

def component (i : ℕ) : Options Unit ℕ ℕ where
  scope := "app"
  name := if i = 0 then "db" else "cache"
  policy := .follow
  select := .ok
  clone := id
  equal := some (· == ·)
  maxGenerations := 2
  maxBorrowers := 1024
  name_valid := by
    split
    · decide
    · decide
  follow_equal := fun _ => rfl
  generations_bound := by decide
  borrowers_bound := by decide

abbrev Step := Label Unit ℕ (fun _ => ℕ) (fun _ => Unit)

abbrev scope : Machine (Scope Unit ℕ (fun _ => ℕ) (fun _ => Unit)) Step :=
  machine limits component

/-- Two components are declared and an `Apply` of the configuration `7` runs
to its return. -/
def applied : List Step :=
  [.bind, .bind, .call (.apply (some 7)) (some none), .advance 0, .grab 0, .advance 0, .advance 0,
    .advance 0, .advance 0, .advance 0, .advance 0, .advance 0, .advance 0, .advance 0]

def adopted : List Step :=
  applied ++ [.entry 0 .loop, .entry 0 (.slot 0), .entry 0 (.copy 0 false),
    .entry 0 (.build 0 false), .entry 0 (.vacate 0),
    .entry 0 (.built 0 (some ⟨(), true⟩) none ⟨false, false, none⟩)]

def stopped : List Step := applied ++ [.shutdown false, .stop]

def idle : List Step := adopted ++ [.entry 0 .loop, .entry 0 .wake, .entry 0 .loop]

def lent : List Step := adopted ++ [.entry 0 (.acquire none false)]

def closed : List Step :=
  adopted ++ [.shutdown false, .stop, .stop, .entry 0 .loop, .entry 0 (.startRelease 0),
    .entry 0 (.cleaned 0 ⟨true, none⟩), .entry 0 .loop, .entry 0 .exit]

def stuck : List Step :=
  lent ++ [.shutdown false, .stop, .entry 0 .loop, .entry 0 .wake, .entry 0 .loop]

end Sample

/-! ## Borrowing -/

/-- **No use after release.** While a lease is outstanding its generation is
active or retired, its borrows are its outstanding leases, and its `Release`
callback has never been started. A callback starts only for a retired
generation without borrows, and a generation that has left the active slot
is never lent again. -/
theorem no_use_after_release (hr : (machine z o).Run tr s) (i : ℕ) :
    (∀ l < (s.entries i).leases.next, ((s.entries i).leases.cell l).released = false →
      ((s.entries i).leases.cell l).borrowing = true)
    ∧ (∀ g, ∀ l < (s.entries i).leases.next, ((s.entries i).leases.cell l).borrowing = true →
      ((s.entries i).leases.cell l).address = g →
        ((s.entries i).active = some g ∨ g ∈ (s.entries i).retired)
          ∧ ((s.entries i).generations.cell g).borrows = ((s.entries i).outstanding g : ℤ)
          ∧ .startRelease g ∉ entryTrace z o i tr)
    ∧ (∀ g s', s.step z o (.entry i (.startRelease g)) = some s' →
      g ∈ (s.entries i).retired ∧ ((s.entries i).generations.cell g).borrows = 0)
    ∧ ∀ g tr₁ s₁ tr₂ s₂, (s.entries i).active = some g →
      (machine z o).exec s tr₁ = some s₁ → (s₁.entries i).active ≠ some g →
      (machine z o).exec s₁ tr₂ = some s₂ →
      ∀ ctx stopped b l, (s₂.entries i).acquire (o i) ctx stopped = .ok (b, l) →
        (b.leases.cell l).address ≠ g := by
  have hrun := run_entry hr i
  refine ⟨(Binding.synced_of_run hrun).1.lent, ?_, ?_, ?_⟩
  · rintro g l hl hb rfl
    exact Binding.held_of_run hrun (Binding.core _ |>.outstanding_giveBack hl hb).1
  · intro g s' hs
    have hstep := (sound_of_run hr).exec_events hs i
    rw [events_entry_self] at hstep
    obtain ⟨hret, hzero, -⟩ :=
      Binding.startRelease_of_run hrun ((Machine.exec_singleton _ _).symm.trans hstep)
    exact ⟨hret, hzero⟩
  · intro g tr₁ s₁ tr₂ s₂ ha h1 hleft h2 ctx stopped b l hacq
    exact Binding.not_lent_again hrun ha (exec_entry hr h1 i) hleft
      (exec_entry (hr.append h1) h2 i) hacq

/-- A borrowed component: its generation is active and has not been released. -/
theorem no_use_after_release_lent :
    ∃ s, Sample.scope.Run Sample.lent s ∧ 0 < (s.entries 0).leases.next
      ∧ ((s.entries 0).leases.cell 0).borrowing = true
      ∧ ((s.entries 0).active = some 0 ∨ 0 ∈ (s.entries 0).retired)
      ∧ ((s.entries 0).generations.cell 0).borrows = ((s.entries 0).outstanding 0 : ℤ)
      ∧ .startRelease 0 ∉ entryTrace Sample.limits Sample.component 0 Sample.lent :=
  have hr := Sample.scope.run_reached Sample.lent rfl
  ⟨_, hr, by decide, by decide, (no_use_after_release hr 0).2.1 0 0 (by decide) (by decide) rfl⟩

/-! ## Limits -/

/-- **A component keeps its limits.** The generations it owns are never more
than `MaxGenerations`, no counter of borrows is ever negative, and the
borrows of the active and retired generations together are never more than
`MaxBorrowers`. -/
theorem limits_kept (hr : (machine z o).Run tr s) (i : ℕ) :
    ((s.entries i).active.toList.length + (s.entries i).pending.toList.length
        + (s.entries i).retired.length : ℤ) ≤ (o i).maxGenerations
      ∧ (∀ g < (s.entries i).generations.next, 0 ≤ ((s.entries i).generations.cell g).borrows)
      ∧ (((s.entries i).active.toList ++ (s.entries i).retired).map
        (fun g => ((s.entries i).generations.cell g).borrows)).sum ≤ (o i).maxBorrowers := by
  have hrun := run_entry hr i
  obtain ⟨hplaces, hloans⟩ := Binding.limited_of_run hrun
  refine ⟨?_, fun g hg => ?_, (Binding.borrows_eq hrun).le.trans hloans⟩
  · have hslots : (s.entries i).lifecycle.slots.length = (s.entries i).pending.toList.length
        + (s.entries i).active.toList.length + (s.entries i).retired.length := by
      rw [← List.length_append, ← List.length_append]
      rfl
    omega
  · rw [show ((s.entries i).generations.cell g).borrows = _ from
      (Binding.synced_of_run hrun).1.borrows g hg]
    exact Int.natCast_nonneg _

/-- A borrowed component: its one borrow is within the limit. -/
theorem limits_kept_lent :
    ∃ s, Sample.scope.Run Sample.lent s ∧ ((s.entries 0).generations.cell 0).borrows = 1
      ∧ (((s.entries 0).active.toList ++ (s.entries 0).retired).map
        (fun g => ((s.entries 0).generations.cell g).borrows)).sum ≤ 1024 :=
  have hr := Sample.scope.run_reached Sample.lent rfl
  ⟨_, hr, by decide, (limits_kept hr 0).2.2⟩

/-! ## Ownership -/

/-- Every instance `Build` has returned for the `i`-th component has been
released completely, or came without a callback and has been dropped. -/
def AllReleased (z : ScopeOptions) (o : ∀ i, Options ε V (C i)) (i : ℕ)
    (tr : List (Label ε V C T)) : Prop :=
  ∀ g inst, Returned g inst (entryTrace z o i tr) →
    Completed g (entryTrace z o i tr)
      ∨ (inst.release = false ∧ .discard g ∈ entryTrace z o i tr)

/-- The `i`-th component owns nothing. -/
def Empty (s : Scope ε V C T) (i : ℕ) : Prop :=
  (s.entries i).active = none ∧ (s.entries i).pending = none ∧ (s.entries i).retired = []

/-- **Ownership is neither lost nor duplicated.** An instance `Build` has
returned is in one place until its cleanup is complete, its callback never
runs twice at once and is not called again once it has reported completion.
When the coordinator has exited nothing is left, and it stays so. -/
theorem ownership_conserved (hr : (machine z o).Run tr s) (i : ℕ) :
    (∀ g inst, Returned g inst (entryTrace z o i tr) →
      (((s.entries i).active.toList ++ (s.entries i).retired).count g = 1
          ∧ ¬ Completed g (entryTrace z o i tr) ∧ .discard g ∉ entryTrace z o i tr)
        ∨ (((s.entries i).active.toList ++ (s.entries i).retired).count g = 0
          ∧ (Completed g (entryTrace z o i tr)
            ∨ (inst.release = false ∧ .discard g ∈ entryTrace z o i tr))))
    ∧ (∀ g, (entryTrace z o i tr).countP (Event.starts g)
      = (entryTrace z o i tr).countP (Event.ends g)
        + if (s.entries i).coordinator = .releasing g then 1 else 0)
    ∧ (∀ g s', s.step z o (.entry i (.startRelease g)) = some s' →
      ¬ Completed g (entryTrace z o i tr))
    ∧ ((s.entries i).closed = true → ∀ tr' s', (machine z o).exec s tr' = some s' →
      (s'.entries i).closed = true ∧ s'.Empty i ∧ AllReleased z o i (tr ++ tr')) := by
  have hrun := run_entry hr i
  refine ⟨fun g inst hret => Binding.owned_of_run hrun hret, Binding.countP_starts hrun, ?_, ?_⟩
  · intro g s' hs
    have hstep := (sound_of_run hr).exec_events hs i
    rw [events_entry_self] at hstep
    exact (Binding.startRelease_of_run hrun ((Machine.exec_singleton _ _).symm.trans hstep)).2.2
  · intro hc tr' s' he
    have hrun' := run_entry (hr.append he) i
    have hc' := Binding.closed_of_exec hrun hc (exec_entry hr he i)
    obtain ⟨ha, hp, hret⟩ := Binding.empty_of_closed hrun' hc'
    refine ⟨hc', ⟨ha, hp, hret⟩, fun g inst hm => ?_⟩
    -- nothing is owned, so each instance is past its cleanup
    obtain ⟨hone, -⟩ | ⟨-, hdone⟩ := Binding.owned_of_run hrun' hm
    · rw [ha, hret] at hone
      cases hone
    · exact hdone

/-- A scope that was shut down: the instance that was built is gone. -/
theorem ownership_conserved_closed :
    ∃ s, Sample.scope.Run Sample.closed s ∧ (s.entries 0).closed = true
      ∧ Returned 0 ⟨(), true⟩ (entryTrace Sample.limits Sample.component 0 Sample.closed)
      ∧ s.Empty 0 ∧ AllReleased Sample.limits Sample.component 0 Sample.closed :=
  have hr := Sample.scope.run_reached Sample.closed rfl
  have hend := (ownership_conserved hr 0).2.2.2 (by decide) [] _ rfl
  ⟨_, hr, hend.1, ⟨none, ⟨false, false, none⟩, List.mem_of_getElem? (i := 6) rfl⟩,
    hend.2.1, hend.2.2⟩

/-! ## Receipts -/

def target (s : Scope ε V C T) (i p : ℕ) : Target ε := ((s.entries i).selections.cell p).target

/-- **Receipts never hang and never change.** Only the target in force may be
open, and then its construction is wanted or under way; once the component was
told to stop none is. A settled target keeps its outcome, and one that is settled
with success names the generation that is active in that very step. -/
theorem receipts_settle (hr : (machine z o).Run tr s) (i : ℕ) :
    (∀ p < (s.entries i).selections.next, (s.entries i).desired ≠ some p →
      (s.target i p).settled = true)
    ∧ (∀ p, (s.entries i).desired = some p → (s.target i p).settled = false →
      (s.entries i).wanted = true ∨ ∃ g, (s.entries i).pending = some g
        ∧ ((s.entries i).generations.cell g).selection = p)
    ∧ (∀ cause, .stop cause ∈ entryTrace z o i tr → ∀ p < (s.entries i).selections.next,
      (s.target i p).settled = true)
    ∧ (∀ tr' s', (machine z o).exec s tr' = some s' → ∀ p < (s.entries i).selections.next,
      (s.target i p).settled = true → s'.target i p = s.target i p)
    ∧ ∀ l s', s.step z o l = some s' → ∀ p < (s'.entries i).selections.next,
      (p < (s.entries i).selections.next → (s.target i p).settled = false) →
      (s'.target i p).settled = true → (s'.target i p).err = none →
      ∃ g, (s'.entries i).active = some g
        ∧ ((s'.entries i).generations.cell g).number = (s'.target i p).generation := by
  have hrun := run_entry hr i
  obtain ⟨-, hrec, -⟩ := Binding.ledger_of_run hrun
  refine ⟨hrec.others, fun p hp hopen => hrec.waiting p hp (Bool.eq_false_iff.mp hopen),
    fun _ hm => hrec.stopped (Binding.stopping_of_run hrun hm),
    fun tr' s' he => (Binding.evolves_of_exec hrun (exec_entry hr he i)).settled, ?_⟩
  intro l s' hs p hp hopen hset herr
  exact (move_entry hr hs i).succeeded hp (fun hlt => Bool.eq_false_iff.mp (hopen hlt))
    hset herr

/-- A target that is open is settled by a stop, and stays as it is. -/
theorem receipts_settle_stopped :
    (∃ s, Sample.scope.Run Sample.applied s ∧ (s.target 0 0).settled = false)
      ∧ ∃ s, Sample.scope.Run Sample.stopped s ∧ (s.target 0 0).settled = true
        ∧ ∀ tr' s', Sample.scope.exec s tr' = some s' → s'.target 0 0 = s.target 0 0 := by
  have hr := Sample.scope.run_reached Sample.stopped rfl
  have hstop : .stop none ∈ entryTrace Sample.limits Sample.component 0 Sample.stopped :=
    List.mem_of_getElem? (i := 1) rfl
  have hset := (receipts_settle hr 0).2.2.1 none hstop 0 (by decide)
  exact ⟨⟨_, Sample.scope.run_reached Sample.applied rfl, by decide⟩, _, hr, hset, fun tr' s' he =>
    (receipts_settle hr 0).2.2.2.1 tr' s' he 0 (by decide) hset⟩

/-! ## Wake-ups -/

/-- **The coordinator never misses a wake-up.** When it waits and no token is
to come there is nothing to clean, nothing to construct, and no end to come
to. -/
theorem no_missed_wakeup (hr : (machine z o).Run tr s) (i : ℕ)
    (hc : (s.entries i).coordinator = .waiting) (hw : (s.entries i).wake = false) :
    (¬ ∃ g ∈ (s.entries i).retired, ((s.entries i).generations.cell g).borrows = 0
        ∧ ((s.entries i).generations.cell g).blocked = false)
      ∧ ¬ ((s.entries i).stopping = false ∧ (s.entries i).wanted = true
        ∧ (s.entries i).pending = none ∧ ((s.entries i).owned : ℤ) < (o i).maxGenerations)
      ∧ ¬ ((s.entries i).stopping = true ∧ (s.entries i).retired = []
        ∧ (s.entries i).pending = none) := by
  have hidle := Binding.rested_of_run (run_entry hr i) hc hw
  refine ⟨?_, fun hcon => hidle.construct ?_, hidle.exit⟩
  · rintro ⟨g, hg, hclean⟩
    exact hidle.clean g hg ((s.entries i).cleanable_iff.mpr hclean)
  · exact ((s.entries i).constructible_iff (o i)).mpr hcon

/-- A coordinator that waits after it has adopted an instance. -/
theorem no_missed_wakeup_idle :
    ∃ s, Sample.scope.Run Sample.idle s ∧ (s.entries 0).coordinator = .waiting
      ∧ (s.entries 0).wake = false ∧ ¬ ((s.entries 0).stopping = true
        ∧ (s.entries 0).retired = [] ∧ (s.entries 0).pending = none) :=
  have hr := Sample.scope.run_reached Sample.idle rfl
  ⟨_, hr, by decide, by decide, (no_missed_wakeup hr 0 (by decide) (by decide)).2.2⟩

/-- **A shutdown that sleeps waits for somebody.** When a component is
stopping and its coordinator waits with no token to come, nothing of it is
active or being built, something is retired, and whatever is retired is on
loan or has failed to clean up. -/
theorem shutdown_waits_for_users (hr : (machine z o).Run tr s) (i : ℕ) :
    let b := s.entries i
    b.stopping = true → b.coordinator = .waiting → b.wake = false →
      b.active = none ∧ b.pending = none ∧ b.retired ≠ []
      ∧ ∀ g ∈ b.retired, (b.generations.cell g).blocked = true
        ∨ ∃ l < b.leases.next, (b.leases.cell l).borrowing = true ∧ (b.leases.cell l).address
          = g := by
  intro b hs hc hw
  obtain ⟨hsync, hinv⟩ := Binding.synced_of_run (run_entry hr i)
  have hidle := Binding.rested_of_run (run_entry hr i) hc hw
  have hpending : b.pending = none := hsync.candidate.trans (congrArg Coordinator.candidate hc)
  refine ⟨hinv.closed hs, hpending, fun hnil => hidle.exit ⟨hs, hnil, hpending⟩, fun g hg => ?_⟩
  by_contra hnone
  rw [not_or] at hnone
  have hzero : b.outstanding g = 0 := by
    unfold Binding.outstanding Core.outstanding
    exact (Heap.count_eq_zero_iff _ _).mpr (fun l hl hx => hnone.2 ⟨l, hl, hx⟩)
  have hborrows : (b.generations.cell g).borrows = (b.outstanding g : ℤ) :=
    hsync.borrows g (hinv.bound g (Lifecycle.mem_slots.mpr (.inr (.inr hg))))
  rw [hzero] at hborrows
  exact hidle.clean g hg (b.cleanable_iff.mpr ⟨hborrows, eq_false_of_ne_true hnone.1⟩)

/-- A lease that is not given back. -/
theorem shutdown_waits_for_users_stuck :
    ∃ s, Sample.scope.Run Sample.stuck s ∧ (s.entries 0).retired ≠ [] :=
  have hr := Sample.scope.run_reached Sample.stuck rfl
  ⟨_, hr, (shutdown_waits_for_users hr 0 (by decide) (by decide) (by decide)).2.2.1⟩

/-! ## Configuration -/

def configuration (s : Scope ε V C T) (i p : ℕ) : C i := ((s.entries i).selections.cell p).value

def source (s : Scope ε V C T) (i g : ℕ) : ℕ := ((s.entries i).generations.cell g).selection

/-- **Adopted configuration is accepted configuration.** While a component is
not stopping and its target has succeeded, there is an active generation,
built from the configuration in force or from one that is `Equal` to it. The
version applied is never past the target and never goes back, the numbers of
active generations only grow, and a fixed component is only ever built from
the first selection. -/
theorem configuration_matches (hr : (machine z o).Run tr s) (i : ℕ) :
    ((s.entries i).stopping = false → ∀ p, (s.entries i).desired = some p →
      (s.target i p).settled = true → (s.target i p).err = none → ∃ g, (s.entries i).active = some g
        ∧ (s.configuration i (s.source i g) = s.configuration i p
          ∨ Binding.equal (o i) (s.configuration i (s.source i g)) (s.configuration i p) = true))
    ∧ (s.entries i).applied ≤ (s.entries i).version
    ∧ (∀ tr' s', (machine z o).exec s tr' = some s' → (s.entries i).applied ≤ (s'.entries i).applied
      ∧ ∀ g g', (s.entries i).active = some g → (s'.entries i).active = some g' →
        g = g' ∨ ((s.entries i).generations.cell g).number
          < ((s'.entries i).generations.cell g').number)
    ∧ ((o i).policy = .fixed → ∀ g < (s.entries i).generations.next,
      s.configuration i (s.source i g) = s.configuration i 0) := by
  have hrun := run_entry hr i
  obtain ⟨hnum, -, hmatch⟩ := Binding.ledger_of_run hrun
  refine ⟨hmatch.agrees, hmatch.applied, fun tr' s' he => ?_, fun hf g hg =>
    hmatch.fixed hf _ (hnum.source g hg)⟩
  have hexec := exec_entry hr he i
  refine ⟨Binding.applied_le_of_exec hrun hexec, fun g g' hg hg' => ?_⟩
  obtain ⟨as, has⟩ := Binding.exec_lifecycle hrun hexec
  obtain ⟨hnum', -, -⟩ := Binding.ledger_of_run (hrun.append hexec)
  -- generations are numbered as they are made, and active ones come in order
  refine (Lifecycle.active_le (Binding.run_lifecycle hrun) has hg hg').eq_or_lt.imp_right ?_
  intro hlt
  calc ((s.entries i).generations.cell g).number = g + 1 := hnum.number g (hnum.active g hg)
    _ < g' + 1 := Nat.succ_lt_succ hlt
    _ = ((s'.entries i).generations.cell g').number :=
      (hnum'.number g' (hnum'.active g' hg')).symm

/-- An adopted component runs with the configuration that was applied. -/
theorem configuration_matches_adopted :
    ∃ s, Sample.scope.Run Sample.adopted s ∧ (s.entries 0).desired = some 0
      ∧ (s.target 0 0).settled = true ∧ ∃ g, (s.entries 0).active = some g
        ∧ (s.configuration 0 (s.source 0 g) = s.configuration 0 0
          ∨ Binding.equal (Sample.component 0) (s.configuration 0 (s.source 0 g))
            (s.configuration 0 0) = true) :=
  have hr := Sample.scope.run_reached Sample.adopted rfl
  ⟨_, hr, by decide, by decide, (configuration_matches hr 0).1 (by decide) 0 (by decide)
    (by decide) rfl⟩

end Scope

end Resource
