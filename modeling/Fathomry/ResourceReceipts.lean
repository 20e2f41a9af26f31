import Fathomry.ResourceLedger
import Fathomry.ResourceLifecycle

/-!
# A binding keeps its ledger

Each step of a binding is a move of its ledger (`Binding.move_of_step`), so
what `Ledger` proves of the targets holds of every target a binding has
issued. Most steps are quiet: leases, wake-ups and cleanups touch nothing
the ledger records. The ones that are not are the commit of an `Apply`, a
`Retry` of a failed target, shutdown, the start of a construction and its
end.

A construction belongs to the selection it was started for. When it ends,
it is adopted or fails its target only if that selection is still the
desired one; otherwise whoever replaced the selection has settled the
target already, and the construction ends without a word.
-/

namespace Resource

variable {ε V C T : Type}

namespace Binding

variable (o : Options ε V C) (b : Binding ε C T)

/-- **The ledger of a binding.** -/
def ledger : Ledger ε C where
  selections := b.selections
  desired := b.desired
  wanted := b.wanted
  version := b.version
  applied := b.applied
  generation := b.generation
  next := b.generations.next
  number := fun g => (b.generations.cell g).number
  source := fun g => (b.generations.cell g).selection
  pending := b.pending
  active := b.active
  stopping := b.stopping

/-! ## What each function does to the ledger -/

/-- A change of a generation that keeps its number and its selection is
invisible to the ledger. -/
theorem ledger_modify (g : ℕ) {f : Generation ε T → Generation ε T}
    (hn : ∀ x, (f x).number = x.number) (hs : ∀ x, (f x).selection = x.selection) :
    (b.modify g f).ledger = b.ledger := by
  refine Ledger.ext rfl rfl rfl rfl rfl rfl rfl (funext fun x => ?_) (funext fun x => ?_)
    rfl rfl rfl
  · exact Heap.cell_modify_proj b.generations g x hn
  · exact Heap.cell_modify_proj b.generations g x hs

@[simp] theorem ledger_cancel (g : ℕ) (cause : Option (Err ε)) :
    (b.cancel g cause).ledger = b.ledger :=
  b.ledger_modify g (fun _ => rfl) (fun _ => rfl)

@[simp] theorem ledger_cancelPending (cause : Option (Err ε)) :
    (b.cancelPending cause).ledger = b.ledger := by
  unfold cancelPending
  cases b.pending with
  | none => rfl
  | some g => exact b.ledger_cancel g cause

@[simp] theorem ledger_unblock : b.unblock.ledger = b.ledger := by
  have hlist : ∀ (l : List ℕ) (b : Binding ε C T),
      (l.foldl (fun b g => b.modify g (fun x => { x with blocked := false })) b).ledger
        = b.ledger := by
    intro l
    induction l with
    | nil => exact fun _ => rfl
    | cons g l ih =>
      intro b
      rw [List.foldl_cons, ih]
      exact b.ledger_modify g (fun _ => rfl) (fun _ => rfl)
  exact hlist b.retired b

theorem ledger_supersede :
    ∃ err, (b.supersede o b.desired).ledger = b.ledger.settleDesired err := by
  obtain hd | ⟨p, hd⟩ := Option.eq_none_or_eq_some b.desired
  · refine ⟨.canceled, ?_⟩
    rw [Ledger.settleDesired_of_none _ hd, hd]
    rfl
  · refine ⟨fail .superseded "apply" o.name
      (details o (b.selections.cell p).target.version 0 false) [], ?_⟩
    rw [Ledger.settleDesired_of_some _ hd, hd]
    rfl

theorem ledger_settleDesired (err : Err ε) :
    (b.settleDesired 0 (some err)).ledger = b.ledger.settleDesired err := by
  unfold settleDesired
  obtain hd | ⟨p, hd⟩ := Option.eq_none_or_eq_some b.desired
  · rw [Ledger.settleDesired_of_none err hd, hd]
  · rw [Ledger.settleDesired_of_some err hd, hd]
    rfl

@[simp] theorem ledger_install (value : C) :
    (b.install o value).ledger = b.ledger.install o.name value := rfl

/-- **A commit**: nothing new, a new selection, or a new selection that the
active generation already answers. -/
theorem move_commit {c : Commit C} (hs : b.stopping = false) (hv : c.Valid o b) :
    b.ledger.Move o (b.commit o c).1.ledger := by
  cases c with
  | keep => exact .tick .quiet
  | replace previous active value equalActive =>
    obtain ⟨rfl, hver, hfix, heq⟩ := hv
    obtain ⟨err, herr⟩ := b.ledger_supersede o
    have hprep : (((b.supersede o b.desired).install o value).cancelPending
        (some (.code .superseded))).ledger
          = (b.ledger.settleDesired err).install o.name value := by
      rw [ledger_cancelPending, ledger_install, herr]
    show b.ledger.Move o (shortcut _ b.selections.next active equalActive).ledger
    generalize ((b.supersede o b.desired).install o value).cancelPending _ = c at hprep
    unfold shortcut
    cases active with
    | none =>
      show b.ledger.Move o c.ledger
      rw [hprep]
      exact .replace err o.name value hs hver hfix
    | some g =>
      dsimp only
      split_ifs with hshort
      · -- the generation it compared with is still the active one
        have hact : b.active = some g := (congrArg Ledger.active hprep).symm.trans hshort.2
        show b.ledger.Move o (c.ledger.reuse b.selections.next g)
        rw [hprep]
        exact .reuse err o.name value g hs hver hfix hact (heq.symm.trans hshort.1)
      · rw [hprep]
        exact .replace err o.name value hs hver hfix

/-- **A retry** puts the failed configuration in force again. -/
theorem move_retry {sequence : ℕ} (hs : b.stopping = false) :
    b.ledger.Move o (b.after ((b.retry o sequence).map Prod.fst)).ledger := by
  unfold retry
  split
  · exact .tick .quiet
  next p hd =>
  split_ifs with _ hret hver
  iterate 2 exact .tick .quiet
  · have hset : b.ledger.settled p = true := by
      unfold retriable Target.result at hret
      simp only [Bool.and_eq_true] at hret
      exact hret.1.1
    show b.ledger.Move o (b.install o (b.selections.cell p).value).unblock.ledger
    rw [ledger_unblock, ledger_install]
    exact .renew o.name p hs hver hd hset
  · show b.ledger.Move o b.unblock.ledger
    rw [ledger_unblock]
    exact .tick .quiet

theorem ledger_stop (cause : Option (Err ε)) (hs : ¬ b.stopping = true) :
    (b.stop o cause).ledger = b.ledger.stop (fail .closed "stop" o.name
      (details o b.version 0 true) [cause]) := by
  have hprep := b.halt.ledger_settleDesired (fail .closed "stop" o.name
    (details o b.version 0 true) [cause])
  unfold stop
  rw [if_neg hs]
  exact congrArg (fun L : Ledger ε C => { L with active := none })
    ((ledger_cancelPending _ cause).trans hprep)

theorem tick_stop (cause : Option (Err ε)) : b.ledger.Tick (b.stop o cause).ledger := by
  by_cases hs : b.stopping = true
  · rw [show b.stop o cause = b from if_pos hs]
    exact .quiet
  · rw [b.ledger_stop o cause hs]
    exact .stop _ (eq_false_of_ne_true hs)

/-! ### The coordinator -/

theorem ledger_endPending (g : ℕ) (inst : Option (Instance T)) :
    (b.endPending g inst).ledger = b.ledger.drop := by
  cases inst with
  | none => rfl
  | some => exact ledger_modify { b with pending := none } g (fun _ => rfl) (fun _ => rfl)

theorem ledger_dismiss (g : ℕ) (inst : Option (Instance T)) :
    (b.dismiss g inst).ledger = b.ledger := by
  unfold dismiss
  split_ifs
  all_goals exact b.ledger_cancel g _

/-- **The end of a construction** is an adoption, a failure, or nothing to
anyone. -/
theorem tick_finishConstruct {g : ℕ} (hp : b.pending = some g)
    (inst : Option (Instance T)) (err : Option (Err ε)) (r : Reading ε) :
    b.ledger.Tick (b.finishConstruct o g inst err r).ledger := by
  have hend := b.ledger_endPending g inst
  show b.ledger.Tick (ledger (if b.adopts g inst err r.stopped then
    (b.endPending g inst).adopt g else (b.endPending g inst).reject o g inst err r))
  split_ifs with had
  · obtain ⟨-, -, hd, hs, -⟩ := b.adopts_iff.mp had
    generalize b.endPending g inst = c at hend
    show b.ledger.Tick ((c.ledger.activate g (c.ledger.target (c.ledger.source g)).version).settle
      (c.ledger.source g) (c.ledger.number g) none)
    rw [hend]
    exact .adopt g hs hp hd
  · unfold reject
    generalize b.endPending g inst = c at hend
    split_ifs with hc
    · show b.ledger.Tick ((c.dismiss g inst).ledger.settle (c.ledger.source g) 0 (some _))
      rw [ledger_dismiss, hend]
      have hd : c.ledger.desired = some (c.ledger.source g) := hc.1
      have hs : c.ledger.stopping = false := hc.2
      rw [hend] at hd hs
      exact .fail g _ hs hp hd
    · rw [ledger_dismiss, hend]
      refine .drop g hp (fun hd => ?_)
      by_contra hs
      refine hc ⟨?_, ?_⟩
      · show c.ledger.desired = some (c.ledger.source g)
        rw [hend]
        exact hd
      · show c.ledger.stopping = false
        rw [hend]
        exact eq_false_of_ne_true hs

theorem tick_loop [Inhabited T] : b.ledger.Tick (b.loop o).ledger := by
  have hl := b.looped o
  generalize b.loop o = c at hl
  cases hl with
  | exit | wait => exact .quiet
  | clean g =>
    show b.ledger.Tick (b.modify g (fun x => { x with cleaning := true })).ledger
    rw [b.ledger_modify g (f := fun x => { x with cleaning := true }) (fun _ => rfl) (fun _ => rfl)]
    exact .quiet
  | exhausted p hf hc hd => exact .exhaust p _ ((b.constructible_iff o).mp hc).1 hd
  | spawn p hf hc hd hg =>
    obtain ⟨hs, -, hp, -⟩ := (b.constructible_iff o).mp hc
    have hspawn : (b.spawn p).ledger = b.ledger.spawn p := by
      refine Ledger.ext rfl rfl rfl rfl rfl rfl rfl (funext fun x => ?_) (funext fun x => ?_)
        rfl rfl rfl
      · exact Heap.cell_alloc_update b.generations _ x Generation.number
      · exact Heap.cell_alloc_update b.generations _ x Generation.selection
    rw [hspawn]
    exact .spawn p hs hp hd hg

theorem ledger_endClean (g : ℕ) (result : ReleaseResult ε) :
    (b.endClean o g result).ledger = b.ledger := by
  have hmod := b.ledger_modify g (f := fun x => { x with cleaning := false }) (fun _ => rfl)
    (fun _ => rfl)
  unfold endClean
  generalize b.modify g _ = c at hmod
  unfold recordCleanup
  split
  · exact hmod
  · exact hmod

theorem ledger_finishClean [Inhabited T] (g : ℕ) (result : ReleaseResult ε) :
    (b.finishClean o g result).ledger = b.ledger := by
  have hend := b.ledger_endClean o g result
  unfold finishClean
  generalize b.endClean o g result = c at hend
  show ledger (if result.complete then c.remove g
    else c.modify g (fun x => { x with blocked := true })) = b.ledger
  split
  · exact (ledger_modify { c with retired := c.retired.erase g } g
      (f := Generation.hold default false) (fun _ => rfl) (fun _ => rfl)).trans hend
  · rw [c.ledger_modify g (f := fun x => { x with blocked := true }) (fun _ => rfl) (fun _ => rfl)]
    exact hend

/-! ### Leases -/

theorem ledger_acquire (ctx : Ctx ε) (stopped : Bool) :
    (b.after ((b.acquire o ctx stopped).map Prod.fst)).ledger = b.ledger := by
  unfold acquire
  split_ifs
  · rfl
  · rfl
  · split
    · rfl
    · next g _ =>
      split_ifs
      · rfl
      · exact b.ledger_modify g (fun _ => rfl) (fun _ => rfl)

theorem ledger_unborrow (l : ℕ) : (b.unborrow l).ledger = b.ledger := by
  have hgive : (b.giveBack l).ledger = b.ledger :=
    b.ledger_modify _ (fun _ => rfl) (fun _ => rfl)
  unfold unborrow
  dsimp only
  split_ifs
  · exact hgive
  · exact hgive

/-! ## Steps and runs -/

variable {o b} {b' : Binding ε C T}

/-- **A step that answers no request is a tick of the ledger.** -/
theorem tick_of_step [Inhabited T] {e : Event ε C T} (he : e.request = false)
    (h : b.core.Synced) (hs : step o b e = some b') : b.ledger.Tick b'.ledger := by
  have hquiet (hl : b'.ledger = b.ledger) : b.ledger.Tick b'.ledger := hl ▸ .quiet
  have hpending {pc : Coordinator} {g : ℕ} (hpc : b.coordinator = pc)
      (hg : pc.candidate = some g) : b.pending = some g :=
    h.candidate.trans ((congrArg Coordinator.candidate hpc).trans hg)
  cases stepped hs with
  | commit | retry => cases he
  | stop cause => exact b.tick_stop o cause
  | retryCleanup => exact hquiet b.ledger_unblock
  | acquire ctx stopped => exact hquiet (b.ledger_acquire o ctx stopped)
  | release l =>
    refine hquiet ?_
    unfold release
    split_ifs
    · rfl
    · rfl
  | unborrow l => exact hquiet (b.ledger_unborrow l)
  | loop => exact b.tick_loop o
  | wake | slot | copy | build | skip | vacate | exit => exact .quiet
  | expire g r hpc | skipped g c r hpc => exact b.tick_finishConstruct o (hpending hpc rfl) none _ r
  | built g inst err r hpc => exact b.tick_finishConstruct o (hpending hpc rfl) inst err r
  | startRelease g => exact hquiet (b.ledger_cancel g _)
  | cleaned g result => exact hquiet (b.ledger_finishClean o g result)
  | discard g => exact hquiet ((ledger_finishClean o _ g _).trans (b.ledger_cancel g _))

/-- **Every step of a binding is a move of its ledger.** -/
theorem move_of_step [Inhabited T] {e : Event ε C T} (h : b.core.Synced)
    (hs : step o b e = some b') : b.ledger.Move o b'.ledger := by
  by_cases he : e.request = true
  · cases stepped hs with
    | commit c hst hv => exact b.move_commit o hst hv
    | retry sequence hst => exact b.move_retry o hst
    | _ => cases he
  · exact .tick (tick_of_step (eq_false_of_ne_true he) h hs)

variable [Inhabited T] [Inhabited C] {tr : List (Event ε C T)}

theorem ledger_of_run (hr : (machine o).Run tr b) :
    b.ledger.Numbered ∧ b.ledger.Receipts ∧ b.ledger.Matched o := by
  refine hr.invariant
    (I := fun _ b => b.ledger.Numbered ∧ b.ledger.Receipts ∧ b.ledger.Matched o) ?_ ?_
  · have hnone (p : ℕ) : ¬ p < (init : Binding ε C T).ledger.selections.next := Nat.not_lt_zero p
    refine ⟨⟨Nat.zero_le _, rfl, fun p hp => absurd hp (hnone p), nofun,
      fun _ => rfl, nofun, Nat.zero_le _, rfl, fun g hg => absurd hg (hnone g),
      fun g hg => absurd hg (hnone g), nofun, nofun⟩,
      ⟨fun p hp => absurd hp (hnone p), nofun, nofun⟩,
      ⟨le_rfl, nofun, fun _ p hp => absurd hp (hnone p)⟩⟩
  · intro tr b e b' hr h hs
    have hm : b.ledger.Move o b'.ledger := move_of_step (synced_of_run hr).1 hs
    exact ⟨h.1.move hm, h.2.1.move h.1 hm, h.2.2.move h.1 hm⟩

theorem move_of_run {e : Event ε C T} (hr : (machine o).Run tr b)
    (hs : (machine o).step b e = some b') : b.ledger.Move o b'.ledger :=
  move_of_step (synced_of_run hr).1 hs

/-- **Targets evolve along every execution**: a settled one never
changes. -/
theorem evolves_of_exec {tr' : List (Event ε C T)} (hr : (machine o).Run tr b)
    (he : (machine o).exec b tr' = some b') : Ledger.Evolves b.selections b'.selections :=
  hr.exec_rel (R := fun b b' : Binding ε C T => Ledger.Evolves b.selections b'.selections)
    (fun _ => .refl _) (fun h1 h2 => h1.trans h2) (fun hr hs => (move_of_run hr hs).evolves) he

theorem applied_le_of_exec {tr' : List (Event ε C T)} (hr : (machine o).Run tr b)
    (he : (machine o).exec b tr' = some b') : b.applied ≤ b'.applied := by
  refine hr.exec_rel (R := fun b b' : Binding ε C T => b.applied ≤ b'.applied)
    (fun _ => le_rfl) (fun h1 h2 => h1.trans h2) (fun hr hs => ?_) he
  obtain ⟨hn, -, hmatch⟩ := ledger_of_run hr
  exact hmatch.applied_le hn (move_of_run hr hs)

end Binding

end Resource
