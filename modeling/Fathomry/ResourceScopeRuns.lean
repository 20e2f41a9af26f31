import Fathomry.ResourceOwnership
import Fathomry.ResourceReceipts
import Fathomry.ResourceScope

/-!
# What the locks of a scope give

The machine of a binding takes two things on trust: a commit it runs is what
`prepare` made of the selection in force, and no request reaches it once it
is stopping. Neither is checked by the code when the commit runs. Both hold
because of the scope's locks, and this module proves it.

A commit prepared for a binding stays what it was while coordinators, borrowers
and shutdown move (`Commit.Stable.keeps`). Only another request could change it,
and the gate keeps other requests out from the first preparation to the last
commit (`Scope.Gated`). That the scope is not stopping is looked up under the
mutex, which is then held over all commits; and a binding stops only after its
scope.

What comes out is that every run of a scope is, for each of its bindings, a
run of that binding's machine (`Scope.run_entry`). All that is proved about
bindings alone holds of the bindings of a scope.
-/

namespace Resource

/-! ## Prepared commits -/

section Commit

variable {ε V C T : Type} {o : Options ε V C} {b b' : Binding ε C T}

def Commit.captured : Commit C → Option ℕ
  | .keep _ => none
  | .replace _ active _ _ => active

/-- **A commit that stays valid** as long as no request comes between: the
generation it captured exists. -/
structure Commit.Stable (o : Options ε V C) (b : Binding ε C T) (c : Commit C) : Prop where
  valid : c.Valid o b
  captured : ∀ g, c.captured = some g → g < b.generations.next

variable {c : Commit C}

theorem Commit.Stable.keeps (h : c.Stable o b) (hk : b.ledger.Keeps b'.ledger) : c.Stable o b' := by
  refine ⟨?_, fun g hg => (h.captured g hg).trans_le hk.next⟩
  cases c with
  | keep => exact hk.desired.trans h.valid
  | replace previous active value =>
    obtain ⟨hprev, hver, hfix, heq⟩ := h.valid
    refine ⟨hprev.trans hk.desired.symm, fun hv => hver (hk.version.symm.trans hv), hfix, ?_⟩
    cases active with
    | none => exact heq
    | some g =>
      have hsrc : b'.ledger.source g = b.ledger.source g :=
        hk.source g (h.captured g rfl)
      have hval : b'.ledger.value (b'.ledger.source g) = b.ledger.value (b.ledger.source g) := by
        rw [hsrc, hk.value]
      rw [heq]
      exact congrArg (fun x => Binding.equal o x value) hval.symm

/-- **What `prepare` returns is valid**, and stays so. -/
theorem Binding.stable_of_prepare {view : V} (hn : b.ledger.Numbered)
    (h : b.prepare o view b.snapshot = .ok c) : c.Stable o b := by
  have hkeep {p : ℕ} (hd : b.desired = some p)
      (hc : (.ok (.keep p) : Except (Err ε) _) = .ok c) : c.Stable o b := by
    cases hc
    exact ⟨hd, nofun⟩
  unfold prepare snapshot at h
  split at h
  · next hd => exact hkeep hd h
  next hne =>
  split at h
  · cases h
  dsimp only at h
  split at h
  · next hd _ => exact hkeep hd h
  · split_ifs at h with hv
    cases h
    refine ⟨⟨rfl, hv, fun hf => ?_, rfl⟩, hn.active⟩
    exact Option.eq_none_iff_forall_ne_some.mpr (fun p => hne p hf)

theorem Binding.desired_commit (h : c.Valid o b) :
    (b.commit o c).1.desired = some (b.commit o c).2 := by
  cases c with
  | keep => exact h
  | replace previous active value equalActive =>
    have hnext : ((b.supersede o previous).install o value).desired = some b.selections.next := by
      cases previous with
      | none | some => rfl
    have hinst := (congrArg Ledger.desired (ledger_cancelPending
      ((b.supersede o previous).install o value) (some (.code .superseded)))).trans hnext
    show ((((b.supersede o previous).install o value).cancelPending
        (some (.code .superseded))).shortcut b.selections.next active equalActive).desired
      = some b.selections.next
    generalize ((b.supersede o previous).install o value).cancelPending _ = x at hinst
    unfold shortcut
    cases active with
    | none => exact hinst
    | some =>
      dsimp only
      split_ifs
      all_goals exact hinst

theorem Binding.sequence_of_retry {sequence : ℕ} {x : Binding ε C T × ℕ}
    (h : b.retry o sequence = .ok x) : sequence ≠ maxUint64 := by
  intro hq
  unfold retry at h
  cases hd : b.desired with
  | none => simp [hd] at h
  | some => simp [hd, hq] at h

theorem Binding.stopping_of_step [Inhabited T] {e : Event ε C T}
    (he : ∀ cause, e ≠ .stop cause) (hs : step o b e = some b') : b'.stopping = b.stopping := by
  have hplace (h : b'.place = b.place) : b'.stopping = b.stopping :=
    congrArg (fun x => x.2.1) h
  have hconstruct (g : ℕ) (inst : Option (Instance T)) (err : Option (Err ε)) (r : Reading ε) :
      (b.finishConstruct o g inst err r).stopping = b.stopping := by
    have hk : (b.core.receive g inst).stopping = b.stopping := by
      cases inst with
      | none | some => rfl
    refine (congrArg Core.stopping (b.core_finishConstruct o g inst err r)).trans ?_
    split_ifs
    · exact hk
    · exact hk
  have hclean (b : Binding ε C T) (g : ℕ) (result : ReleaseResult ε) :
      (b.finishClean o g result).stopping = b.stopping := by
    refine (congrArg Core.stopping (b.core_finishClean o g result)).trans ?_
    split_ifs
    · rfl
    · rfl
  cases stepped hs with
  | stop cause => exact absurd rfl (he cause)
  | commit c => exact hplace (place_of_core_eq (b.core_commit o c))
  | retry sequence => exact hplace (place_retry sequence)
  | retryCleanup => exact hplace (place_of_core_eq b.core_unblock)
  | acquire ctx stopped => exact hplace (place_acquire ctx stopped)
  | release l => exact hplace (place_release l)
  | unborrow l => exact hplace (place_unborrow l)
  | loop =>
    have hl := b.looped o
    generalize b.loop o = c at hl
    cases hl with
    | exit | clean | exhausted | spawn | wait => rfl
  | wake | slot | copy | build | skip | vacate | startRelease | exit => rfl
  | expire g r | skipped g _ r | built g _ _ r => exact hconstruct g _ _ r
  | cleaned g result => exact hclean b g result
  | discard g => exact hclean _ g _

theorem Binding.stopping_of_run [Inhabited T] [Inhabited C] {tr : List (Event ε C T)}
    {cause : Option (Err ε)} (hr : (machine o).Run tr b) (hm : .stop cause ∈ tr) :
    b.stopping = true := by
  refine hr.invariant (I := fun tr b => .stop cause ∈ tr → b.stopping = true) nofun ?_ hm
  intro tr b e b' _ ih hs hm
  by_cases he : ∃ cause', e = .stop cause'
  · obtain ⟨cause', rfl⟩ := he
    obtain rfl : b.stop o cause' = b' := Option.some.inj hs
    by_cases hst : b.stopping = true
    · rw [show b.stop o cause' = b from if_pos hst]
      exact hst
    · exact congrArg Ledger.stopping (b.ledger_stop o cause' hst)
  · rw [stopping_of_step (fun cause' h => he ⟨cause', h⟩) hs]
    obtain hm | hm := List.mem_append.mp hm
    · exact ih hm
    · exact absurd ⟨cause, (List.mem_singleton.mp hm).symm⟩ he

end Commit

variable {ε V : Type} {C T : ℕ → Type}

namespace Scope

variable {z : ScopeOptions} {o : ∀ i, Options ε V (C i)} {s s' : Scope ε V C T}

/-! ## The gate -/

@[simp] theorem phase_goto_self (c : ℕ) (p : Phase ε C) : (s.goto c p).phase c = p := by
  simp [phase, goto]

variable {c : ℕ}

theorem phase_goto_of_ne {d : ℕ} (p : Phase ε C) (hd : d ≠ c) :
    (s.goto c p).phase d = s.phase d := by
  simp [phase, goto, Heap.cell_modify_of_ne _ _ hd]

@[simp] theorem request_goto (c d : ℕ) (p : Phase ε C) :
    ((s.goto c p).calls.cell d).request = (s.calls.cell d).request :=
  Heap.cell_modify_proj (f := fun x => { x with phase := p }) s.calls c d
    (fun _ => rfl)

@[simp] theorem phase_cancel (c d : ℕ) (cause : Option (Err ε)) :
    (s.cancel c cause).phase d = s.phase d :=
  Heap.cell_modify_proj (f := fun x => { x with ctx := x.ctx.map (·.cancel cause) })
    s.calls c d (fun _ => rfl)

@[simp] theorem request_cancel (c d : ℕ) (cause : Option (Err ε)) :
    ((s.cancel c cause).calls.cell d).request = (s.calls.cell d).request :=
  Heap.cell_modify_proj (f := fun x => { x with ctx := x.ctx.map (·.cancel cause) })
    s.calls c d (fun _ => rfl)

/-- What a scope lets a binding do on its own is no request. -/
theorem request_of_allows {C T : Type} {e : Event ε C T} {stopped : Bool} {base : Ctx ε}
    (h : s.allows z e = true) : (e.observe stopped base).request = false := by
  cases e with
  | commit | retry => cases h
  | _ => rfl

theorem not_stop_of_allows {C T : Type} {e : Event ε C T} {stopped : Bool} {base : Ctx ε}
    (h : s.allows z e = true) (cause : Option (Err ε)) : e.observe stopped base ≠ .stop cause := by
  cases e with
  | stop => cases h
  | _ => exact nofun

/-- **The gate is held by the call it names**, and by no other; calls that
have not been made are at their beginning. -/
structure Gated (s : Scope ε V C T) : Prop where
  fresh : ∀ c, s.calls.next ≤ c → s.phase c = .entering
  holds : ∀ c, (s.phase c).holds = true → s.gate = some c
  held : ∀ c, s.gate = some c → (s.phase c).holds = true

namespace Gated

theorem congr (h : s.Gated) (hc : s'.calls = s.calls) (hg : s'.gate = s.gate) : s'.Gated := by
  have hp (c : ℕ) : s'.phase c = s.phase c := by rw [phase, phase, hc]
  exact ⟨fun c hn => (hp c).trans (h.fresh c (hc ▸ hn)),
    fun c hh => hg.trans (h.holds c (hp c ▸ hh)),
    fun c hh => hp c ▸ h.held c (hg ▸ hh)⟩

variable {c : ℕ}

theorem lt_of_ne (h : s.Gated) (hp : s.phase c ≠ .entering) : c < s.calls.next :=
  not_le.mp fun hn => hp (h.fresh c hn)

theorem lt_of_gate (h : s.Gated) (hg : s.gate = some c) : c < s.calls.next :=
  h.lt_of_ne fun hp => nomatch hp ▸ h.held c hg

variable {p : Phase ε C}

theorem of_goto {g : Option ℕ} (h : s.Gated) (hc : c < s.calls.next)
    (hself : p.holds = true ↔ g = some c)
    (hother : ∀ d ≠ c, (s.phase d).holds = true ↔ g = some d) : ((s.setGate g).goto c p).Gated := by
  have hphase (d : ℕ) : (((s.setGate g).goto c p).phase d).holds = true ↔ g = some d := by
    by_cases hdc : d = c
    · rw [hdc, phase_goto_self]
      exact hself
    · rw [phase_goto_of_ne p hdc]
      exact hother d hdc
  refine ⟨fun d hd => ?_, fun d => (hphase d).mp, fun d => (hphase d).mpr⟩
  rw [phase_goto_of_ne p (ne_of_gt (hc.trans_le hd))]
  exact h.fresh d hd

theorem goto (h : s.Gated) (hc : c < s.calls.next) (hp : p.holds = (s.phase c).holds) :
    (s.goto c p).Gated := by
  refine h.of_goto hc ?_ (fun d _ => ⟨h.holds d, h.held d⟩)
  rw [hp]
  exact ⟨h.holds c, h.held c⟩

theorem grab (h : s.Gated) (hc : c < s.calls.next) (hg : s.gate = none) (hp : p.holds = true) :
    ((s.setGate (some c)).goto c p).Gated :=
  h.of_goto hc (iff_of_true hp rfl) (fun d hd => iff_of_false
    (fun hh => nomatch hg.symm.trans (h.holds d hh)) (fun heq => hd (Option.some.inj heq).symm))

theorem leave (h : s.Gated) (hh : (s.phase c).holds = true) (hp : p.holds = false) :
    ((s.setGate none).goto c p).Gated := by
  have hc := h.holds c hh
  exact h.of_goto (h.lt_of_gate hc) (iff_of_false (Bool.eq_false_iff.mp hp) nofun)
    (fun d hd => iff_of_false (fun hd' => hd (Option.some.inj ((h.holds d hd').symm.trans hc)))
      nofun)

theorem invoke (h : s.Gated) (request : Request V) (ctx : Option (Ctx ε)) :
    (s.invoke request ctx).Gated := by
  have hp (c : ℕ) : (s.invoke request ctx).phase c = s.phase c := by
    by_cases hc : c = s.calls.next
    · rw [h.fresh c hc.ge, hc]
      simp [Scope.phase, Scope.invoke]
    · simp [Scope.phase, Scope.invoke, Heap.cell_alloc_of_ne _ _ hc]
  exact ⟨fun c hc => (hp c).trans (h.fresh c (Nat.le_of_succ_le hc)),
    fun c hh => h.holds c (hp c ▸ hh), fun c hh => hp c ▸ h.held c hh⟩

theorem cancel (h : s.Gated) (c : ℕ) (cause : Option (Err ε)) : (s.cancel c cause).Gated :=
  ⟨fun d hd => (phase_cancel c d cause).trans (h.fresh d hd),
    fun d hd => h.holds d (phase_cancel c d cause ▸ hd),
    fun d hd => (phase_cancel c d cause).symm ▸ h.held d hd⟩

variable [∀ i, Inhabited (T i)]

theorem step {l : Label ε V C T} (h : s.Gated) (hs : s.step z o l = some s') : s'.Gated := by
  have hmove {c : ℕ} {p q : Phase ε C} {t : Scope ε V C T} (ht : t.calls = s.calls)
      (hg : t.gate = s.gate) (hp : s.phase c = p) (hne : p ≠ .entering)
      (hq : q.holds = p.holds) : (t.goto c q).Gated := by
    have ht' := h.congr ht hg
    have hpt : t.phase c = p := by rw [← hp, phase, phase, ht]
    exact ht'.goto (ht'.lt_of_ne (hpt ▸ hne)) (hpt ▸ hq)
  cases stepped hs with
  | bindRefused | watchRefused => exact h
  | bind | watch | cancelBase | shut | stop | stopped | join | finish | entry =>
    exact h.congr rfl rfl
  | call request ctx => exact h.invoke request ctx
  | cancel c cause => exact h.cancel c cause
  | enter c p hc hp hw =>
    refine h.goto hc ?_
    rw [hp]
    obtain rfl | ⟨err, rfl⟩ := hw
    · rfl
    · rfl
  | refuse c err hp | expire c err hp
  | pass c hp | start c view hp | prepare c k n view commits commit hp | lock c k n commits hp
    | commit c k n sequence commits targets commit hp | committed c k n sequence commits targets hp
    | lockRetry c i hp | retryFailed c i err hp | retry c i p b hp =>
    exact hmove rfl rfl hp nofun rfl
  | grab c hp hg => exact h.grab (h.lt_of_ne (hp ▸ nofun)) hg rfl
  | turn c err hp | leave c result hp => exact h.leave (hp ▸ rfl) rfl
  | fail c err hp =>
    exact h.goto (h.lt_of_gate (h.holds c hp)) hp.symm

end Gated

@[simp] theorem entries_setEntry_self (k : ℕ) (b : Binding ε (C k) (T k)) :
    (s.setEntry k b).entries k = b := by
  simp [setEntry]

variable {i k : ℕ} {b : Binding ε (C k) (T k)}

theorem entries_setEntry_of_ne (h : i ≠ k) : (s.setEntry k b).entries i = s.entries i := by
  simp [setEntry, h]

theorem forall_setEntry {P : ∀ i, Binding ε (C i) (T i) → Prop} (hself : P k b)
    (hother : ∀ i ≠ k, P i (s.entries i)) (i : ℕ) : P i ((s.setEntry k b).entries i) := by
  by_cases hi : i = k
  · subst hi
    rwa [entries_setEntry_self]
  · rw [entries_setEntry_of_ne hi]
    exact hother i hi

/-! ## What the holder of the gate may rely on -/

/-- The `i`-th commit of an `Apply` is there, and is valid for its binding. -/
def Prepared (o : ∀ i, Options ε V (C i)) (s : Scope ε V C T)
    (commits : ∀ i, Option (Commit (C i))) (i : ℕ) : Prop :=
  ∃ commit, commits i = some commit ∧ commit.Stable (o i) (s.entries i)

/-- **The receipt of an `Apply` over its first `k` bindings**: one target for
each, in order, and it is the one the binding has in force. -/
structure Issued (s : Scope ε V C T) (k : ℕ) (targets : List (ℕ × ℕ)) : Prop where
  length : targets.length = k
  target : ∀ i < k, ∃ p, targets[i]? = some (i, p) ∧ (s.entries i).desired = some p

variable {targets : List (ℕ × ℕ)}

theorem Issued.concat {p : ℕ} (h : s.Issued k targets) (hb : b.desired = some p) :
    (s.setEntry k b).Issued (k + 1) (targets ++ [(k, p)]) where
  length := by rw [List.length_append, h.length, List.length_singleton]
  target := by
    intro i hi
    obtain hlt | rfl := Nat.lt_succ_iff_lt_or_eq.mp hi
    · obtain ⟨q, hq, hd⟩ := h.target i hlt
      refine ⟨q, ?_, by rwa [entries_setEntry_of_ne hlt.ne]⟩
      rwa [List.getElem?_append_left (hlt.trans_eq h.length.symm)]
    · refine ⟨p, ?_, by rwa [entries_setEntry_self]⟩
      rw [← h.length]
      exact List.getElem?_concat_length

/-- **What holds of a scope while a call is in a phase.** -/
def Ready (o : ∀ i, Options ε V (C i)) (s : Scope ε V C T) (request : Request V) :
    Phase ε C → Prop
  | .preparing k n commits =>
    s.sealed = true ∧ n = s.count ∧ k ≤ n ∧ ∀ i < k, s.Prepared o commits i
  | .committing k n commits sequence targets =>
    s.stopping = false ∧ s.sealed = true ∧ n = s.count ∧ k ≤ n ∧ sequence = s.sequence
      ∧ (∀ i, k ≤ i → i < n → s.Prepared o commits i) ∧ s.Issued k targets
  | .locked => s.stopping = false
  | .leaving (.ok r) =>
    r.sequence = s.sequence
      ∧ ∀ view, request = .apply view → s.sealed = true ∧ s.Issued s.count r.targets
  | _ => True

/-- **What others may do to a scope while a call holds the gate.** -/
structure Frame (s s' : Scope ε V C T) : Prop where
  sequence : s'.sequence = s.sequence
  sealed : s.sealed = true → s'.sealed = true ∧ s'.count = s.count
  keeps : ∀ i, (s.entries i).ledger.Keeps (s'.entries i).ledger

/-- Calls, gate and shutdown may change freely. -/
theorem Frame.of_eq (hq : s'.sequence = s.sequence) (hs : s'.sealed = s.sealed)
    (hc : s'.count = s.count) (he : s'.entries = s.entries) : Frame s s' :=
  ⟨hq, fun h => ⟨hs.trans h, hc⟩, fun _ => he ▸ .refl _⟩

theorem Frame.setEntry (h : (s.entries k).ledger.Keeps b.ledger) : Frame s (s.setEntry k b) :=
  ⟨rfl, fun h => ⟨h, rfl⟩, forall_setEntry (P := fun i x => (s.entries i).ledger.Keeps x.ledger) h
    (fun _ _ => .refl _)⟩

theorem Frame.trans {u : Scope ε V C T} (h1 : Frame s s') (h2 : Frame s' u) : Frame s u where
  sequence := h2.sequence.trans h1.sequence
  sealed := fun h =>
    let ⟨hs, hc⟩ := h1.sealed h
    ⟨(h2.sealed hs).1, (h2.sealed hs).2.trans hc⟩
  keeps := fun i => (h1.keeps i).trans (h2.keeps i)

theorem Prepared.frame (hf : Frame s s') {commits : ∀ i, Option (Commit (C i))}
    (h : s.Prepared o commits i) : s'.Prepared o commits i :=
  let ⟨commit, hcm, hst⟩ := h
  ⟨commit, hcm, hst.keeps (hf.keeps i)⟩

theorem Issued.frame (hf : Frame s s') (h : s.Issued k targets) : s'.Issued k targets :=
  ⟨h.length, fun i hi => let ⟨p, hp, hd⟩ := h.target i hi
    ⟨p, hp, (hf.keeps i).desired.trans hd⟩⟩

/-- **What the holder relies on survives what others do.** -/
theorem Ready.frame {request : Request V} {p : Phase ε C} (h : s.Ready o request p)
    (hf : Frame s s') (hl : p.locks = true → s'.stopping = s.stopping) : s'.Ready o request p := by
  cases p with
  | preparing =>
    obtain ⟨hs, hn, hk, hp⟩ := h
    obtain ⟨hs', hc⟩ := hf.sealed hs
    exact ⟨hs', hn.trans hc.symm, hk, fun i hi => (hp i hi).frame hf⟩
  | committing k n commits sequence =>
    obtain ⟨hst, hs, hn, hk, hq, hp, hi⟩ := h
    obtain ⟨hs', hc⟩ := hf.sealed hs
    exact ⟨(hl rfl).trans hst, hs', hn.trans hc.symm, hk, hq.trans hf.sequence.symm,
      fun i h1 h2 => (hp i h1 h2).frame hf, hi.frame hf⟩
  | locked => exact (hl rfl).trans h
  | leaving result =>
    cases result with
    | error => trivial
    | ok =>
      refine ⟨h.1.trans hf.sequence.symm, fun view hv => ?_⟩
      obtain ⟨hs, hi⟩ := h.2 view hv
      obtain ⟨hs', hc⟩ := hf.sealed hs
      exact ⟨hs', hc ▸ hi.frame hf⟩
  | entering | waiting | entered | admitted | returned => trivial

/-! ## The events of a binding -/

/-- **What a step of the scope is to its `i`-th binding.** -/
def events (i : ℕ) (s : Scope ε V C T) : Label ε V C T → List (Event ε (C i) (T i))
  | .advance c =>
    match s.phase c, (s.calls.cell c).request with
    | .committing k n commits _ _, _ =>
      if k = i ∧ k < n then (commits i).toList.map .commit else []
    | .locked, .retry k => if k = i then [.retry s.sequence] else []
    | _, _ => []
  | .stop =>
    match s.shutdown with
    | .stopping k n cause => if k = i ∧ k < n then [.stop cause] else []
    | _ => []
  | .entry j e => if h : j = i then [(h ▸ e : Event ε (C i) (T i)).observe s.stopped s.base] else []
  | _ => []

theorem events_advance_of_not_locks (hp : (s.phase c).locks = false) (i : ℕ) :
    events i s (.advance c) = [] := by
  cases h : s.phase c with
  | committing | locked => exact nomatch hp.symm.trans (congrArg Phase.locks h)
  | _ => simp [events, h]

theorem events_commit {n sequence : ℕ} {commits : ∀ i, Option (Commit (C i))}
    (hp : s.phase c = .committing k n commits sequence targets) (i : ℕ) :
    events i s (.advance c) = if k = i ∧ k < n then (commits i).toList.map .commit else [] := by
  simp [events, hp]

theorem events_retry (hp : s.phase c = .locked) (hr : (s.calls.cell c).request = .retry k) (i : ℕ) :
    events i s (.advance c) = if k = i then [.retry s.sequence] else [] := by
  simp [events, hp, hr]

theorem events_stop {n : ℕ} {cause : Option (Err ε)} (hd : s.shutdown = .stopping k n cause)
    (i : ℕ) :
    events i s .stop = if k = i ∧ k < n then [.stop cause] else [] := by
  simp [events, hd]

theorem events_entry_self (i : ℕ) (e : Event ε (C i) (T i)) :
    events i s (.entry i e) = [e.observe s.stopped s.base] :=
  dif_pos rfl

theorem events_entry_of_ne {j : ℕ} (e : Event ε (C j) (T j)) (h : j ≠ i) :
    events i s (.entry j e) = [] :=
  dif_neg h

/-- A step of the scope is at most one step of a binding. -/
theorem events_eq (i : ℕ) (l : Label ε V C T) : events i s l = [] ∨ ∃ e, events i s l = [e] := by
  fun_cases events
  · next k n commits _ _ _ _ =>
    cases commits i with
    | none => exact .inl rfl
    | some => exact .inr ⟨_, rfl⟩
  all_goals first | exact .inl rfl | exact .inr ⟨_, rfl⟩

/-! ## Soundness -/

section

variable [∀ i, Inhabited (C i)] [∀ i, Inhabited (T i)]

/-- **What holds of every scope**: the gate is kept, its holder may rely on
what it has done, a binding stops only after its scope, and each binding is
in a state its own machine reaches. -/
structure Sound (o : ∀ i, Options ε V (C i)) (s : Scope ε V C T) : Prop where
  gated : s.Gated
  sequence : s.sequence ≤ maxUint64
  quiet : s.stopping = false → s.shutdown = .running
  stopping : ∀ i, (s.entries i).stopping = true → s.stopping = true
  ready : ∀ c, s.gate = some c → s.Ready o (s.calls.cell c).request (s.phase c)
  reach : ∀ i, ∃ tr, (Binding.machine (o i)).Run tr (s.entries i)

namespace Sound

theorem ready_of_phase (h : s.Sound o) {c : ℕ} {p : Phase ε C} (hp : s.phase c = p)
    (hh : p.holds = true) : s.Ready o (s.calls.cell c).request p := by
  subst hp
  exact h.ready c (h.gated.holds c hh)

theorem running (h : s.Sound o) (hs : s.stopping = false) (i : ℕ) :
    (s.entries i).stopping = false :=
  eq_false_of_ne_true fun hb => nomatch hs.symm.trans (h.stopping i hb)

variable {l : Label ε V C T}

/-- **A step of the scope is, for each binding, the steps of its machine.** -/
theorem exec_events (h : s.Sound o) (hs : s.step z o l = some s') (i : ℕ) :
    (Binding.machine (o i)).exec (s.entries i) (events i s l) = some (s'.entries i) := by
  have hquiet (hv : events i s l = []) (he : s'.entries i = s.entries i) :
      (Binding.machine (o i)).exec (s.entries i) (events i s l) = some (s'.entries i) := by
    rw [hv, he, Machine.exec_nil]
  have hmove (k : ℕ) (b : Binding ε (C k) (T k))
      (hself : (Binding.machine (o k)).exec (s.entries k) (events k s l) = some b)
      (hother : ∀ i ≠ k, events i s l = []) :
      ∀ i, (Binding.machine (o i)).exec (s.entries i) (events i s l)
        = some ((s.setEntry k b).entries i) :=
    forall_setEntry (P := fun i x => (Binding.machine (o i)).exec (s.entries i) (events i s l)
      = some x) hself (fun i hi => by rw [hother i hi, Machine.exec_nil])
  cases stepped hs with
  | bindRefused | bind | watchRefused | watch | call | cancel | cancelBase | refuse | expire | grab
    | shut | join | finish =>
    exact hquiet rfl rfl
  | enter c p hc hp | turn c err hp | pass c hp | start c view hp | lock c k n commits hp
    | lockRetry c k hp | leave c result hp
  | prepare c k n view commits commit hp =>
    exact hquiet (events_advance_of_not_locks (hp ▸ rfl) i) rfl
  | fail c err hp hl => exact hquiet (events_advance_of_not_locks hl i) rfl
  | committed c k n sequence commits targets hp hk =>
    exact hquiet ((events_commit hp i).trans (if_neg fun hi => hk hi.2)) rfl
  | stopped k n cause hd hk =>
    exact hquiet ((events_stop hd i).trans (if_neg fun hi => hk hi.2)) rfl
  | commit c k n sequence commits targets commit hp hk hcm =>
    refine hmove k _ ?_ (fun i hi => (events_commit hp i).trans (if_neg fun h => hi h.1.symm)) i
    obtain ⟨hst, -, -, -, -, hprep, -⟩ := h.ready_of_phase hp rfl
    obtain ⟨commit', hcm', hstable⟩ := hprep k le_rfl hk
    cases hcm.symm.trans hcm'
    rw [events_commit hp, if_pos ⟨rfl, hk⟩, hcm]
    exact (Machine.exec_singleton _ _).trans (if_pos ⟨h.running hst k, hstable.valid⟩)
  | retryFailed c k err hp hr hb =>
    by_cases hi : k = i
    · subst hi
      rw [events_retry hp hr, if_pos rfl]
      refine (Machine.exec_singleton _ _).trans ((if_pos (h.running ?_ k)).trans ?_)
      · exact h.ready_of_phase hp rfl
      · rw [hb]
        rfl
    · exact hquiet ((events_retry hp hr i).trans (if_neg hi)) rfl
  | retry c k p b hp hr hb =>
    refine hmove k b ?_ (fun i hi => (events_retry hp hr i).trans (if_neg hi.symm)) i
    rw [events_retry hp hr, if_pos rfl]
    refine (Machine.exec_singleton _ _).trans ((if_pos (h.running ?_ k)).trans ?_)
    · exact h.ready_of_phase hp rfl
    · rw [hb]
      rfl
  | stop k n cause hd hk =>
    refine hmove k _ ?_ (fun i hi => (events_stop hd i).trans (if_neg fun h => hi h.1.symm)) i
    rw [events_stop hd, if_pos ⟨rfl, hk⟩]
    exact Machine.exec_singleton _ _
  | entry k e b hk ha hb =>
    refine hmove k b ?_ (fun i hi => events_entry_of_ne e hi.symm) i
    rw [events_entry_self]
    exact (Machine.exec_singleton _ _).trans hb

/-- **Every step keeps what the holder of the gate relies on.** -/
theorem ready_step (h : s.Sound o) (hs : s.step z o l = some s') :
    ∀ c, s'.gate = some c → s'.Ready o (s'.calls.cell c).request (s'.phase c) := by
  -- someone else moves
  have hother (hf : Frame s s') (hg : s'.gate = s.gate)
      (hst : s.locked = true → s'.stopping = s.stopping)
      (hp : ∀ c, s.gate = some c → s'.phase c = s.phase c
        ∧ (s'.calls.cell c).request = (s.calls.cell c).request) :
      ∀ c, s'.gate = some c → s'.Ready o (s'.calls.cell c).request (s'.phase c) := by
    intro c hc
    obtain ⟨hpc, hrc⟩ := hp c (hg.symm.trans hc)
    rw [hpc, hrc]
    refine (h.ready c (hg.symm.trans hc)).frame hf (fun hl => hst ?_)
    simpa [locked, hg.symm.trans hc] using hl
  have houtside {c : ℕ} {p q : Phase ε C} (hs' : s' = s.goto c q) (hp : s.phase c = p)
      (hh : p.holds = false) :
      ∀ c, s'.gate = some c → s'.Ready o (s'.calls.cell c).request (s'.phase c) := by
    subst hs'
    refine hother (.of_eq rfl rfl rfl rfl) rfl (fun _ => rfl) (fun d hd => ⟨?_, request_goto c d q⟩)
    refine phase_goto_of_ne q fun hdc => ?_
    have hholds := h.gated.held d hd
    rw [hdc, hp, hh] at hholds
    cases hholds
  -- the holder moves
  have hholder {c : ℕ} {p q : Phase ε C} {t : Scope ε V C T} (hg : t.gate = s.gate)
      (hc : t.calls = s.calls) (hs' : s' = t.goto c q) (hp : s.phase c = p) (hh : p.holds = true)
      (hready : t.Ready o (s.calls.cell c).request q) :
      ∀ c, s'.gate = some c → s'.Ready o (s'.calls.cell c).request (s'.phase c) := by
    subst hs'
    intro d hd
    obtain rfl : c = d :=
      Option.some.inj ((h.gated.holds c (hp ▸ hh)).symm.trans (hg.symm.trans hd))
    rw [phase_goto_self, request_goto, hc]
    exact hready.frame (.of_eq rfl rfl rfl rfl) (fun _ => rfl)
  cases stepped hs with
  | bindRefused | watchRefused => exact h.ready
  | bind hse =>
    exact hother ⟨rfl, fun hse' => (nomatch hse.symm.trans hse'), fun _ => .refl _⟩ rfl
      (fun _ => rfl) (fun _ _ => ⟨rfl, rfl⟩)
  | watch =>
    exact hother ⟨rfl, fun _ => ⟨rfl, rfl⟩, fun _ => .refl _⟩ rfl (fun _ => rfl)
      (fun _ _ => ⟨rfl, rfl⟩)
  | cancelBase | stopped | join | finish =>
    exact hother (.of_eq rfl rfl rfl rfl) rfl (fun _ => rfl) (fun _ _ => ⟨rfl, rfl⟩)
  | call request ctx =>
    refine hother (.of_eq rfl rfl rfl rfl) rfl (fun _ => rfl) (fun c hc => ?_)
    have hcell : (s.invoke request ctx).calls.cell c = s.calls.cell c :=
      Heap.cell_alloc_of_lt s.calls _ (h.gated.lt_of_gate hc)
    exact ⟨congrArg Call.phase hcell, congrArg Call.request hcell⟩
  | cancel c cause =>
    exact hother (.of_eq rfl rfl rfl rfl) rfl (fun _ => rfl)
      (fun d _ => ⟨phase_cancel c d cause, request_cancel c d cause⟩)
  | shut parent hl =>
    exact hother (.of_eq rfl rfl rfl rfl) rfl (fun hl' => nomatch hl.symm.trans hl')
      (fun _ _ => ⟨rfl, rfl⟩)
  | enter c p hc hp | refuse c err hp | expire c err hp => exact houtside rfl hp rfl
  | grab =>
    intro d hd
    cases hd
    rw [phase_goto_self]
    trivial
  | turn | leave => exact nofun
  | pass c hp | retryFailed c i err hp => exact hholder rfl rfl rfl hp rfl trivial
  | fail c err hp => exact hholder rfl rfl rfl rfl hp trivial
  | start c view hp =>
    exact hholder (t := s.setSealed) rfl rfl rfl hp rfl ⟨rfl, rfl, Nat.zero_le _, nofun⟩
  | prepare c k n view commits commit hp hk hcm =>
    obtain ⟨hse, hn, -, hprep⟩ := h.ready_of_phase hp rfl
    refine hholder rfl rfl rfl hp rfl ⟨hse, hn, hk, fun i hi => ?_⟩
    by_cases hik : i = k
    · subst hik
      obtain ⟨tr, hr⟩ := h.reach i
      exact ⟨commit, by simp, Binding.stable_of_prepare (Binding.ledger_of_run hr).1 hcm⟩
    · obtain ⟨cm, hcm', hst⟩ := hprep i (lt_of_le_of_ne (Nat.lt_succ_iff.mp hi) hik)
      exact ⟨cm, by simp [hik, hcm'], hst⟩
  | lock c k n commits hp hk hst =>
    obtain ⟨hse, hn, -, hprep⟩ := h.ready_of_phase hp rfl
    refine hholder (t := s.bump) rfl rfl rfl hp rfl ⟨?_, hse, hn, Nat.zero_le _, rfl,
      fun i _ hi => hprep i (hi.trans_le (not_lt.mp hk)), ⟨rfl, nofun⟩⟩
    exact (Bool.or_eq_false_iff.mp hst).1
  | commit c k n sequence commits targets commit hp hk hcm =>
    obtain ⟨hst, hse, hn, -, hq, hprep, hiss⟩ := h.ready_of_phase hp rfl
    obtain ⟨commit', hcm', hstable⟩ := hprep k le_rfl hk
    cases hcm.symm.trans hcm'
    refine hholder (t := s.setEntry k _) rfl rfl rfl hp rfl ⟨hst, hse, hn, hk, hq,
      fun i hki hi => ?_, hiss.concat (Binding.desired_commit hstable.valid)⟩
    obtain ⟨cm, hcmi, hsti⟩ := hprep i (Nat.le_of_succ_le hki) hi
    exact ⟨cm, hcmi, by rwa [entries_setEntry_of_ne (ne_of_gt hki)]⟩
  | committed c k n sequence commits targets hp hk =>
    obtain ⟨hst, hse, hn, hkn, hq, hprep, hiss⟩ := h.ready_of_phase hp rfl
    obtain rfl : k = n := le_antisymm hkn (not_lt.mp hk)
    exact hholder rfl rfl rfl hp rfl ⟨hq, fun _ _ => ⟨hse, hn ▸ hiss⟩⟩
  | lockRetry c i hp hr hst =>
    exact hholder rfl rfl rfl hp rfl (Bool.or_eq_false_iff.mp hst).1
  | retry c i p b hp hr =>
    exact hholder (t := (s.setEntry i b).bump) rfl rfl rfl hp rfl
      ⟨rfl, fun view hv => nomatch hr.symm.trans hv⟩
  | stop k n cause =>
    refine hother ((Frame.setEntry ((s.entries k).tick_stop (o k) cause).keeps).trans
      (.of_eq rfl rfl rfl rfl)) rfl (fun _ => rfl) (fun _ _ => ⟨rfl, rfl⟩)
  | entry k e b hk ha hb =>
    obtain ⟨tr, hr⟩ := h.reach k
    refine hother ((Frame.setEntry (Binding.tick_of_step (request_of_allows ha)
      (Binding.synced_of_run hr).1 hb).keeps).trans (.of_eq rfl rfl rfl rfl)) rfl (fun _ => rfl)
      (fun _ _ => ⟨rfl, rfl⟩)

/-- **Every step keeps the bounds**: the sequence does not wrap, and what
stops has a reason. -/
theorem bounds_step (h : s.Sound o) (hs : s.step z o l = some s') :
    s'.sequence ≤ maxUint64 ∧ (s'.stopping = false → s'.shutdown = .running)
      ∧ ∀ i, (s'.entries i).stopping = true → s'.stopping = true := by
  have hincr (hq : s.sequence ≠ maxUint64) : increment s.sequence ≤ maxUint64 := by
    have hlt := lt_of_le_of_ne h.sequence hq
    rwa [increment_of_lt hlt]
  have hentry {k : ℕ} {b : Binding ε (C k) (T k)} (hb : b.stopping = (s.entries k).stopping) :
      ∀ i, ((s.setEntry k b).entries i).stopping = true → s.stopping = true :=
    forall_setEntry (P := fun _ x => x.stopping = true → s.stopping = true)
      (fun hk => h.stopping k (hb ▸ hk)) (fun i _ => h.stopping i)
  have hrunning {d : Shutdown ε} (hd : s.shutdown = d) (hne : d ≠ .running) :
      s.stopping = true := by
    by_contra hst
    exact hne (hd.symm.trans (h.quiet (eq_false_of_ne_true hst)))
  cases stepped hs with
  | bindRefused | bind | watchRefused | watch | call | cancel | cancelBase | enter | refuse
  | expire | grab | turn | pass | fail | start | prepare | committed | lockRetry | retryFailed
  | leave => exact ⟨h.sequence, h.quiet, h.stopping⟩
  | lock c k n commits hp hk hst hq => exact ⟨hincr hq, h.quiet, h.stopping⟩
  | commit c k n sequence commits targets commit =>
    exact ⟨h.sequence, h.quiet, hentry (congrArg Core.stopping
      ((s.entries k).core_commit (o k) commit))⟩
  | retry c i p b hp hr hb =>
    exact ⟨hincr (Binding.sequence_of_retry hb), h.quiet,
      hentry (congrArg Core.stopping ((s.entries i).core_retry (o i) hb))⟩
  | shut => exact ⟨h.sequence, nofun, fun _ _ => rfl⟩
  | stop k n cause hd =>
    have hst := hrunning hd nofun
    exact ⟨h.sequence, fun hst' => (nomatch hst.symm.trans hst'), fun _ _ => hst⟩
  | stopped k n cause hd | join n hd | finish n hd =>
    have hst := hrunning hd nofun
    exact ⟨h.sequence, fun hst' => (nomatch hst.symm.trans hst'), h.stopping⟩
  | entry k e b hk ha hb =>
    exact ⟨h.sequence, h.quiet, hentry (Binding.stopping_of_step (not_stop_of_allows ha) hb)⟩

theorem step (h : s.Sound o) (hs : s.step z o l = some s') : s'.Sound o := by
  obtain ⟨hseq, hquiet, hstop⟩ := h.bounds_step hs
  refine ⟨h.gated.step hs, hseq, hquiet, hstop, h.ready_step hs, fun i => ?_⟩
  obtain ⟨tr, hr⟩ := h.reach i
  exact ⟨tr ++ events i s l, hr.append (h.exec_events hs i)⟩

end Sound

/-! ## Runs -/

variable [Inhabited V] {tr : List (Label ε V C T)}

theorem sound_init : (init : Scope ε V C T).Sound o where
  gated := ⟨fun _ _ => rfl, nofun, nofun⟩
  sequence := Nat.zero_le _
  quiet := fun _ => rfl
  stopping := nofun
  ready := nofun
  reach := fun _ => ⟨[], .nil⟩

theorem sound_of_run (hr : (machine z o).Run tr s) : s.Sound o :=
  hr.invariant (I := fun _ s => s.Sound o) sound_init (fun _ h => h.step)

def entryTrace (z : ScopeOptions) (o : ∀ i, Options ε V (C i)) (i : ℕ)
    (tr : List (Label ε V C T)) : List (Event ε (C i) (T i)) :=
  (machine z o).outputs (events i) init tr

/-- **A run of a scope is a run of each of its bindings.** -/
theorem run_entry (hr : (machine z o).Run tr s) (i : ℕ) :
    (Binding.machine (o i)).Run (entryTrace z o i tr) (s.entries i) :=
  hr.map (f := fun s : Scope ε V C T => s.entries i) rfl
    (fun hr hs => (sound_of_run hr).exec_events hs i)

/-- **A step of the scope moves the ledger of each binding.** -/
theorem move_entry {l : Label ε V C T} (hr : (machine z o).Run tr s)
    (hs : s.step z o l = some s') (i : ℕ) :
    (s.entries i).ledger.Move (o i) (s'.entries i).ledger := by
  have hexec := (sound_of_run hr).exec_events hs i
  obtain hv | ⟨e, hv⟩ := events_eq i l
  · rw [hv] at hexec
    rw [← Option.some.inj hexec]
    exact .tick .quiet
  · rw [hv, Machine.exec_singleton] at hexec
    exact Binding.move_of_run (run_entry hr i) hexec

theorem exec_entry {tr' : List (Label ε V C T)} (hr : (machine z o).Run tr s)
    (he : (machine z o).exec s tr' = some s') (i : ℕ) :
    (Binding.machine (o i)).exec (s.entries i) ((machine z o).outputs (events i) s tr')
      = some (s'.entries i) :=
  hr.map_exec
    (fun hr hs => (sound_of_run hr).exec_events hs i) he

end

end Scope

end Resource
