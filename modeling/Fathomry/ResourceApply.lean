import Fathomry.ResourceGuarantees

/-!
# All or nothing

`Apply` prepares each binding under that binding's lock, decides under the
scope's mutex, and then commits binding by binding. It can fail at many
points before the decision and at none after it. A call is *accepted* once
its decision is made; this module shows that up to then its own steps change
no binding and not the sequence, that being accepted is for good, and that
the steps after it end in a receipt.

`Apply` runs beside everything else, so that it changed nothing cannot be
read off the states before and after. It is said of the steps the call
takes itself (`Label.caller`): each leaves all bindings as they are
(`Silent`). What a successful call returns is compared with the state in
which the gate is still held.
-/

namespace Resource

variable {ε V : Type} {C T : ℕ → Type}

def Label.caller : Label ε V C T → Option ℕ
  | .grab c | .refuse c | .expire c | .advance c => some c
  | _ => none

def Phase.charge (p : Phase ε C) : ℕ := if p.accepted then 1 else 0

namespace Scope

variable {z : ScopeOptions} {o : ∀ i, Options ε V (C i)} {s s' : Scope ε V C T}
  {l : Label ε V C T} {c : ℕ}

/-- **A step that changes no binding**, nor anything else but the call, the
gate and whether declarations are sealed. -/
def Silent (s s' : Scope ε V C T) : Prop :=
  s' = { s with sealed := s'.sealed, gate := s'.gate, calls := s'.calls }

section

variable [∀ i, Inhabited (T i)]

/-! ## Before the decision -/

/-- **The steps of a call that is not accepted are silent.** -/
theorem silent_of_step (hs : s.step z o l = some s') (hl : l.caller = some c)
    (ha : (s'.phase c).accepted = false) : Silent s s' := by
  have hnot {d : ℕ} {p : Phase ε C} {t : Scope ε V C T} (hs' : s' = t.goto d p) (hd : d = c)
      (hp : p.accepted = true) : Silent s s' := by
    subst hs' hd
    rw [phase_goto_self, hp] at ha
    cases ha
  cases stepped hs with
  | bindRefused | bind | watchRefused | watch | call | cancel | cancelBase | shut | stop | stopped
  | join | finish | entry => cases hl
  | enter | refuse | expire | grab | turn | pass | fail | start | prepare | lockRetry | retryFailed
  | leave => exact rfl
  | lock | commit | committed | retry => exact hnot rfl (Option.some.inj hl) rfl

/-- Acceptance is for good. -/
theorem accepted_of_step (hg : s.Gated) (hs : s.step z o l = some s')
    (ha : (s.phase c).accepted = true) : (s'.phase c).accepted = true := by
  have hgoto {d : ℕ} {p q : Phase ε C} {t : Scope ε V C T} (ht : t.calls = s.calls)
      (hp : s.phase d = p) (hpq : p.accepted = true → q.accepted = true) :
      ((t.goto d q).phase c).accepted = true := by
    have htc : t.phase c = s.phase c := by rw [phase, phase, ht]
    by_cases hcd : c = d
    · subst hcd
      rw [phase_goto_self]
      exact hpq (hp ▸ ha)
    · rwa [phase_goto_of_ne q hcd, htc]
  cases stepped hs with
  | bindRefused | bind | watchRefused | watch | cancelBase | shut | stop | stopped | join | finish
  | entry => exact ha
  | call request ctx =>
    have hlt : c < s.calls.next := hg.lt_of_ne fun hp => by
      rw [hp] at ha
      cases ha
    have hcell : (s.invoke request ctx).calls.cell c = s.calls.cell c :=
      Heap.cell_alloc_of_lt s.calls _ hlt
    rwa [phase, hcell]
  | cancel => rwa [phase_cancel]
  | enter d p hc hp | refuse d err hp | expire d err hp | grab d hp | turn d err hp | pass d hp
  | start d view hp | prepare d k n view commits commit hp | lockRetry d i hp
  | retryFailed d i err hp => exact hgoto rfl hp Bool.noConfusion
  | fail d err hp hl hna => exact hgoto rfl rfl (fun h => Bool.noConfusion (hna.symm.trans h))
  | lock d k n commits hp | commit d k n sequence commits targets commit hp
  | committed d k n sequence commits targets hp | retry d i p b hp =>
    exact hgoto rfl hp (fun _ => rfl)
  | leave d result hp =>
    refine hgoto rfl hp (fun h => ?_)
    cases result with
    | error => cases h
    | ok => rfl

/-! ## After the decision -/

theorem request_of_step (hc : c < s.calls.next) (hs : s.step z o l = some s') :
    c < s'.calls.next ∧ (s'.calls.cell c).request = (s.calls.cell c).request := by
  cases stepped hs with
  | bindRefused | bind | watchRefused | watch | cancelBase | shut | stop | stopped | join | finish
  | entry => exact ⟨hc, rfl⟩
  | call request =>
    exact ⟨hc.trans (Nat.lt_add_one _), congrArg Call.request (Heap.cell_alloc_of_lt s.calls _ hc)⟩
  | cancel d cause => exact ⟨hc, request_cancel d c cause⟩
  | enter d | refuse d | expire d | grab d | turn d | pass d | fail d | start d | prepare d | lock d
  | commit d | committed d | lockRetry d | retryFailed d | retry d | leave d =>
    exact ⟨hc, request_goto d c _⟩

/-- How the sequence moves in a step after which `c` holds the gate: with what
`c` adds to it, or not at all when `c` takes the gate. -/
def Accounts (s s' : Scope ε V C T) (l : Label ε V C T) (c : ℕ) : Prop :=
  (s.gate = some c ∧ s'.sequence + (s.phase c).charge = s.sequence + (s'.phase c).charge)
    ∨ (l = .grab c ∧ s'.sequence = s.sequence ∧ (s'.phase c).accepted = false)

/-- **Only an accepted call advances the sequence**, and by one. While a call
holds the gate it is the only one. -/
theorem accounts_of_step [∀ i, Inhabited (C i)] (h : s.Sound o) (hs : s.step z o l = some s')
    (hg : s'.gate = some c) : Accounts s s' l c := by
  have hincr (hq : s.sequence ≠ maxUint64) : increment s.sequence = s.sequence + 1 :=
    increment_of_lt (lt_of_le_of_ne h.sequence hq)
  have hsame (hgate : s'.gate = s.gate) (hq : s'.sequence = s.sequence)
      (hp : s'.phase c = s.phase c) : Accounts s s' l c :=
    .inl ⟨hgate.symm.trans hg, by rw [hq, hp]⟩
  have houtside {d : ℕ} {p q : Phase ε C} (hs' : s' = s.goto d q) (hp : s.phase d = p)
      (hh : p.holds = false) : Accounts s s' l c := by
    subst hs'
    refine hsame rfl rfl (phase_goto_of_ne q fun hcd => ?_)
    have hholds := h.gated.held c hg
    rw [hcd, hp, hh] at hholds
    cases hholds
  have hholder {d : ℕ} {p q : Phase ε C} {t : Scope ε V C T}
      (hs' : s' = t.goto d q) (hgt : t.gate = s.gate) (hp : s.phase d = p) (hh : p.holds = true)
      (hq : t.sequence + p.charge = s.sequence + q.charge) : Accounts s s' l c := by
    subst hs'
    have hgate : s.gate = some c := hgt.symm.trans hg
    obtain rfl : d = c := Option.some.inj ((h.gated.holds d (hp ▸ hh)).symm.trans hgate)
    refine .inl ⟨hgate, ?_⟩
    rw [phase_goto_self, hp]
    exact hq
  cases stepped hs with
  | bindRefused | bind | watchRefused | watch | cancelBase | shut | stop | stopped | join | finish
  | entry => exact hsame rfl rfl rfl
  | call =>
    refine hsame rfl rfl ?_
    exact congrArg Call.phase (Heap.cell_alloc_of_lt s.calls _ (h.gated.lt_of_gate hg))
  | cancel d cause => exact hsame rfl rfl (phase_cancel d c cause)
  | enter d p hc hp | refuse d err hp | expire d err hp => exact houtside rfl hp rfl
  | grab =>
    cases hg
    exact .inr ⟨rfl, rfl, by rw [phase_goto_self]; rfl⟩
  | turn | leave => cases hg
  | fail d err hp hl ha =>
    refine hholder rfl rfl rfl hp ?_
    rw [Phase.charge, ha]
    rfl
  | pass d hp | start d view hp | prepare d k n view commits commit hp | lockRetry d i hp
  | retryFailed d i err hp | commit d k n sequence commits targets commit hp
  | committed d k n sequence commits targets hp => exact hholder rfl rfl hp rfl rfl
  | lock d k n commits hp hk hst hq => exact hholder rfl rfl hp rfl (hincr hq)
  | retry d i p b hp hr hb =>
    exact hholder rfl rfl hp rfl (hincr (Binding.sequence_of_retry hb))

theorem sequence_le_of_step [∀ i, Inhabited (C i)] (h : s.Sound o)
    (hs : s.step z o l = some s') : s.sequence ≤ s'.sequence := by
  have hincr (hq : s.sequence ≠ maxUint64) : s.sequence ≤ increment s.sequence := by
    rw [increment_of_lt (lt_of_le_of_ne h.sequence hq)]
    exact Nat.le_succ _
  cases stepped hs with
  | lock c k n commits hp hk hst hq => exact hincr hq
  | retry c i p b hp hr hb => exact hincr (Binding.sequence_of_retry hb)
  | _ => exact le_rfl

/-- A call returns a receipt by leaving with it. -/
theorem returned_of_step {r : Update} (hs : s.step z o l = some s')
    (hp : s'.phase c = .returned (.ok r)) :
    s.phase c = .returned (.ok r) ∨ (l = .advance c ∧ s.phase c = .leaving (.ok r)) := by
  have hgoto {d : ℕ} {q : Phase ε C} {t : Scope ε V C T} (hs' : s' = t.goto d q)
      (ht : t.calls = s.calls) (hq : q ≠ .returned (.ok r)) :
      s.phase c = .returned (.ok r) ∨ (l = .advance c ∧ s.phase c = .leaving (.ok r)) := by
    subst hs'
    have htc : t.phase c = s.phase c := by rw [phase, phase, ht]
    by_cases hcd : c = d
    · subst hcd
      exact absurd ((phase_goto_self c q).symm.trans hp) hq
    · exact .inl (htc ▸ (phase_goto_of_ne q hcd).symm.trans hp)
  cases stepped hs with
  | bindRefused | bind | watchRefused | watch | cancelBase | shut | stop | stopped | join | finish
  | entry => exact .inl hp
  | call =>
    have hne : c ≠ s.calls.next := by
      rintro rfl
      simp [phase, invoke] at hp
    exact .inl ((congrArg Call.phase (Heap.cell_alloc_of_ne s.calls _ hne)).symm.trans hp)
  | cancel d cause => exact .inl ((phase_cancel d c cause).symm.trans hp)
  | enter d p hc hpd hw =>
    refine hgoto rfl rfl ?_
    obtain rfl | ⟨err, rfl⟩ := hw
    all_goals simp
  | refuse | expire | grab | turn | pass | fail | start | prepare | lock | commit | committed
  | lockRetry | retryFailed | retry => exact hgoto rfl rfl (by simp)
  | leave d result hpd =>
    by_cases hcd : c = d
    · subst hcd
      obtain rfl : result = .ok r := by simpa using hp
      exact .inr ⟨rfl, hpd⟩
    · exact .inl ((phase_goto_of_ne _ hcd).symm.trans hp)

end

/-! ## Runs -/

variable [Inhabited V] [∀ i, Inhabited (C i)] [∀ i, Inhabited (T i)]
  {tr tr' : List (Label ε V C T)}

theorem accepted_of_exec (hr : (machine z o).Run tr s) (he : (machine z o).exec s tr' = some s')
    (ha : (s.phase c).accepted = true) : (s'.phase c).accepted = true :=
  hr.exec_rel
    (fun _ => id) (fun h1 h2 h => h2 (h1 h))
    (fun hr hs => accepted_of_step (sound_of_run hr).gated hs) he ha

/-- **A call that is not accepted has done nothing.** -/
theorem silent_of_run {tr₁ tr₂ : List (Label ε V C T)} {s₁ s₂ : Scope ε V C T}
    (hr : (machine z o).Run (tr₁ ++ l :: tr₂) s) (hr₁ : (machine z o).Run tr₁ s₁)
    (hs : s₁.step z o l = some s₂) (hl : l.caller = some c)
    (ha : (s.phase c).accepted = false) : Silent s₁ s₂ := by
  refine silent_of_step hs hl (eq_false_of_ne_true fun ha₂ => ?_)
  have hr₂ : (machine z o).Run (tr₁ ++ [l]) s₂ := hr₁.concat hs
  rw [← List.singleton_append, ← List.append_assoc] at hr
  obtain ⟨t, ht, he⟩ := Machine.exec_append_eq_some.mp hr
  obtain rfl : s₂ = t := Option.some.inj (hr₂.symm.trans ht)
  exact nomatch ha.symm.trans (accepted_of_exec hr₂ he ha₂)

/-- **Where the holder of the gate began**: since it took the gate the
sequence has advanced by what it has added itself. -/
theorem grabbed_of_run (hr : (machine z o).Run tr s) (hg : s.gate = some c) :
    ∃ tr₀ tr₁ s₀, tr = tr₀ ++ .grab c :: tr₁ ∧ (machine z o).Run tr₀ s₀
      ∧ s.sequence = s₀.sequence + (s.phase c).charge := by
  refine hr.invariant (I := fun tr s => ∀ c, s.gate = some c → ∃ tr₀ tr₁ s₀,
    tr = tr₀ ++ .grab c :: tr₁ ∧ (machine z o).Run tr₀ s₀
      ∧ s.sequence = s₀.sequence + (s.phase c).charge) ?_ ?_ c hg
  · exact fun c (hg : (none : Option ℕ) = some c) => nomatch hg
  intro tr s l s' hr ih hs c hg'
  obtain ⟨hg, hq⟩ | ⟨rfl, hq, ha⟩ := accounts_of_step (sound_of_run hr) hs hg'
  · obtain ⟨tr₀, tr₁, s₀, htr, hr₀, hseq⟩ := ih c hg
    refine ⟨tr₀, tr₁ ++ [l], s₀, by rw [htr, List.append_assoc, List.cons_append], hr₀, ?_⟩
    omega
  · refine ⟨tr, [], s, rfl, hr, ?_⟩
    rw [hq, Phase.charge, ha]
    rfl

/-- **Where a receipt was returned.** -/
theorem left_of_run {r : Update} (hr : (machine z o).Run tr s)
    (hp : s.phase c = .returned (.ok r)) :
    ∃ tr₁ tr₂ s₁, tr = tr₁ ++ .advance c :: tr₂ ∧ (machine z o).Run tr₁ s₁
      ∧ s₁.phase c = .leaving (.ok r) ∧ (s₁.calls.cell c).request = (s.calls.cell c).request := by
  refine hr.invariant (I := fun tr s => s.phase c = .returned (.ok r) → ∃ tr₁ tr₂ s₁,
    tr = tr₁ ++ .advance c :: tr₂ ∧ (machine z o).Run tr₁ s₁ ∧ s₁.phase c = .leaving (.ok r)
      ∧ (s₁.calls.cell c).request = (s.calls.cell c).request) ?_ ?_ hp
  · exact fun (hp : (Phase.entering : Phase ε C) = .returned (.ok r)) => nomatch hp
  intro tr s l s' hr ih hs hp'
  have hreq (hne : s.phase c ≠ .entering) :
      (s.calls.cell c).request = (s'.calls.cell c).request :=
    (request_of_step ((sound_of_run hr).gated.lt_of_ne hne) hs).2.symm
  obtain hp | ⟨rfl, hp⟩ := returned_of_step hs hp'
  · obtain ⟨tr₁, tr₂, s₁, htr, hr₁, hp₁, hreq₁⟩ := ih hp
    exact ⟨tr₁, tr₂ ++ [l], s₁, by rw [htr, List.append_assoc, List.cons_append], hr₁, hp₁,
      hreq₁.trans (hreq (hp ▸ nofun))⟩
  · exact ⟨tr, [], s, rfl, hr, hp, hreq (hp ▸ nofun)⟩

/-- **`Apply` is all or nothing.** When a call has returned an error, every
step it has taken itself left all bindings and the sequence as they were.
When an `Apply` has returned a receipt, the sequence advanced by one between
its taking the gate and its leaving, and at that moment the receipt held one
target for each binding: the one the binding had in force. Neither the
sequence nor a version ever wraps. -/
theorem apply_all_or_nothing (hr : (machine z o).Run tr s) :
    (∀ c err, s.phase c = .returned (.error err) →
      ∀ tr₁ l tr₂ s₁ s₂, tr = tr₁ ++ l :: tr₂ → (machine z o).Run tr₁ s₁ →
        s₁.step z o l = some s₂ → l.caller = some c → Silent s₁ s₂)
    ∧ (∀ c view r, (s.calls.cell c).request = .apply view → s.phase c = .returned (.ok r) →
      ∃ tr₀ tr₁ tr₂ s₀ s₁, tr = (tr₀ ++ .grab c :: tr₁) ++ .advance c :: tr₂
        ∧ (machine z o).Run tr₀ s₀ ∧ (machine z o).Run (tr₀ ++ .grab c :: tr₁) s₁
        ∧ s₁.phase c = .leaving (.ok r) ∧ s₁.sequence = s₀.sequence + 1
        ∧ r.sequence = s₁.sequence ∧ s₁.Issued s₁.count r.targets)
    ∧ (s.sequence ≤ maxUint64 ∧ ∀ i, (s.entries i).version ≤ maxUint64)
    ∧ ∀ tr' s', (machine z o).exec s tr' = some s' → s.sequence ≤ s'.sequence
      ∧ ∀ i, (s.entries i).version ≤ (s'.entries i).version := by
  have hnum {tr : List (Label ε V C T)} {s : Scope ε V C T} (hr : (machine z o).Run tr s) (i : ℕ) :
      (s.entries i).ledger.Numbered := (Binding.ledger_of_run (run_entry hr i)).1
  refine ⟨?_, ?_, ⟨(sound_of_run hr).sequence, fun i => (hnum hr i).version_le⟩, ?_⟩
  · rintro c err hp tr₁ l tr₂ s₁ s₂ rfl hr₁ hs hl
    exact silent_of_run hr hr₁ hs hl (hp ▸ rfl)
  · intro c view r hreq hp
    obtain ⟨tr₁, tr₂, s₁, rfl, hr₁, hp₁, hreq₁⟩ := left_of_run hr hp
    have hsound := sound_of_run hr₁
    have hgate : s₁.gate = some c := hsound.gated.holds c (hp₁ ▸ rfl)
    obtain ⟨tr₀, tr₃, s₀, rfl, hr₀, hseq⟩ := grabbed_of_run hr₁ hgate
    obtain ⟨hq, hissued⟩ := hsound.ready_of_phase hp₁ rfl
    rw [hp₁] at hseq
    exact ⟨tr₀, tr₃, tr₂, s₀, s₁, rfl, hr₀, hr₁, hp₁, hseq, hq, (hissued view (hreq₁.trans hreq)).2⟩
  · intro tr' s' he
    refine ⟨?_, fun i => ?_⟩
    · exact hr.exec_rel (R := fun s s' : Scope ε V C T => s.sequence ≤ s'.sequence)
        (fun _ => le_rfl) (fun h1 h2 => h1.trans h2)
        (fun hr hs => sequence_le_of_step (sound_of_run hr) hs) he
    · -- versions count selections, and selections are never taken back
      calc (s.entries i).version = (s.entries i).selections.next := (hnum hr i).version
        _ ≤ (s'.entries i).selections.next :=
          (Binding.evolves_of_exec (run_entry hr i) (exec_entry hr he i)).next
        _ = (s'.entries i).version := (hnum (hr.append he) i).version.symm

/-- An `Apply` over two components, and its receipt. -/
theorem apply_all_or_nothing_applied :
    ∃ s, Sample.scope.Run Sample.applied s
      ∧ s.phase 0 = .returned (.ok ⟨1, "app", [(0, 0), (1, 0)]⟩)
      ∧ ∃ s₀ s₁ : Scope Unit ℕ (fun _ => ℕ) (fun _ => Unit),
        s₁.sequence = s₀.sequence + 1 ∧ s₁.Issued s₁.count [(0, 0), (1, 0)] :=
  have hr := Sample.scope.run_reached Sample.applied rfl
  have ⟨_, _, _, s₀, s₁, _, _, _, _, hseq, _, hissued⟩ :=
    (apply_all_or_nothing hr).2.1 0 (some 7) ⟨1, "app", [(0, 0), (1, 0)]⟩ rfl rfl
  ⟨_, hr, rfl, s₀, s₁, hseq, hissued⟩

end Scope

end Resource
