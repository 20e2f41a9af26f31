import Fathomry.Machine

/-!
# Machines with actions

A component that talks to others is a machine whose steps come with
**actions**: requests it makes, replies it gives, things it takes and gives
back. The actions belong to the step and not to the state, so the state has
only what the program has; what a run has done is collected along it
(`Mealy.traced`).
-/

/-- A state and the actions on the way to it. -/
structure Reaction (σ α : Type*) where
  state : σ
  actions : List α

/-- **A machine with actions.** -/
structure Mealy (σ Λ α : Type*) where
  start : σ
  /-- What a label does, if it is enabled. -/
  turn : σ → Λ → Option (Reaction σ α)

namespace Mealy

variable {σ Λ α β : Type*} (M : Mealy σ Λ α)

/-- The machine without its actions. -/
def machine : Machine σ Λ := ⟨M.start, fun s l => (M.turn s l).map Reaction.state⟩

/-- The actions of a step. -/
def actions (s : σ) (l : Λ) : List α := ((M.turn s l).map Reaction.actions).getD []

/-- What an execution does, as far as `f` is concerned. -/
def did (f : α → Option β) (s : σ) (tr : List Λ) : List β :=
  M.machine.outputs (fun s l => (M.actions s l).filterMap f) s tr

/-- What a run has done, as far as `f` is concerned. -/
def traced (f : α → Option β) (tr : List Λ) : List β := M.did f M.start tr

/-- Everything a run has done. -/
def log (tr : List Λ) : List α := M.traced some tr

variable {M}

variable {s : σ} {l : Λ} {t : Reaction σ α}

theorem actions_eq (ht : M.turn s l = some t) : M.actions s l = t.actions := by
  unfold actions
  rw [ht]
  rfl

theorem step_eq_some {s' : σ} :
    M.machine.step s l = some s' ↔ ∃ t, M.turn s l = some t ∧ t.state = s' :=
  Option.map_eq_some_iff

/-- The `match` is for `simp`: it evaluates the turn before what follows. -/
theorem exec_cons (s : σ) (l : Λ) (tr : List Λ) : M.machine.exec s (l :: tr) =
    match M.turn s l with
    | some t => M.machine.exec t.state tr
    | none => none := by
  show ((M.turn s l).map Reaction.state).bind _ = _
  cases M.turn s l
  all_goals rfl

variable {tr : List Λ}

theorem traced_concat (f : α → Option β) (hr : M.machine.Run tr s) (ht : M.turn s l = some t) :
    M.traced f (tr ++ [l]) = M.traced f tr ++ t.actions.filterMap f := by
  have hout : M.traced f (tr ++ [l]) = M.traced f tr ++ (M.actions s l).filterMap f :=
    hr.outputs_concat l
  rw [hout, actions_eq ht]

theorem log_concat (hr : M.machine.Run tr s) (ht : M.turn s l = some t) :
    M.log (tr ++ [l]) = M.log tr ++ t.actions := by
  unfold log
  rw [traced_concat some hr ht, List.filterMap_some]

/-- **The invariant rule**, for steps with actions. -/
theorem invariant {I : List Λ → σ → Prop} (h0 : I [] M.start)
    (hstep : ∀ {tr s l t}, M.machine.Run tr s → I tr s → M.turn s l = some t →
      I (tr ++ [l]) t.state)
    (hr : M.machine.Run tr s) : I tr s := by
  refine hr.invariant h0 (fun hr h hl => ?_)
  obtain ⟨t, ht, rfl⟩ := step_eq_some.mp hl
  exact hstep hr h ht

/-- The invariant rule, for what is known of the log. -/
theorem log_invariant {I : List α → σ → Prop} (h0 : I [] M.start)
    (hstep : ∀ {log s l t}, I log s → M.turn s l = some t → I (log ++ t.actions) t.state)
    (hr : M.machine.Run tr s) : I (M.log tr) s := by
  refine invariant (I := fun tr s => I (M.log tr) s) h0 (fun hr h ht => ?_) hr
  rw [log_concat hr ht]
  exact hstep h ht

/-- **Whatever is in the log was done by a step of the run.** -/
theorem mem_log {a : α} (hr : M.machine.Run tr s) : a ∈ M.log tr ↔ ∃ tr₁ l tr₂ u r,
    tr = tr₁ ++ l :: tr₂ ∧ M.machine.Run tr₁ u ∧ M.turn u l = some r ∧ a ∈ r.actions := by
  constructor
  · refine invariant (I := fun tr _ => a ∈ M.log tr → ∃ tr₁ l tr₂ u r,
      tr = tr₁ ++ l :: tr₂ ∧ M.machine.Run tr₁ u ∧ M.turn u l = some r ∧ a ∈ r.actions) nofun
      (fun {tr s l r} hr ih ht hm => ?_) hr
    rw [log_concat hr ht] at hm
    obtain hm | hm := List.mem_append.mp hm
    · obtain ⟨tr₁, l', tr₂, u, r', rfl, hstep⟩ := ih hm
      exact ⟨tr₁, l', tr₂ ++ [l], u, r', by simp, hstep⟩
    · exact ⟨tr, l, [], s, r, rfl, hr, ht, hm⟩
  · rintro ⟨tr₁, l, tr₂, u, r, rfl, hu, ht, hm⟩
    have hstep : M.machine.step u l = some r.state := step_eq_some.mpr ⟨r, ht, rfl⟩
    have hlog : M.log (tr₁ ++ l :: tr₂)
        = M.log tr₁ ++ (r.actions.filterMap some ++ M.did some r.state tr₂) := by
      rw [← actions_eq ht]
      exact (Machine.outputs_append hu).trans
        (congrArg (M.log tr₁ ++ ·) (Machine.outputs_cons_of_step hstep tr₂))
    rw [hlog, List.filterMap_some]
    exact List.mem_append_right _ (List.mem_append_left _ hm)

/-- **The trap rule**, for steps with actions. -/
theorem did_eq_nil {f : α → Option β} {P : σ → Prop}
    (hstep : ∀ {s l t}, P s → M.turn s l = some t → P t.state ∧ t.actions.filterMap f = []) {s' : σ}
    (hP : P s) (he : M.machine.exec s tr = some s') : M.did f s tr = [] ∧ P s' := by
  refine Machine.outputs_eq_nil (fun hP hl => ?_) hP he
  obtain ⟨t, ht, rfl⟩ := step_eq_some.mp hl
  rw [actions_eq ht]
  exact hstep hP ht

end Mealy

/-! ## Order in a log -/

/-- **Nothing of the one kind without something of the other in front.** -/
def Precedes {α : Type*} (p q : α → Prop) (log : List α) : Prop :=
  ∀ before x after, log = before ++ x :: after → q x → ∃ y ∈ before, p y

namespace Precedes

variable {α : Type*} {p q : α → Prop} {log more : List α}

theorem nil : Precedes p q [] := by
  intro before x after h
  simp at h

/-- A log with what is needed in it can go on in any way. -/
theorem append_of_mem (h : Precedes p q log) (hp : ∃ y ∈ log, p y) :
    Precedes p q (log ++ more) := by
  intro before x after heq hx
  obtain ⟨rest, rfl, -⟩ | ⟨rest, rfl, hrest⟩ := List.append_eq_append_iff.mp heq
  · obtain ⟨y, hy, hpy⟩ := hp
    exact ⟨y, List.mem_append_left _ hy, hpy⟩
  · cases rest with
    | nil =>
      obtain ⟨y, hy, hpy⟩ := hp
      exact ⟨y, by simpa using hy, hpy⟩
    | cons z rest =>
      cases hrest
      exact h before x rest rfl hx

/-- Other things do not matter. -/
theorem append_of_not (h : Precedes p q log) (hq : ∀ x ∈ more, ¬ q x) :
    Precedes p q (log ++ more) := by
  intro before x after heq hx
  obtain ⟨rest, rfl, hrest⟩ | ⟨rest, rfl, hrest⟩ := List.append_eq_append_iff.mp heq
  · exact absurd hx (hq x (by simp [hrest]))
  · cases rest with
    | nil =>
      obtain rfl : x :: after = more := hrest
      exact absurd hx (hq x (.head _))
    | cons z rest =>
      cases hrest
      exact h before x rest rfl hx

end Precedes
