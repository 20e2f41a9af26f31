import Mathlib.Algebra.Order.Group.Multiset
import Mathlib.Data.List.Induction

/-!
# Labelled machines and their runs

A concurrent component is read here as a **machine**: a starting state and
a step function whose label says which actor moves and carries everything
that actor's environment decides – a callback's result, a cancelled
context, which of two ready channels is picked. A label that is not enabled
gives no step. An interleaving of the actors is then a list of labels, and
a property of every interleaving is a property of every list that executes.

The label list is the history. A statement such as "this callback never starts
twice" is about the labels executed so far, so the invariant rule carries the
history along with the state, and no ghost field is needed.

Three rules do the work. `Machine.Run.invariant` proves a property of all runs
from one step. `Machine.Run.map` transports a run of one machine to another that
follows it. `Machine.Run.conserved` is for what is taken on and has to be
discharged exactly once.
-/

/-- **A guarded step** is taken where its guard holds. -/
theorem of_guard {σ : Type*} {c : Prop} [Decidable c] {s t : σ}
    (h : (if c then some s else none) = some t) : c ∧ s = t := by
  obtain ⟨hc, hs⟩ := Option.ite_none_right_eq_some.mp h
  exact ⟨hc, Option.some.inj hs⟩

/-- A step that is ruled out by a condition is taken where it fails. -/
theorem of_guard_not {σ : Type*} {c : Prop} [Decidable c] {s t : σ}
    (h : (if c then none else some s) = some t) : ¬ c ∧ s = t := by
  obtain ⟨hc, hs⟩ := Option.ite_none_left_eq_some.mp h
  exact ⟨hc, Option.some.inj hs⟩

/-- **A labelled machine**: where it starts, and what each label does. -/
structure Machine (σ Λ : Type*) where
  start : σ
  /-- The step a label takes, if it is enabled. -/
  step : σ → Λ → Option σ

namespace Machine

variable {σ Λ σ' Λ' : Type*} (M : Machine σ Λ) (N : Machine σ' Λ')

/-- Execute a list of labels from a state. -/
def exec (M : Machine σ Λ) : σ → List Λ → Option σ
  | s, [] => some s
  | s, l :: tr => (M.step s l).bind (fun s' => exec M s' tr)

/-- **A run**: the labels `tr`, executed from the start, reach `s`. -/
def Run (tr : List Λ) (s : σ) : Prop := M.exec M.start tr = some s

variable {M N}

@[simp] theorem exec_nil (s : σ) : M.exec s [] = some s := rfl

theorem exec_cons (s : σ) (l : Λ) (tr : List Λ) :
    M.exec s (l :: tr) = (M.step s l).bind (fun s' => M.exec s' tr) := rfl

/-- Executing two lists one after the other is executing their
concatenation. -/
theorem exec_append (s : σ) (tr tr' : List Λ) :
    M.exec s (tr ++ tr') = (M.exec s tr).bind (fun s' => M.exec s' tr') := by
  induction tr generalizing s with
  | nil => rfl
  | cons l tr ih =>
    rw [List.cons_append, exec_cons, exec_cons, Option.bind_assoc]
    exact congrArg (Option.bind (M.step s l)) (funext ih)

variable {s : σ} {tr : List Λ}

/-- An execution of a concatenation passes through a state between the two
lists. -/
theorem exec_append_eq_some {u : σ} {tr' : List Λ} :
    M.exec s (tr ++ tr') = some u ↔ ∃ t, M.exec s tr = some t ∧ M.exec t tr' = some u := by
  rw [exec_append, Option.bind_eq_some_iff]

@[simp] theorem exec_singleton (s : σ) (l : Λ) : M.exec s [l] = M.step s l := by
  exact Option.bind_fun_some _

variable {l : Λ}

theorem exec_concat_eq_some {u : σ} :
    M.exec s (tr ++ [l]) = some u ↔ ∃ t, M.exec s tr = some t ∧ M.step t l = some u := by
  rw [exec_append_eq_some]
  simp only [exec_singleton]

/-! ## What an execution puts out

A machine that is part of a larger one is followed through the labels of
its own that each step of the larger one amounts to. Which labels those are
may depend on the state, so they are collected along the execution. -/

/-- The labels `out` collects along an execution. -/
def outputs (M : Machine σ Λ) (out : σ → Λ → List Λ') : σ → List Λ → List Λ'
  | _, [] => []
  | s, l :: tr => out s l ++ (M.step s l).elim [] (fun s' => outputs M out s' tr)

variable {out : σ → Λ → List Λ'} {s' : σ}

theorem outputs_cons_of_step (hl : M.step s l = some s') (tr : List Λ) :
    M.outputs out s (l :: tr) = out s l ++ M.outputs out s' tr := by
  rw [outputs, hl]
  rfl

@[simp] theorem outputs_singleton (out : σ → Λ → List Λ') (s : σ) (l : Λ) :
    M.outputs out s [l] = out s l := by
  unfold outputs
  cases M.step s l with
  | none | some => exact List.append_nil _

theorem outputs_append {t : σ} {tr' : List Λ} (he : M.exec s tr = some t) :
    M.outputs out s (tr ++ tr') = M.outputs out s tr ++ M.outputs out t tr' := by
  induction tr generalizing s with
  | nil =>
    obtain rfl : s = t := Option.some.inj he
    rfl
  | cons l tr ih =>
    obtain ⟨s', hl, he'⟩ := Option.bind_eq_some_iff.mp he
    rw [List.cons_append, outputs_cons_of_step hl, outputs_cons_of_step hl, ih he',
      List.append_assoc]

/-- What is put out comes from a label of the execution. -/
theorem exists_of_mem_outputs {e : Λ'} (hm : e ∈ M.outputs out s tr) :
    ∃ t, ∃ l ∈ tr, e ∈ out t l := by
  induction tr generalizing s with
  | nil => cases hm
  | cons l tr ih =>
    obtain hl | hr := List.mem_append.mp hm
    · exact ⟨s, l, List.mem_cons_self, hl⟩
    · cases hs : M.step s l with
      | none =>
        rw [hs] at hr
        cases hr
      | some =>
        rw [hs] at hr
        obtain ⟨t, l', hl', he⟩ := ih hr
        exact ⟨t, l', List.mem_cons_of_mem l hl', he⟩

/-- A label that puts something out from every state puts it out. -/
theorem exists_mem_outputs {P : Λ' → Prop} (he : M.exec s tr = some s') (hl : l ∈ tr)
    (hout : ∀ t, ∃ e ∈ out t l, P e) : ∃ e ∈ M.outputs out s tr, P e := by
  obtain ⟨tr₁, tr₂, rfl⟩ := List.append_of_mem hl
  obtain ⟨t, ht, hrest⟩ := exec_append_eq_some.mp he
  obtain ⟨t', ht', -⟩ := Option.bind_eq_some_iff.mp hrest
  obtain ⟨e, he, hP⟩ := hout t
  rw [outputs_append ht, outputs_cons_of_step ht']
  exact ⟨e, List.mem_append_right _ (List.mem_append_left _ he), hP⟩

/-- When each label puts out as many as it counts for, so does an
execution. -/
theorem countP_outputs {p : Λ' → Bool} {q : Λ → Bool}
    (hout : ∀ s l, (out s l).countP p = [l].countP q) (he : M.exec s tr = some s') :
    (M.outputs out s tr).countP p = tr.countP q := by
  induction tr generalizing s with
  | nil => rfl
  | cons l tr ih =>
    obtain ⟨t, hl, he'⟩ := Option.bind_eq_some_iff.mp he
    rw [outputs_cons_of_step hl, List.countP_append, hout, ih he', ← List.countP_append]
    rfl

/-- **The trap rule.** From a set of states that is never left and in which
nothing is put out, nothing is put out. -/
theorem outputs_eq_nil {P : σ → Prop}
    (hstep : ∀ {s l s'}, P s → M.step s l = some s' → P s' ∧ out s l = []) (hP : P s)
    (he : M.exec s tr = some s') : M.outputs out s tr = [] ∧ P s' := by
  induction tr generalizing s with
  | nil =>
    obtain rfl : s = s' := Option.some.inj he
    exact ⟨rfl, hP⟩
  | cons l tr ih =>
    obtain ⟨t, hl, he'⟩ := Option.bind_eq_some_iff.mp he
    obtain ⟨hP', hnil⟩ := hstep hP hl
    rw [outputs_cons_of_step hl, hnil, List.nil_append]
    exact ih hP' he'

/-- **The label rule.** From a set of states that is never left, only labels
that can be taken in it are taken. -/
theorem forall_mem_of_exec {P : σ → Prop} {Q : Λ → Prop}
    (hstep : ∀ {s l s'}, P s → M.step s l = some s' → P s' ∧ Q l) (hP : P s)
    (he : M.exec s tr = some s') : ∀ l ∈ tr, Q l := by
  induction tr generalizing s with
  | nil => exact nofun
  | cons l tr ih =>
    obtain ⟨t, hl, he'⟩ := Option.bind_eq_some_iff.mp he
    obtain ⟨hP', hQ⟩ := hstep hP hl
    exact List.forall_mem_cons.mpr ⟨hQ, ih hP' he'⟩

/-- The state a list of labels leads to. -/
def reached (M : Machine σ Λ) (tr : List Λ) (h : (M.exec M.start tr).isSome = true) : σ :=
  (M.exec M.start tr).get h

theorem run_reached (M : Machine σ Λ) (tr : List Λ) (h : (M.exec M.start tr).isSome = true) :
    M.Run tr (M.reached tr h) :=
  (Option.some_get h).symm

namespace Run

theorem nil : M.Run [] M.start := rfl

variable {tr : List Λ} {s s' : σ}

theorem concat {l : Λ} (hr : M.Run tr s) (hl : M.step s l = some s') : M.Run (tr ++ [l]) s' :=
  exec_concat_eq_some.mpr ⟨s, hr, hl⟩

variable {tr' : List Λ}

theorem append (hr : M.Run tr s) (he : M.exec s tr' = some s') : M.Run (tr ++ tr') s' :=
  exec_append_eq_some.mpr ⟨s, hr, he⟩

/-- A run passes through the step of each of its labels. -/
theorem split {l : Λ} (hr : M.Run (tr ++ l :: tr') s) :
    ∃ t u, M.Run tr t ∧ M.step t l = some u ∧ M.exec u tr' = some s := by
  obtain ⟨t, ht, hrest⟩ := exec_append_eq_some.mp hr
  obtain ⟨u, hu, he⟩ := Option.bind_eq_some_iff.mp hrest
  exact ⟨t, u, ht, hu, he⟩

variable {out : σ → Λ → List Λ'}

theorem outputs_concat (hr : M.Run tr s) (l : Λ) :
    M.outputs out M.start (tr ++ [l]) = M.outputs out M.start tr ++ out s l := by
  rw [outputs_append hr, outputs_singleton]

/-- **The invariant rule.** What holds at the start and is kept by every
step taken from a reachable state holds at the end of every run. -/
theorem invariant {I : List Λ → σ → Prop} (h0 : I [] M.start)
    (hstep : ∀ {tr s l s'}, M.Run tr s → I tr s → M.step s l = some s' → I (tr ++ [l]) s')
    (hr : M.Run tr s) : I tr s := by
  induction tr using List.reverseRecOn generalizing s with
  | nil =>
    obtain rfl : M.start = s := Option.some.inj hr
    exact h0
  | append_singleton tr l ih =>
    obtain ⟨t, ht, hl⟩ := exec_concat_eq_some.mp hr
    exact hstep ht (ih ht) hl

/-- **The monotonicity rule.** A reflexive and transitive relation that
every step from a reachable state satisfies relates any state of a run to
every later one. -/
theorem exec_rel {R : σ → σ → Prop} (hrefl : ∀ s, R s s) (htrans : ∀ {s t u}, R s t → R t u → R s u)
    (hstep : ∀ {tr s l s'}, M.Run tr s → M.step s l = some s' → R s s') (hr : M.Run tr s)
    (he : M.exec s tr' = some s') : R s s' := by
  induction tr' using List.reverseRecOn generalizing s' with
  | nil =>
    obtain rfl : s = s' := Option.some.inj he
    exact hrefl s
  | append_singleton tr' l ih =>
    obtain ⟨t, ht, hl⟩ := exec_concat_eq_some.mp he
    exact htrans (ih ht) (hstep (hr.append ht) hl)

/-- **The simulation rule.** When every step of `M` from a reachable state
is followed by the labels `out s l` of `N` between the images of its two
states, a run of `M` is followed by the run of `N` it puts out. -/
theorem map {f : σ → σ'} (h0 : f M.start = N.start)
    (hstep : ∀ {tr s l s'}, M.Run tr s → M.step s l = some s' →
      N.exec (f s) (out s l) = some (f s'))
    (hr : M.Run tr s) : N.Run (M.outputs out M.start tr) (f s) := by
  refine invariant (I := fun tr s => N.Run (M.outputs out M.start tr) (f s)) ?_ ?_ hr
  · show N.exec N.start [] = some (f M.start)
    rw [h0, exec_nil]
  · intro tr s l s' hrun ih hl
    rw [outputs_append hrun, outputs_singleton]
    exact ih.append (hstep hrun hl)

/-- The execution that continues a run is followed as well. -/
theorem map_exec {f : σ → σ'}
    (hstep : ∀ {tr s l s'}, M.Run tr s → M.step s l = some s' →
      N.exec (f s) (out s l) = some (f s'))
    (hr : M.Run tr s) (he : M.exec s tr' = some s') :
    N.exec (f s) (M.outputs out s tr') = some (f s') := by
  induction tr' using List.reverseRecOn generalizing s' with
  | nil =>
    obtain rfl : s = s' := Option.some.inj he
    rfl
  | append_singleton tr' l ih =>
    obtain ⟨t, ht, hl⟩ := exec_concat_eq_some.mp he
    rw [outputs_append ht, outputs_singleton]
    exact exec_append_eq_some.mpr ⟨f t, ih ht, hstep (hr.append ht) hl⟩

end Run

end Machine
