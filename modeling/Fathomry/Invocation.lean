import Fathomry.Heap
import Mathlib.Data.Multiset.UnionInter

/-!
# Calls and who owes them

A provider accepts a call, and from then on owes it an outcome: `Complete`
says everything at once, while `Resolve` publishes a result of something that
is still in use and `Finish` and `Release` end it later. All of them are
one-shot, so an outcome that comes too late, or twice, is lost without a
trace.

Hence a ledger is kept of all calls a provider has accepted. Some are
**waiting** for their outcome, some are **open** – resolved, but not
released – and all others must have been released. `Books` says so, and has
one lemma for each thing that can be done to a call, which asks exactly that
the call is where it has to be for the operation to take effect.
-/

namespace Invocation

variable {ρ φ : Type}

/-- `Outcome`: the result if there is one, and the errors. -/
structure Outcome (ρ φ : Type) where
  value : Option ρ
  primary : Option φ
  cleanup : List φ

/-- **A call.** The location that is added to its errors is left out. -/
structure Call (ρ φ : Type) where
  name : String
  resolved : Bool
  final : Bool
  released : Bool
  outcome : Outcome ρ φ

namespace Call

def new (name : String) : Call ρ φ := ⟨name, false, false, false, ⟨none, none, []⟩⟩

variable (c : Call ρ φ)

def resolve (outcome : Outcome ρ φ) : Call ρ φ :=
  if c.resolved then c else { c with resolved := true, outcome := outcome }

def finish (cleanup : Option φ) : Call ρ φ :=
  if !c.resolved || c.final then c
  else { c with
    final := true
    outcome := { c.outcome with cleanup := c.outcome.cleanup ++ cleanup.toList } }

def release : Call ρ φ := if !c.final || c.released then c else { c with released := true }

def complete (outcome : Outcome ρ φ) : Call ρ φ :=
  if c.resolved then c
  else { c with resolved := true, final := true, released := true, outcome := outcome }

variable {c}

theorem released_complete (h : c.resolved = false) (outcome : Outcome ρ φ) :
    (c.complete outcome).released = true := by
  simp [complete, h]

end Call

/-! ## The ledger -/

/-- **The books of a provider**: which calls are waiting, which are open, and
that all others have been released. -/
structure Books (calls : Heap (Call ρ φ)) (waiting held : Multiset ℕ) : Prop where
  nodup : (waiting + held).Nodup
  lt : ∀ k ∈ waiting + held, k < calls.next
  fresh : ∀ k ∈ waiting,
    (calls.cell k).resolved = false ∧ (calls.cell k).final = false ∧ (calls.cell k).released = false
  pending : ∀ k ∈ held,
    (calls.cell k).resolved = true ∧ (calls.cell k).final = false ∧ (calls.cell k).released = false
  done : ∀ k < calls.next, k ∉ waiting + held → (calls.cell k).released = true

namespace Books

variable {calls : Heap (Call ρ φ)} {w h : Multiset ℕ} {k : ℕ}

theorem begin (b : Books calls w h) (name : String) :
    Books (calls.alloc (.new name)) (w + {calls.next}) h := by
  have hnew : calls.next ∉ w + h := fun hm => absurd (b.lt _ hm) (lt_irrefl _)
  have hold : ∀ j ∈ w + h, (calls.alloc (Call.new name)).cell j = calls.cell j := fun j hj =>
    calls.cell_alloc_of_lt _ (b.lt j hj)
  refine ⟨?_, ?_, ?_, ?_, ?_⟩
  · rw [add_right_comm, add_comm, Multiset.singleton_add, Multiset.nodup_cons]
    exact ⟨hnew, b.nodup⟩
  · intro j hj
    rw [add_right_comm, Multiset.mem_add, Multiset.mem_singleton] at hj
    obtain hj | rfl := hj
    · exact (b.lt j hj).trans (Nat.lt_add_one _)
    · exact Nat.lt_add_one _
  · intro j hj
    rw [Multiset.mem_add, Multiset.mem_singleton] at hj
    obtain hj | rfl := hj
    · rw [hold j (Multiset.mem_add.mpr (.inl hj))]
      exact b.fresh j hj
    · simp [Call.new]
  · intro j hj
    rw [hold j (Multiset.mem_add.mpr (.inr hj))]
    exact b.pending j hj
  · intro j hj hn
    rw [add_right_comm, Multiset.mem_add, Multiset.mem_singleton, not_or] at hn
    rw [Heap.cell_alloc_of_ne _ _ hn.2]
    exact b.done j (lt_of_le_of_ne (Nat.lt_succ_iff.mp hj) hn.2) hn.1

/-- **Calls leave the books** once they have been released, and no others are
touched. -/
theorem leave {calls' : Heap (Call ρ φ)} {c d : Multiset ℕ} (b : Books calls (w + c) (h + d))
    (hnext : calls'.next = calls.next) (hsame : ∀ j, j ∉ c + d → calls'.cell j = calls.cell j)
    (hdone : ∀ j ∈ c + d, (calls'.cell j).released = true) : Books calls' w h := by
  have hsplit : w + c + (h + d) = w + h + (c + d) := add_add_add_comm w c h d
  have hnodup := b.nodup
  rw [hsplit, Multiset.nodup_add] at hnodup
  have hstay : ∀ j ∈ w + h, calls'.cell j = calls.cell j := fun j hj =>
    hsame j (Multiset.disjoint_left.mp hnodup.2.2 hj)
  refine ⟨hnodup.1, ?_, ?_, ?_, ?_⟩
  · intro j hj
    rw [hnext]
    refine b.lt j ?_
    rw [hsplit]
    exact Multiset.mem_add.mpr (.inl hj)
  · intro j hj
    rw [hstay j (Multiset.mem_add.mpr (.inl hj))]
    exact b.fresh j (Multiset.mem_add.mpr (.inl hj))
  · intro j hj
    rw [hstay j (Multiset.mem_add.mpr (.inr hj))]
    exact b.pending j (Multiset.mem_add.mpr (.inl hj))
  · intro j hj hn
    by_cases hc : j ∈ c + d
    · exact hdone j hc
    · rw [hsame j hc]
      refine b.done j (hnext ▸ hj) ?_
      rw [hsplit, Multiset.mem_add]
      exact not_or.mpr ⟨hn, hc⟩

theorem complete (b : Books calls (w + {k}) h) (outcome : Outcome ρ φ) :
    Books (calls.modify k (·.complete outcome)) w h := by
  have b' : Books calls (w + {k}) (h + 0) := by rwa [add_zero]
  refine b'.leave (calls.next_modify _ _) (fun j hj => ?_) (fun j hj => ?_)
  · exact calls.cell_modify_of_ne _ (by simpa using hj)
  · obtain rfl : j = k := by simpa using hj
    rw [calls.cell_modify_self]
    exact Call.released_complete (b.fresh j (by simp)).1 outcome

theorem completeAll {ks : List ℕ} (b : Books calls (w + (ks : Multiset ℕ)) h)
    (outcome : Outcome ρ φ) :
    Books (calls.mapCells (fun j c => if j ∈ ks then c.complete outcome else c)) w h := by
  have b' : Books calls (w + (ks : Multiset ℕ)) (h + 0) := by rwa [add_zero]
  refine b'.leave rfl (fun j hj => ?_) (fun j hj => ?_)
  · rw [calls.cell_mapCells, if_neg (by simpa using hj)]
  · have hj : j ∈ ks := by simpa using hj
    rw [calls.cell_mapCells, if_pos hj]
    exact Call.released_complete (b.fresh j (by simp [hj])).1 outcome

theorem finish (b : Books calls w (h + {k})) (cleanup : Option φ) :
    Books (calls.modify k (fun c => (c.finish cleanup).release)) w h := by
  have b' : Books calls (w + 0) (h + {k}) := by rwa [add_zero]
  refine b'.leave (calls.next_modify _ _) (fun j hj => ?_) (fun j hj => ?_)
  · exact calls.cell_modify_of_ne _ (by simpa using hj)
  · obtain rfl : j = k := by simpa using hj
    obtain ⟨hr, hf, hn⟩ := b.pending j (by simp)
    rw [calls.cell_modify_self]
    simp [Call.finish, Call.release, hr, hf, hn]

theorem resolve (b : Books calls (w + {k}) h) (outcome : Outcome ρ φ) :
    Books (calls.modify k (·.resolve outcome)) w (h + {k}) := by
  have hsplit : w + {k} + h = w + (h + {k}) := by rw [add_assoc, add_comm h]
  have hnodup := b.nodup
  rw [hsplit, ← add_assoc, Multiset.nodup_add] at hnodup
  have hstay : ∀ j ∈ w + h, (calls.modify k (·.resolve outcome)).cell j = calls.cell j := by
    intro j hj
    refine calls.cell_modify_of_ne _ ?_
    simpa using Multiset.disjoint_left.mp hnodup.2.2 hj
  refine ⟨hsplit ▸ b.nodup, ?_, ?_, ?_, ?_⟩
  · intro j hj
    exact b.lt j (hsplit ▸ hj)
  · intro j hj
    rw [hstay j (by simp [hj])]
    exact b.fresh j (by simp [hj])
  · intro j hj
    obtain hj | hj := Multiset.mem_add.mp hj
    · rw [hstay j (by simp [hj])]
      exact b.pending j hj
    · obtain rfl : j = k := by simpa using hj
      simp [Call.resolve, b.fresh j (by simp)]
  · intro j hj hnot
    rw [← hsplit] at hnot
    rw [calls.cell_modify_of_ne _ (by rintro rfl; simp at hnot)]
    exact b.done j hj hnot

end Books

end Invocation
