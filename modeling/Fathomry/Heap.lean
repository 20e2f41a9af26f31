import Mathlib.Algebra.BigOperators.Group.Finset.Piecewise
import Mathlib.Tactic.Abel

/-!
# Addressed cells

Go code compares pointers and mutates records through them. A **heap** is
the part of a state that such records live in: cells handed out in order,
each named for ever by its address. Two pointers are the same when their
addresses are, a record is changed by changing its cell, and nothing is
freed – a record the program drops is a cell no live address names.

Counting is what the developments below need of it. `Heap.total` adds a
quantity up over the allocated cells, and `Heap.total_alloc` and
`Heap.total_set` say what an allocation and a change of one cell do to the
sum; `Heap.count` is the case of a property. Every counter the programs
keep by hand – borrows, references, bytes – is proved to be such a sum.
-/

/-- **A heap of cells**: how many have been allocated, and what each holds.
What lies beyond `next` is never read. -/
structure Heap (α : Type*) where
  /-- The next free address, which is the number of cells allocated. -/
  next : ℕ
  /-- The contents of a cell. -/
  cell : ℕ → α

namespace Heap

variable {α : Type*} {M : Type*}

/-- The heap with nothing allocated. -/
def empty (junk : α) : Heap α := ⟨0, fun _ => junk⟩

/-- Allocate a cell. Its address is the old `next`. -/
def alloc (h : Heap α) (a : α) : Heap α :=
  ⟨h.next + 1, Function.update h.cell h.next a⟩

/-- Overwrite a cell. -/
def set (h : Heap α) (p : ℕ) (a : α) : Heap α :=
  ⟨h.next, Function.update h.cell p a⟩

/-- Change a cell in place. -/
def modify (h : Heap α) (p : ℕ) (f : α → α) : Heap α := h.set p (f (h.cell p))

/-- Change every cell in place, each by its address. -/
def mapCells (h : Heap α) (f : ℕ → α → α) : Heap α := ⟨h.next, fun p => f p (h.cell p)⟩

@[simp] theorem next_empty (junk : α) : (empty junk).next = 0 := rfl

section

variable (h : Heap α)
include h

@[simp] theorem cell_mapCells (f : ℕ → α → α) (p : ℕ) :
    (h.mapCells f).cell p = f p (h.cell p) := rfl

@[simp] theorem next_alloc (a : α) : (h.alloc a).next = h.next + 1 := rfl

@[simp] theorem next_set (p : ℕ) (a : α) : (h.set p a).next = h.next := rfl

@[simp] theorem next_modify (p : ℕ) (f : α → α) :
    (h.modify p f).next = h.next := rfl

@[simp] theorem cell_alloc_self (a : α) : (h.alloc a).cell h.next = a :=
  Function.update_self _ _ _

theorem cell_alloc_of_ne (a : α) {p : ℕ} (hp : p ≠ h.next) : (h.alloc a).cell p = h.cell p :=
  Function.update_of_ne hp _ _

theorem cell_alloc_of_lt (a : α) {p : ℕ} (hp : p < h.next) : (h.alloc a).cell p = h.cell p :=
  cell_alloc_of_ne h a hp.ne

@[simp] theorem cell_set_self (p : ℕ) (a : α) : (h.set p a).cell p = a :=
  Function.update_self _ _ _

theorem cell_set_of_ne {p q : ℕ} (a : α) (hq : q ≠ p) : (h.set p a).cell q = h.cell q :=
  Function.update_of_ne hq _ _

@[simp] theorem cell_modify_self (p : ℕ) (f : α → α) : (h.modify p f).cell p = f (h.cell p) :=
  cell_set_self _ _ _

theorem cell_modify_of_ne {p q : ℕ} (f : α → α) (hq : q ≠ p) : (h.modify p f).cell q = h.cell q :=
  cell_set_of_ne _ _ hq

theorem cell_modify (p q : ℕ) (f : α → α) :
    (h.modify p f).cell q = if q = p then f (h.cell q) else h.cell q := by
  split_ifs with hq
  · subst hq
    rw [cell_modify_self]
  · rw [cell_modify_of_ne h f hq]

/-- A field that a change of a cell leaves alone reads the same at every
cell. -/
theorem cell_modify_congr {β : Type*} {p : ℕ} {f : α → α} {π : α → β}
    (hf : π (f (h.cell p)) = π (h.cell p)) (q : ℕ) : π ((h.modify p f).cell q) = π (h.cell q) := by
  by_cases hq : q = p
  · subst hq
    rw [cell_modify_self, hf]
  · rw [cell_modify_of_ne h f hq]

theorem cell_modify_proj {β : Type*} (p q : ℕ) {f : α → α} {π : α → β} (hf : ∀ a, π (f a) = π a) :
    π ((h.modify p f).cell q) = π (h.cell q) :=
  cell_modify_congr h (hf _) q

/-- A projection of the cells after a change, as an update of the
projection. -/
theorem cell_modify_update {β : Type*} (p q : ℕ) {f : α → α} {π : α → β} {φ : β → β}
    (hf : ∀ a, π (f a) = φ (π a)) :
    π ((h.modify p f).cell q) = Function.update (fun q => π (h.cell q)) p (φ (π (h.cell p))) q := by
  rw [cell_modify, Function.update_apply]
  split_ifs with hq
  · rw [hf, hq]
  · rfl

theorem cell_alloc_update {β : Type*} (a : α) (q : ℕ) (π : α → β) :
    π ((h.alloc a).cell q) = Function.update (fun q => π (h.cell q)) h.next (π a) q := by
  rw [Function.update_apply, ← apply_ite π]
  exact congrArg π (Function.update_apply _ _ _ _)

theorem cell_alloc (a : α) (p : ℕ) : (h.alloc a).cell p = if p = h.next then a else h.cell p :=
  Function.update_apply _ _ _ _

/-- What is true of every cell stays true when the new cell has it. -/
theorem forall_alloc {Q : ℕ → α → Prop} {a : α} (hQ : ∀ p < h.next, Q p (h.cell p))
    (ha : Q h.next a) (p : ℕ) (hp : p < h.next + 1) : Q p ((h.alloc a).cell p) := by
  obtain hlt | rfl := Nat.lt_succ_iff_lt_or_eq.mp hp
  · rw [cell_alloc_of_lt h a hlt]
    exact hQ p hlt
  · rw [cell_alloc_self]
    exact ha

theorem alloc_cases {Q : ℕ → α → Prop} {a : α} (p : ℕ) (hQ : p ≠ h.next → Q p (h.cell p))
    (ha : Q h.next a) : Q p ((h.alloc a).cell p) := by
  rw [cell_alloc]
  split_ifs with hp
  · exact hp ▸ ha
  · exact hQ hp

/-- The cells with a property are those before, and perhaps the new one. -/
theorem alloc_iff {P : α → Prop} {a : α} (p : ℕ) : p < h.next + 1 ∧ P ((h.alloc a).cell p)
    ↔ (p < h.next ∧ P (h.cell p)) ∨ (p = h.next ∧ P a) := by
  obtain rfl | hne := eq_or_ne p h.next
  · simp
  · rw [cell_alloc_of_ne h a hne, Nat.lt_succ_iff_lt_or_eq, or_iff_left hne,
      or_iff_left (fun hn => hne hn.1)]

theorem alloc_iff_of_not {P : α → Prop} {a : α} (ha : ¬ P a) (p : ℕ) :
    p < h.next + 1 ∧ P ((h.alloc a).cell p) ↔ p < h.next ∧ P (h.cell p) := by
  rw [alloc_iff, or_iff_left (fun hn => ha hn.2)]

/-- What is true of every other cell is true of all when the change brings
it about. -/
theorem forall_modify {Q : ℕ → α → Prop} {p : ℕ} {f : α → α} (q : ℕ)
    (hQ : q ≠ p → Q q (h.cell q)) (hp : Q p (f (h.cell p))) : Q q ((h.modify p f).cell q) := by
  rw [cell_modify]
  split_ifs with hq
  · subst hq
    exact hp
  · exact hQ hq

@[simp] theorem modify_id (p : ℕ) : h.modify p id = h := by
  unfold modify set
  dsimp only [id]
  rw [Function.update_eq_self]

theorem modify_comm {p q : ℕ} (hpq : p ≠ q) (f g : α → α) :
    (h.modify p f).modify q g = (h.modify q g).modify p f := by
  unfold modify set
  dsimp only
  rw [Function.update_of_ne hpq.symm, Function.update_of_ne hpq, Function.update_comm hpq.symm]

end

/-- One heap of a family has a new cell. -/
theorem alloc_family {ι : Type*} [DecidableEq ι] {f g : ι → Heap α} {i : ι} {a : α}
    (hg : ∀ j, g j = if j = i then (f j).alloc a else f j) :
    ((f i).next < (g i).next ∧ (g i).cell (f i).next = a)
      ∧ (∀ j, ∀ p < (f j).next, p < (g j).next ∧ (g j).cell p = (f j).cell p)
      ∧ ∀ j, ∀ p < (g j).next, p < (f j).next ∨ j = i ∧ p = (f i).next := by
  refine ⟨?_, fun j p hp => ?_, fun j p hp => ?_⟩
  · rw [hg, if_pos rfl]
    exact ⟨Nat.lt_add_one _, cell_alloc_self _ _⟩
  · rw [hg]
    split_ifs
    · exact ⟨Nat.lt_succ_of_lt hp, cell_alloc_of_lt _ _ hp⟩
    · exact ⟨hp, rfl⟩
  · rw [hg] at hp
    split_ifs at hp with hj
    · subst hj
      exact (Nat.lt_succ_iff_lt_or_eq.mp hp).imp_right (⟨rfl, ·⟩)
    · exact .inl hp

section Total

variable [AddCommMonoid M]

/-- **The sum of a quantity over the allocated cells.** -/
def total (h : Heap α) (f : α → M) : M := ∑ p ∈ Finset.range h.next, f (h.cell p)

/-- An allocation adds the new cell's share. -/
theorem total_alloc (h : Heap α) (a : α) (f : α → M) : (h.alloc a).total f = h.total f + f a := by
  unfold total
  rw [next_alloc, Finset.sum_range_succ, cell_alloc_self]
  refine congrArg (· + f a) (Finset.sum_congr rfl (fun p hp => ?_))
  rw [cell_alloc_of_lt h a (Finset.mem_range.mp hp)]

/-- The sum is the share of one cell and the shares of the others. -/
theorem total_eq_add (h : Heap α) {p : ℕ} (hp : p < h.next) (f : α → M) :
    h.total f = f (h.cell p) + ∑ q ∈ (Finset.range h.next).erase p, f (h.cell q) :=
  (Finset.add_sum_erase _ _ (Finset.mem_range.mpr hp)).symm

/-- **A change of one cell exchanges its share.** -/
theorem total_set (h : Heap α) {p : ℕ} (hp : p < h.next) (a : α) (f : α → M) :
    (h.set p a).total f + f (h.cell p) = h.total f + f a := by
  have hrest : ∑ q ∈ (Finset.range h.next).erase p, f ((h.set p a).cell q)
      = ∑ q ∈ (Finset.range h.next).erase p, f (h.cell q) :=
    Finset.sum_congr rfl (fun q hq => by
      rw [cell_set_of_ne h a (Finset.ne_of_mem_erase hq)])
  rw [total_eq_add (h.set p a) hp, total_eq_add h hp, next_set, hrest, cell_set_self]
  abel

theorem total_modify (h : Heap α) {p : ℕ} (hp : p < h.next) (g : α → α) (f : α → M) :
    (h.modify p g).total f + f (h.cell p) = h.total f + f (g (h.cell p)) :=
  total_set h hp _ f

/-- A change that leaves every cell's share alone leaves the sum alone. -/
theorem total_modify_of_eq (h : Heap α) (p : ℕ) {g : α → α} {f : α → M}
    (hg : f (g (h.cell p)) = f (h.cell p)) : (h.modify p g).total f = h.total f := by
  refine Finset.sum_congr rfl (fun q _ => ?_)
  by_cases hq : q = p
  · subst hq
    rw [cell_modify_self, hg]
  · rw [cell_modify_of_ne h g hq]

theorem total_ite (h : Heap α) (P : α → Prop) [DecidablePred P] (f : α → M) :
    h.total (fun a => if P a then f a else 0)
      = ∑ p ∈ (Finset.range h.next).filter (fun p => P (h.cell p)), f (h.cell p) :=
  (Finset.sum_filter _ _).symm

theorem total_eq_of_cells {h h' : Heap α} {f : α → M} (hn : h'.next = h.next)
    (hf : ∀ p < h.next, f (h'.cell p) = f (h.cell p)) : h'.total f = h.total f := by
  unfold total
  rw [hn]
  exact Finset.sum_congr rfl (fun p hp => hf p (Finset.mem_range.mp hp))

theorem total_congr {h : Heap α} {f g : α → M} (hfg : ∀ p < h.next, f (h.cell p) = g (h.cell p)) :
    h.total f = h.total g :=
  Finset.sum_congr rfl (fun p hp => hfg p (Finset.mem_range.mp hp))

/-- Where one can subtract, a change of one cell adds the difference of its
shares. -/
theorem total_modify_sub {M : Type*} [AddCommGroup M] (h : Heap α) {p : ℕ} (hp : p < h.next)
    (g : α → α) (f : α → M) :
    (h.modify p g).total f = h.total f + (f (g (h.cell p)) - f (h.cell p)) := by
  have hm := h.total_modify hp g f
  rw [eq_sub_of_add_eq hm]
  abel

end Total

section Count

/-- **How many allocated cells have a property.** -/
def count (h : Heap α) (P : α → Prop) [DecidablePred P] : ℕ :=
  h.total (fun a => if P a then 1 else 0)

variable (P : α → Prop) [DecidablePred P]

theorem count_alloc (h : Heap α) (a : α) : (h.alloc a).count P = h.count P + if P a then 1 else 0 :=
  total_alloc h a _

/-- A change that keeps the property of its cell keeps the count. -/
theorem count_modify_of_iff (h : Heap α) (p : ℕ) {g : α → α}
    (hg : P (g (h.cell p)) ↔ P (h.cell p)) : (h.modify p g).count P = h.count P :=
  total_modify_of_eq h p (by simp only [hg])

theorem count_congr {h h' : Heap α} (hn : h'.next = h.next)
    (hP : ∀ p < h.next, P (h'.cell p) ↔ P (h.cell p)) : h'.count P = h.count P :=
  total_eq_of_cells hn (fun p hp => by simp only [hP p hp])

theorem count_eq_card (h : Heap α) :
    h.count P = ((Finset.range h.next).filter (fun p => P (h.cell p))).card := by
  rw [Finset.card_filter]
  rfl

theorem count_modify_loss (h : Heap α) {p : ℕ} (hp : p < h.next) {g : α → α}
    (hP : P (h.cell p)) (hg : ¬ P (g (h.cell p))) : (h.modify p g).count P + 1 = h.count P := by
  have hc := h.total_modify hp g (fun x => if P x then 1 else 0)
  rwa [if_pos hP, if_neg hg, Nat.add_zero] at hc

/-- **Nothing counted means no cell has the property.** -/
theorem count_eq_zero_iff (h : Heap α) : h.count P = 0 ↔ ∀ p < h.next, ¬ P (h.cell p) := by
  unfold count total
  rw [Finset.sum_eq_zero_iff]
  constructor
  · intro hz p hp hP
    have h1 : (if P (h.cell p) then 1 else 0) = 0 := hz p (Finset.mem_range.mpr hp)
    rw [if_pos hP] at h1
    exact one_ne_zero h1
  · intro hn p hp
    exact if_neg (hn p (Finset.mem_range.mp hp))

theorem count_pos_of (h : Heap α) {p : ℕ} (hp : p < h.next) (hP : P (h.cell p)) :
    0 < h.count P := by
  refine Nat.pos_of_ne_zero (fun hz => ?_)
  exact (count_eq_zero_iff P h).mp hz p hp hP

end Count

end Heap
