import Mathlib.Data.Finset.Card
import Mathlib.Logic.Relation
import Mathlib.Order.WellFounded

/-!
# Forests of parent pointers

Work that owns other work is linked upwards: every member knows its parent,
and nobody keeps a list of children. What the programs maintain about whole
families – that a member outlives everything below it, that a root knows
the size of its family – has to be read off these pointers.

`Forest.Below` is being properly below, along any number of pointers. Two
facts are used of it. What a parent hands to its children reaches everything
below (`Below.inherit`), so a condition on parents and children is a
condition on whole subtrees. And where every member also records its root,
the members that record `r` are `r` and what is below it
(`root_eq_iff`), which turns the size of a family into a count.
-/

namespace Forest

variable {α : Type*} (parent : α → Option α)

/-- **`v` is properly below `u`**: a child of it, a child of a child, and so
on. -/
def Below (v u : α) : Prop := Relation.TransGen (fun v p => parent v = some p) v u

variable {parent} {v p u r : α}

/-- Below `u` is a child of `u`, or what is below by way of its parent. -/
theorem below_of_parent (h : parent v = some p) : p = u ∨ Below parent p u → Below parent v u
  | .inl hu => hu ▸ .single h
  | .inr hu => .head h hu

/-- **What a parent hands to its children reaches everything below**, where
what a child gets is enough to hand it on. -/
theorem Below.inherit {P Q : α → Prop} (hP : ∀ {v p}, parent v = some p → P p → Q v)
    (hQ : ∀ {v}, Q v → P v) (h : Below parent v u) (hu : P u) : Q v := by
  induction h using Relation.TransGen.head_induction_on with
  | single h => exact hP h hu
  | head h _ ih => exact hP h (hQ ih)

section Roots

variable [Preorder α] (hold : ∀ {v p}, parent v = some p → p < v)

include hold

/-- What is below was created later. -/
theorem Below.lt (h : Below parent v u) : u < v := by
  induction h using Relation.TransGen.head_induction_on with
  | single h => exact hold h
  | head h _ ih => exact ih.trans (hold h)

variable {root : α → α} (htop : ∀ {v}, parent v = none → root v = v)
  (hroot : ∀ {v p}, parent v = some p → root v = root p)

include htop hroot

/-- **The members of the family of a root** are the root and what is below
it. -/
theorem root_eq_iff [WellFoundedLT α] (hr : parent r = none) :
    root v = r ↔ v = r ∨ Below parent v r := by
  constructor
  · -- up the pointers, which end at the recorded root
    induction v using WellFoundedLT.induction with
    | ind v ih =>
      intro hv
      cases hp : parent v with
      | none => exact .inl ((htop hp).symm.trans hv)
      | some p => exact .inr (below_of_parent hp (ih p (hold hp) ((hroot hp).symm.trans hv)))
  · rintro (rfl | h)
    · exact htop hr
    · exact h.inherit (Q := fun v => root v = r)
        (fun hp hv => (hroot hp).trans hv) id (htop hr)

/-- **The size of a family**: one more than there are members below the
root. -/
theorem card_family [WellFoundedLT α] [DecidableEq α] [DecidablePred (Below parent · r)]
    (hr : parent r = none) {s : Finset α} (hs : r ∈ s) :
    (s.filter (fun v => root v = r)).card = 1 + (s.filter (fun v => Below parent v r)).card := by
  have hsplit : s.filter (fun v => root v = r)
      = insert r (s.filter (fun v => Below parent v r)) := by
    ext v
    rw [Finset.mem_insert, Finset.mem_filter, Finset.mem_filter, root_eq_iff hold htop hroot hr]
    constructor
    · rintro ⟨hv, rfl | hb⟩
      · exact .inl rfl
      · exact .inr ⟨hv, hb⟩
    · rintro (rfl | ⟨hv, hb⟩)
      · exact ⟨hs, .inl rfl⟩
      · exact ⟨hv, .inr hb⟩
  have hr' : r ∉ s.filter (fun v => Below parent v r) :=
    fun hm => lt_irrefl r (Below.lt hold (Finset.mem_filter.mp hm).2)
  rw [hsplit, Finset.card_insert_of_notMem hr', Nat.add_comm]

end Roots

end Forest
