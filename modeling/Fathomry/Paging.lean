import Mathlib.Algebra.BigOperators.Group.List.Basic
import Mathlib.Algebra.Order.BigOperators.Group.List
import Mathlib.Algebra.Ring.Int.Defs
import Mathlib.Data.List.Induction

/-!
# Streams in pieces

A component that hands out a stream in pieces is right if what it has handed
out and what it has not are together the stream (`Cut`). It may look ahead,
as long as what it has looked at counts as not handed out.
-/

namespace Paging

variable {α β : Type*}

/-- **The items `done` have been handed out**, and `ahead` are to come. -/
def Cut (stream done ahead : List α) : Prop := done ++ ahead = stream

namespace Cut

variable {stream done ahead : List α}

theorem start (stream : List α) : Cut stream [] stream := rfl

theorem advance {now : List α} (h : Cut stream done (now ++ ahead)) :
    Cut stream (done ++ now) ahead := by
  unfold Cut at h ⊢
  rw [List.append_assoc]
  exact h

theorem le (h : Cut stream done ahead) : done <+: stream := ⟨ahead, h⟩

theorem whole (h : Cut stream done []) : done = stream := by
  rw [← h, List.append_nil]

end Cut

/-- **Every piece, after those before it.** -/
def Each (P : List β → β → Prop) (pieces : List β) : Prop :=
  ∀ before x after, pieces = before ++ x :: after → P before x

namespace Each

variable {P : List β → β → Prop} {pieces : List β}

theorem nil : Each P [] := by
  intro before x after h
  simp at h

theorem concat (h : Each P pieces) {x : β} (hx : P pieces x) : Each P (pieces ++ [x]) := by
  intro before y after heq
  cases after using List.reverseRecOn with
  | nil =>
    obtain ⟨rfl, hxy⟩ := List.append_inj' heq rfl
    obtain rfl := List.singleton_inj.mp hxy
    exact hx
  | append_singleton after z =>
    have heq' : pieces ++ [x] = (before ++ y :: after) ++ [z] := by
      rw [heq]
      simp
    exact h before y after (List.append_inj' heq' rfl).1

theorem imp {Q : List β → β → Prop} (h : Each P pieces)
    (hPQ : ∀ before x, P before x → Q before x) :
    Each Q pieces := fun before x after heq => hPQ before x (h before x after heq)

theorem of_mem (h : Each P pieces) {x : β} (hx : x ∈ pieces) : ∃ before, P before x := by
  obtain ⟨before, after, rfl⟩ := List.append_of_mem hx
  exact ⟨before, h before x after rfl⟩

/-- A piece with which all is handed out is the last one with anything in it. -/
theorem whole {f : β → List α} {stream : List α} {x : β} (h : Each P pieces)
    (hle : pieces.flatMap f <+: stream) (hx : x ∈ pieces)
    (hP : ∀ before, P before x → before.flatMap f ++ f x = stream) : pieces.flatMap f = stream := by
  obtain ⟨before, after, rfl⟩ := List.append_of_mem hx
  refine hle.eq_of_length_le ?_
  rw [← hP before (h before x after rfl), List.flatMap_append, List.flatMap_cons]
  simp only [List.length_append]
  omega

end Each

/-- What items weigh together. -/
def load (weight : α → ℤ) (items : List α) : ℤ := (items.map weight).sum

section Load

variable {weight : α → ℤ}

@[simp] theorem load_nil : load weight [] = 0 := rfl

@[simp] theorem load_append (items more : List α) :
    load weight (items ++ more) = load weight items + load weight more := by
  unfold load
  rw [List.map_append, List.sum_append]

@[simp] theorem load_cons (x : α) (items : List α) :
    load weight (x :: items) = weight x + load weight items := List.sum_cons

theorem load_nonneg (hw : ∀ x, 0 ≤ weight x) (items : List α) : 0 ≤ load weight items := by
  refine List.sum_nonneg (fun x hx => ?_)
  obtain ⟨y, -, rfl⟩ := List.mem_map.mp hx
  exact hw y

end Load

end Paging
