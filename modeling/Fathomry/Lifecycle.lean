import Fathomry.Machine
import Mathlib.Algebra.Order.BigOperators.Group.List
import Mathlib.Algebra.Order.Ring.Nat
import Mathlib.Data.List.Nodup
import Mathlib.Data.List.Perm.Subperm
import Mathlib.Order.Nat
import Mathlib.Tactic.SplitIfs

/-!
# The life of a replaceable item

A holder keeps one item in use, builds its replacement beside it, and gets
rid of the items it no longer uses once nobody borrows them. This module is
that idea with nothing else in it: items are numbers, and an item is
*pending* while it is being built, *active* while it is handed out,
*retired* from the moment it is no longer handed out until it has been
disposed of, and *gone* afterwards.

Everything a holder owes is a consequence of one fact, that an item only
moves forward through these stages (`Lifecycle.rank_stage_le`). An item
that left the active slot never comes back to it, so it is never lent
again; an item whose disposal has started had no loan then and gets none
later; an item that has been disposed of is never disposed of again.

The machine is meant to be refined: a program that manages such items is
related to it by a function from its states to `Lifecycle`, and inherits
the results below through `Machine.Run.map`.
-/

/-- **The state of a holder.** -/
@[ext]
structure Lifecycle where
  /-- How many items have been begun; they are numbered in order. -/
  born : ℕ
  pending : Option ℕ
  active : Option ℕ
  /-- The items no longer handed out and not disposed of. -/
  retired : List ℕ
  /-- The item chosen for disposal, and whether its disposal is running. -/
  disposing : Option (ℕ × Bool)
  loans : ℕ → ℕ
  closed : Bool

namespace Lifecycle

/-- **What a holder does.** -/
inductive Act where
  | spawn
  /-- Put the finished item in use and retire the one it replaces. -/
  | adopt (g : ℕ)
  /-- Retire the finished item without using it. -/
  | reject (g : ℕ)
  /-- Give up an item that was never finished: there is nothing to own. -/
  | abandon (g : ℕ)
  | lend (g : ℕ)
  | giveBack (g : ℕ)
  /-- Shut down: retire the active item. -/
  | close
  /-- Choose a retired item nobody borrows for disposal. -/
  | choose (g : ℕ)
  | start (g : ℕ)
  /-- The disposal did not complete: the item stays retired. -/
  | keep (g : ℕ)
  | finish (g : ℕ)
  /-- The chosen item needs no disposal. -/
  | discard (g : ℕ)
deriving DecidableEq

/-- The step an act takes, if it is enabled. -/
def step (s : Lifecycle) : Act → Option Lifecycle
  | .spawn =>
    if s.closed = false ∧ s.pending = none then
      some { s with born := s.born + 1, pending := some s.born }
    else none
  | .adopt g =>
    if s.closed = false ∧ s.pending = some g then
      some { s with pending := none, active := some g,
                    retired := s.retired ++ s.active.toList }
    else none
  | .reject g =>
    if s.pending = some g then
      some { s with pending := none, retired := s.retired ++ [g] }
    else none
  | .abandon g =>
    if s.pending = some g then some { s with pending := none } else none
  | .lend g =>
    if s.active = some g then
      some { s with loans := Function.update s.loans g (s.loans g + 1) }
    else none
  | .giveBack g =>
    if s.loans g ≠ 0 then
      some { s with loans := Function.update s.loans g (s.loans g - 1) }
    else none
  | .close =>
    some { s with closed := true, active := none,
                  retired := s.retired ++ s.active.toList }
  | .choose g =>
    if s.disposing = none ∧ g ∈ s.retired ∧ s.loans g = 0 then
      some { s with disposing := some (g, false) }
    else none
  | .start g =>
    if s.disposing = some (g, false) then
      some { s with disposing := some (g, true) }
    else none
  | .keep g =>
    if s.disposing = some (g, true) then some { s with disposing := none } else none
  | .finish g =>
    if s.disposing = some (g, true) then
      some { s with disposing := none, retired := s.retired.erase g }
    else none
  | .discard g =>
    if s.disposing = some (g, false) then
      some { s with disposing := none, retired := s.retired.erase g }
    else none

/-- The item `g` has left the retired ones. -/
def remove (s : Lifecycle) (g : ℕ) : Lifecycle :=
  { s with disposing := none, retired := s.retired.erase g }

@[simp] theorem disposing_remove (s : Lifecycle) (g : ℕ) : (s.remove g).disposing = none := rfl

/-- **What an act can do**: what it has checked, and the holder it leaves. -/
inductive Stepped (s : Lifecycle) : Act → Lifecycle → Prop
  | spawn (hc : s.closed = false) (hp : s.pending = none) :
      Stepped s .spawn { s with born := s.born + 1, pending := some s.born }
  | adopt (g : ℕ) (hc : s.closed = false) (hp : s.pending = some g) :
      Stepped s (.adopt g) { s with pending := none, active := some g,
                                    retired := s.retired ++ s.active.toList }
  | reject (g : ℕ) (hp : s.pending = some g) :
      Stepped s (.reject g) { s with pending := none, retired := s.retired ++ [g] }
  | abandon (g : ℕ) (hp : s.pending = some g) : Stepped s (.abandon g) { s with pending := none }
  | lend (g : ℕ) (ha : s.active = some g) :
      Stepped s (.lend g) { s with loans := Function.update s.loans g (s.loans g + 1) }
  | giveBack (g : ℕ) (hg : s.loans g ≠ 0) :
      Stepped s (.giveBack g) { s with loans := Function.update s.loans g (s.loans g - 1) }
  | close : Stepped s .close { s with closed := true, active := none,
                                      retired := s.retired ++ s.active.toList }
  | choose (g : ℕ) (hd : s.disposing = none) (hr : g ∈ s.retired) (hl : s.loans g = 0) :
      Stepped s (.choose g) { s with disposing := some (g, false) }
  | start (g : ℕ) (hd : s.disposing = some (g, false)) :
      Stepped s (.start g) { s with disposing := some (g, true) }
  | keep (g : ℕ) (hd : s.disposing = some (g, true)) :
      Stepped s (.keep g) { s with disposing := none }
  | finish (g : ℕ) (hd : s.disposing = some (g, true)) : Stepped s (.finish g) (s.remove g)
  | discard (g : ℕ) (hd : s.disposing = some (g, false)) : Stepped s (.discard g) (s.remove g)

variable {a : Act}

/-- Every proof about acts splits here, and never unfolds `step`. -/
theorem stepped {s s' : Lifecycle} (hs : s.step a = some s') : Stepped s a s' := by
  cases a with
  | close =>
    cases hs
    constructor
  | spawn | adopt =>
    obtain ⟨⟨h1, h2⟩, h⟩ := Option.ite_none_right_eq_some.mp hs
    cases h
    constructor
    · exact h1
    · exact h2
  | choose g =>
    obtain ⟨⟨h1, h2, h3⟩, h⟩ := Option.ite_none_right_eq_some.mp hs
    cases h
    exact .choose g h1 h2 h3
  | reject | abandon | lend | giveBack | start | keep | finish | discard =>
    obtain ⟨h1, h⟩ := Option.ite_none_right_eq_some.mp hs
    cases h
    constructor
    exact h1

/-- The holder that owns nothing. -/
def init : Lifecycle := ⟨0, none, none, [], none, fun _ => 0, false⟩

/-- **The holder as a machine.** -/
def machine : Machine Lifecycle Act := ⟨init, step⟩

/-! ## The slots -/

/-- Every place an item can be in, in one list. -/
def slots (s : Lifecycle) : List ℕ := s.pending.toList ++ s.active.toList ++ s.retired

theorem mem_slots {s : Lifecycle} {g : ℕ} :
    g ∈ s.slots ↔ s.pending = some g ∨ s.active = some g ∨ g ∈ s.retired := by
  unfold slots
  rw [List.mem_append, List.mem_append, Option.mem_toList, Option.mem_toList, or_assoc]

/-- **What holds of every holder**: an item is in one place, the places
hold items that exist, loans are on items in use or retired, and the item
being disposed of is retired and not on loan. -/
structure Inv (s : Lifecycle) : Prop where
  nodup : s.slots.Nodup
  bound : ∀ g ∈ s.slots, g < s.born
  held : ∀ g, s.loans g ≠ 0 → s.active = some g ∨ g ∈ s.retired
  chosen : ∀ g r, s.disposing = some (g, r) → g ∈ s.retired ∧ s.loans g = 0
  closed : s.closed = true → s.active = none
  newest : ∀ g, s.pending = some g → g + 1 = s.born

theorem inv_init : Inv init where
  nodup := List.nodup_nil
  bound := nofun
  held := fun _ hg => absurd rfl hg
  chosen := nofun
  closed := nofun
  newest := nofun

variable {s s' : Lifecycle} {g : ℕ}

theorem Inv.not_mem_of_pending (h : Inv s) (hp : s.pending = some g) :
    s.active ≠ some g ∧ g ∉ s.retired := by
  have hn := h.nodup
  unfold slots at hn
  rw [hp, List.append_assoc, Option.toList_some, List.singleton_append,
    List.nodup_cons, List.mem_append, Option.mem_toList] at hn
  exact ⟨fun ha => hn.1 (.inl ha), fun hr => hn.1 (.inr hr)⟩

theorem Inv.not_mem_of_active (h : Inv s) (ha : s.active = some g) : g ∉ s.retired := by
  have hn := h.nodup
  unfold slots at hn
  rw [List.append_assoc, ha, Option.toList_some, List.singleton_append] at hn
  exact (List.nodup_cons.mp (List.nodup_append.mp hn).2.1).1

theorem slots_spawn (hp : s.pending = none) :
    ({ s with born := s.born + 1, pending := some s.born } : Lifecycle).slots
      = s.born :: s.slots := by
  unfold slots
  rw [hp]
  rfl

/-- **Only `spawn` takes a new place**: any other act moves items between
the places they have, or clears one. -/
theorem subperm_of_step (hs : s.step a = some s') (ha : a ≠ .spawn) :
    s'.slots.Subperm s.slots ∧ s'.born = s.born := by
  cases stepped hs with
  | spawn => exact absurd rfl ha
  | adopt g hc hp =>
    refine ⟨List.Perm.subperm ?_, rfl⟩
    show (g :: (s.retired ++ s.active.toList)).Perm s.slots
    unfold slots
    rw [hp, List.append_assoc]
    exact List.perm_append_comm.cons g
  | reject g hp =>
    refine ⟨List.Perm.subperm ?_, rfl⟩
    show (s.active.toList ++ (s.retired ++ [g])).Perm s.slots
    unfold slots
    rw [hp, ← List.append_assoc, List.append_assoc _ s.active.toList]
    exact List.perm_append_comm
  | abandon =>
    refine ⟨List.Sublist.subperm ?_, rfl⟩
    show (s.active.toList ++ s.retired).Sublist s.slots
    unfold slots
    rw [List.append_assoc]
    exact List.sublist_append_right _ _
  | close =>
    refine ⟨List.Perm.subperm ?_, rfl⟩
    show (s.pending.toList ++ [] ++ (s.retired ++ s.active.toList)).Perm s.slots
    unfold slots
    rw [List.append_nil, List.append_assoc]
    exact List.perm_append_comm.append_left _
  | finish | discard => exact ⟨(List.erase_sublist.append_left _).subperm, rfl⟩
  | lend | giveBack | choose | start | keep => exact ⟨List.Subperm.refl _, rfl⟩

theorem Inv.placed (h : Inv s) (hs : s.step a = some s') :
    s'.slots.Nodup ∧ ∀ g ∈ s'.slots, g < s'.born := by
  by_cases ha : a = .spawn
  · subst ha
    cases stepped hs with
    | spawn hc hp =>
      rw [slots_spawn hp]
      refine ⟨List.nodup_cons.mpr ⟨fun hm => lt_irrefl _ (h.bound _ hm), h.nodup⟩, fun g hg => ?_⟩
      obtain rfl | hg := List.mem_cons.mp hg
      · exact Nat.lt_add_one _
      · exact Nat.lt_succ_of_lt (h.bound g hg)
  · obtain ⟨⟨l, hp, hl⟩, hb⟩ := subperm_of_step hs ha
    rw [hb]
    exact ⟨hp.nodup_iff.mp (h.nodup.sublist hl),
      fun g hg => h.bound g (hl.subset (hp.mem_iff.mpr hg))⟩

/-- The loans of an item in use or retired change, and nobody disposes of
it. -/
theorem Inv.setLoans (h : Inv s) (hg : s.active = some g ∨ g ∈ s.retired)
    (hd : ∀ r, s.disposing ≠ some (g, r)) (n : ℕ) :
    Inv { s with loans := Function.update s.loans g n } := by
  refine ⟨h.nodup, h.bound, fun x hx => ?_, fun x r hx => ?_, h.closed, h.newest⟩
  · by_cases hxg : x = g
    · exact hxg ▸ hg
    · exact h.held x (fun hz => hx ((Function.update_of_ne hxg _ _).trans hz))
  · obtain ⟨hr, hl⟩ := h.chosen x r hx
    refine ⟨hr, (Function.update_of_ne ?_ _ _).trans hl⟩
    rintro rfl
    exact hd r hx

/-- **Every act keeps the invariant.** -/
theorem Inv.step (h : Inv s) (hs : s.step a = some s') : Inv s' := by
  obtain ⟨hn, hb⟩ := h.placed hs
  have hheld (x : ℕ) (hx : s.loans x ≠ 0) : x ∈ s.retired ++ s.active.toList := by
    rw [List.mem_append, Option.mem_toList]
    exact (h.held x hx).symm
  have hchosen (l : List ℕ) (x : ℕ) (r : Bool) (hx : s.disposing = some (x, r)) :
      x ∈ s.retired ++ l ∧ s.loans x = 0 :=
    (h.chosen x r hx).imp_left (List.mem_append_left _)
  have hremove {g : ℕ} (hl : s.loans g = 0) (x : ℕ) (hx : s.loans x ≠ 0) :
      s.active = some x ∨ x ∈ s.retired.erase g := by
    refine (h.held x hx).imp_right (List.mem_erase_of_ne ?_).mpr
    rintro rfl
    exact hx hl
  cases stepped hs with
  | spawn =>
    exact ⟨hn, hb, h.held, h.chosen, h.closed,
      fun x hx => congrArg Nat.succ (Option.some.inj hx).symm⟩
  | adopt g hc =>
    refine ⟨hn, hb, fun x hx => .inr (hheld x hx), hchosen _, fun hcl => ?_, nofun⟩
    exact nomatch hc.symm.trans hcl
  | reject =>
    exact ⟨hn, hb, fun x hx => (h.held x hx).imp_right (List.mem_append_left _), hchosen _,
      h.closed, nofun⟩
  | abandon => exact ⟨hn, hb, h.held, h.chosen, h.closed, nofun⟩
  | lend g ha =>
    exact h.setLoans (.inl ha) (fun r hd => h.not_mem_of_active ha (h.chosen g r hd).1) _
  | giveBack g hg =>
    exact h.setLoans (h.held g hg) (fun r hd => hg (h.chosen g r hd).2) _
  | close =>
    exact ⟨hn, hb, fun x hx => .inr (hheld x hx), hchosen _, fun _ => rfl, h.newest⟩
  | choose g hd hr hl =>
    refine ⟨hn, hb, h.held, fun x r hx => ?_, h.closed, h.newest⟩
    cases hx
    exact ⟨hr, hl⟩
  | start g hd =>
    refine ⟨hn, hb, h.held, fun x r hx => ?_, h.closed, h.newest⟩
    cases hx
    exact h.chosen _ _ hd
  | keep => exact ⟨hn, hb, h.held, nofun, h.closed, h.newest⟩
  | finish g hd | discard g hd =>
    exact ⟨hn, hb, hremove (h.chosen _ _ hd).2, nofun, h.closed, h.newest⟩

variable {as : List Act}

theorem Inv.exec (h : Inv s) (he : machine.exec s as = some s') : Inv s' := by
  induction as generalizing s with
  | nil =>
    cases he
    exact h
  | cons a as ih =>
    obtain ⟨t, ha, he⟩ := Option.bind_eq_some_iff.mp he
    exact ih (h.step ha) he

variable {tr : List Act}

theorem inv_of_run (hr : machine.Run tr s) : Inv s := inv_init.exec hr

/-! ## The stages of an item -/

/-- Where an item is in its life. -/
inductive Stage where
  | unborn
  | pending
  | active
  | retired
  | gone
deriving DecidableEq

/-- The stages in order. -/
def Stage.rank : Stage → ℕ
  | .unborn => 0
  | .pending => 1
  | .active => 2
  | .retired => 3
  | .gone => 4

/-- The stage of an item. -/
def stage (s : Lifecycle) (g : ℕ) : Stage :=
  if s.born ≤ g then .unborn
  else if s.pending = some g then .pending
  else if s.active = some g then .active
  else if g ∈ s.retired then .retired
  else .gone

section

variable (h : Inv s)
include h

theorem stage_of_pending (hp : s.pending = some g) : s.stage g = .pending := by
  unfold stage
  rw [if_neg (not_le.mpr (h.bound g (mem_slots.mpr (.inl hp)))), if_pos hp]

theorem stage_of_active (ha : s.active = some g) : s.stage g = .active := by
  unfold stage
  rw [if_neg (not_le.mpr (h.bound g (mem_slots.mpr (.inr (.inl ha))))),
    if_neg (fun hp => (h.not_mem_of_pending hp).1 ha), if_pos ha]

theorem stage_of_retired (hr : g ∈ s.retired) : s.stage g = .retired := by
  unfold stage
  rw [if_neg (not_le.mpr (h.bound g (mem_slots.mpr (.inr (.inr hr))))),
    if_neg (fun hp => (h.not_mem_of_pending hp).2 hr),
    if_neg (fun ha => h.not_mem_of_active ha hr), if_pos hr]

omit h in
/-- An item that exists and is in no place is gone. -/
theorem stage_of_not_mem (hb : g < s.born) (hm : g ∉ s.slots) : s.stage g = .gone := by
  rw [mem_slots, not_or, not_or] at hm
  unfold stage
  rw [if_neg (not_le.mpr hb), if_neg hm.1, if_neg hm.2.1, if_neg hm.2.2]

theorem stage_eq_active_iff : s.stage g = .active ↔ s.active = some g := by
  refine ⟨fun hs => ?_, stage_of_active h⟩
  unfold stage at hs
  split_ifs at hs with h1 h2 h3 h4
  exact h3

theorem stage_eq_retired_iff : s.stage g = .retired ↔ g ∈ s.retired := by
  refine ⟨fun hs => ?_, stage_of_retired h⟩
  unfold stage at hs
  split_ifs at hs with h1 h2 h3 h4
  exact h4

theorem not_mem_slots_of_gone (hs : s.stage g = .gone) : g ∉ s.slots := by
  intro hm
  obtain hp | ha | hr := mem_slots.mp hm
  · rw [stage_of_pending h hp] at hs
    exact nomatch hs
  · rw [stage_of_active h ha] at hs
    exact nomatch hs
  · rw [stage_of_retired h hr] at hs
    exact nomatch hs

/-- **What moving forward asks of a step**: an item in a later place came
from an earlier one, or from the same. -/
theorem rank_le_of_forward (h' : Inv s') (hborn : s.born ≤ s'.born)
    (hp : s'.pending = some g → s.pending = some g ∨ s.born ≤ g)
    (ha : s'.active = some g → s.pending = some g ∨ s.active = some g)
    (hr : g ∈ s'.retired → g ∈ s.slots) : (s.stage g).rank ≤ (s'.stage g).rank := by
  by_cases hb : s.born ≤ g
  · rw [show s.stage g = .unborn from if_pos hb]
    exact Nat.zero_le _
  have hb' : g < s'.born := lt_of_lt_of_le (not_le.mp hb) hborn
  by_cases hm : g ∈ s'.slots
  · obtain hp' | ha' | hr' := mem_slots.mp hm
    · rw [stage_of_pending h' hp', stage_of_pending h ((hp hp').resolve_right hb)]
    · rw [stage_of_active h' ha']
      obtain hs | hs := ha ha'
      · rw [stage_of_pending h hs]
        decide
      · rw [stage_of_active h hs]
    · rw [stage_of_retired h' hr']
      obtain hs | hs | hs := mem_slots.mp (hr hr')
      · rw [stage_of_pending h hs]
        decide
      · rw [stage_of_active h hs]
        decide
      · rw [stage_of_retired h hs]
  · rw [stage_of_not_mem hb' hm]
    cases s.stage g with
    | unborn | pending | active | retired | gone => decide

/-- **An item only moves forward.** No act takes an item back to an earlier
stage: that is the whole content of the discipline, and what makes a
released item unreachable. -/
theorem rank_stage_le (hs : s.step a = some s') (g : ℕ) : (s.stage g).rank ≤ (s'.stage g).rank := by
  have h' : Inv s' := h.step hs
  have hretired : g ∈ s.retired ++ s.active.toList → g ∈ s.slots := by
    rw [List.mem_append, Option.mem_toList, mem_slots]
    rintro (hr | ha)
    · exact .inr (.inr hr)
    · exact .inr (.inl ha)
  cases stepped hs with
  | spawn =>
    refine rank_le_of_forward h h' (Nat.le_succ _) (fun hp => .inr ?_) .inr
      (fun hr => mem_slots.mpr (.inr (.inr hr)))
    exact (Option.some.inj hp).le
  | adopt x hc hp =>
    refine rank_le_of_forward h h' le_rfl nofun
      (fun ha => .inl (hp.trans ha)) hretired
  | reject x hp =>
    refine rank_le_of_forward h h' le_rfl nofun .inr
      (fun hr => mem_slots.mpr ?_)
    obtain hr | hx := List.mem_append.mp hr
    · exact .inr (.inr hr)
    · obtain rfl := List.mem_singleton.mp hx
      exact .inl hp
  | abandon =>
    exact rank_le_of_forward h h' le_rfl nofun .inr
      (fun hr => mem_slots.mpr (.inr (.inr hr)))
  | close =>
    exact rank_le_of_forward h h' le_rfl .inl nofun hretired
  | finish | discard =>
    exact rank_le_of_forward h h' le_rfl .inl .inr
      (fun hr => mem_slots.mpr (.inr (.inr (List.mem_of_mem_erase hr))))
  | lend | giveBack | choose | start | keep =>
    -- these acts move no item
    exact le_rfl

omit h in
/-- Along any execution an item only moves forward. -/
theorem rank_stage_le_of_exec {tr' : List Act} (hr : machine.Run tr s)
    (he : machine.exec s tr' = some s') (g : ℕ) : (s.stage g).rank ≤ (s'.stage g).rank :=
  hr.exec_rel (R := fun s s' => (s.stage g).rank ≤ (s'.stage g).rank)
    (fun _ => le_rfl) le_trans (fun hr hs => rank_stage_le (inv_of_run hr) hs g) he

omit h in
/-- **An item that has left the active slot never returns to it.** -/
theorem not_active_again {tr' tr'' : List Act} {t u : Lifecycle} (hr : machine.Run tr s)
    (ha : s.active = some g) (he : machine.exec s tr' = some t) (ht : t.active ≠ some g)
    (he' : machine.exec t tr'' = some u) : u.active ≠ some g := by
  have hrt := hr.append he
  have h1 : 2 ≤ (t.stage g).rank := by
    have := rank_stage_le_of_exec hr he g
    rwa [stage_of_active (inv_of_run hr) ha] at this
  have h2 : (t.stage g).rank ≠ 2 := by
    intro hc
    refine ht ((stage_eq_active_iff (inv_of_run hrt)).mp ?_)
    cases hst : t.stage g with
    | active => rfl
    | unborn | pending | retired | gone =>
      rw [hst] at hc
      exact nomatch hc
  have h3 := rank_stage_le_of_exec hrt he' g
  intro hu
  rw [stage_of_active (inv_of_run (hrt.append he')) hu] at h3
  exact h2 (le_antisymm h3 h1)

/-! ## What a history says of an item

The acts executed so far determine how far an item has come: a built item
is owned or was disposed of, and an item whose disposal was started can no
longer be on loan. -/

/-- The item was built: put in use, or retired unused. -/
def Built (g : ℕ) (as : List Act) : Prop := .adopt g ∈ as ∨ .reject g ∈ as

/-- The item was disposed of. -/
def Disposed (g : ℕ) (as : List Act) : Prop := .finish g ∈ as ∨ .discard g ∈ as

theorem stage_of_adopt (hs : s.step (.adopt g) = some s') : s'.stage g = .active := by
  refine stage_of_active (h.step hs) ?_
  cases stepped hs with
  | adopt => rfl

theorem stage_of_reject (hs : s.step (.reject g) = some s') : s'.stage g = .retired := by
  refine stage_of_retired (h.step hs) ?_
  cases stepped hs with
  | reject g => exact List.mem_append_right _ (List.mem_singleton_self g)

omit h in
theorem pending_of_built (ha : a = .adopt g ∨ a = .reject g ∨ a = .abandon g)
    (hs : s.step a = some s') : s.pending = some g := by
  obtain rfl | rfl | rfl := ha
  · exact (Option.ite_none_right_eq_some.mp hs).1.2
  all_goals exact (Option.ite_none_right_eq_some.mp hs).1

theorem stage_of_abandon (hs : s.step (.abandon g) = some s') : s'.stage g = .gone := by
  cases stepped hs with
  | abandon g hp =>
    refine stage_of_not_mem (h.bound g (mem_slots.mpr (.inl hp))) ?_
    rw [mem_slots, not_or, not_or]
    exact ⟨nofun, h.not_mem_of_pending hp⟩

theorem stage_of_remove (hg : g ∈ s.retired) : (s.remove g).stage g = .gone := by
  have hm : g ∈ s.slots := mem_slots.mpr (.inr (.inr hg))
  refine stage_of_not_mem (h.bound g hm) ?_
  rw [mem_slots, not_or, not_or]
  refine ⟨fun hp => (h.not_mem_of_pending hp).2 hg, fun ha => h.not_mem_of_active ha hg, ?_⟩
  exact (List.nodup_append.mp h.nodup).2.1.not_mem_erase

omit h in
theorem stage_of_disposal (ha : a = .finish g ∨ a = .discard g) (h : Inv s)
    (hs : s.step a = some s') : s'.stage g = .gone := by
  obtain rfl | rfl := ha
  · cases stepped hs with
    | finish g hd => exact stage_of_remove h (h.chosen _ _ hd).1
  · cases stepped hs with
    | discard g hd => exact stage_of_remove h (h.chosen _ _ hd).1

omit h in
theorem stage_eq_gone (hr : 4 ≤ (s.stage g).rank) : s.stage g = .gone := by
  cases hst : s.stage g with
  | gone => rfl
  | unborn | pending | active | retired =>
    rw [hst] at hr
    exact nomatch hr

theorem gone_of_step (hs : s.step a = some s') (hg : s.stage g = .gone) : s'.stage g = .gone := by
  have hle := rank_stage_le h hs g
  rw [hg] at hle
  exact stage_eq_gone hle

theorem Inv.gone_of_exec (he : machine.exec s as = some s') (hg : s.stage g = .gone) :
    s'.stage g = .gone := by
  induction as generalizing s with
  | nil =>
    cases he
    exact hg
  | cons a as ih =>
    obtain ⟨t, ha, he⟩ := Option.bind_eq_some_iff.mp he
    exact ih (h.step ha) he (gone_of_step h ha hg)

/-- **An item goes by three acts only.** -/
theorem of_stage_gone (hs : s.step a = some s') (hg : s'.stage g = .gone) :
    s.stage g = .gone ∨ a = .abandon g ∨ a = .finish g ∨ a = .discard g := by
  have hn := not_mem_slots_of_gone (h.step hs) hg
  have hb' : ¬ s'.born ≤ g := by
    intro hle
    rw [show s'.stage g = .unborn from if_pos hle] at hg
    exact nomatch hg
  have hstay (hb : s'.born = s.born) (hsub : g ∈ s.slots → g ∈ s'.slots) :
      s.stage g = .gone :=
    stage_of_not_mem (hb ▸ not_le.mp hb') (fun hm => hn (hsub hm))
  cases stepped hs with
  | spawn hc hp =>
    rw [mem_slots, not_or, not_or] at hn
    left
    refine stage_of_not_mem (lt_of_le_of_ne (Nat.lt_succ_iff.mp (not_le.mp hb')) ?_) ?_
    · rintro rfl
      exact hn.1 rfl
    · rw [mem_slots, not_or, not_or, hp]
      exact ⟨nofun, hn.2⟩
  | adopt x hc hp =>
    refine .inl (hstay rfl fun hm => mem_slots.mpr ?_)
    obtain h1 | h1 | h1 := mem_slots.mp hm
    · exact .inr (.inl (hp.symm.trans h1))
    · exact .inr (.inr (List.mem_append_right _ (Option.mem_toList.mpr h1)))
    · exact .inr (.inr (List.mem_append_left _ h1))
  | reject x hp =>
    refine .inl (hstay rfl fun hm => mem_slots.mpr ?_)
    obtain h1 | h1 | h1 := mem_slots.mp hm
    · cases hp.symm.trans h1
      exact .inr (.inr (List.mem_append_right _ (.head _)))
    · exact .inr (.inl h1)
    · exact .inr (.inr (List.mem_append_left _ h1))
  | abandon x hp =>
    by_cases hx : x = g
    · exact .inr (.inl (congrArg Act.abandon hx))
    · refine .inl (hstay rfl fun hm => mem_slots.mpr ?_)
      obtain h1 | h1 := mem_slots.mp hm
      · exact absurd (Option.some.inj (hp.symm.trans h1)) hx
      · exact .inr h1
  | close =>
    refine .inl (hstay rfl fun hm => mem_slots.mpr ?_)
    obtain h1 | h1 | h1 := mem_slots.mp hm
    · exact .inl h1
    · exact .inr (.inr (List.mem_append_right _ (Option.mem_toList.mpr h1)))
    · exact .inr (.inr (List.mem_append_left _ h1))
  | finish x | discard x =>
    by_cases hx : x = g
    · subst hx
      simp
    · refine .inl (hstay rfl fun hm => mem_slots.mpr ?_)
      exact (mem_slots.mp hm).imp_right (Or.imp_right (List.mem_erase_of_ne (Ne.symm hx)).mpr)
  | lend | giveBack | choose | start | keep => exact .inl (hstay rfl id)

/-- An item past the active slot that is not on loan is never lent again. -/
theorem loans_of_step (hs : s.step a = some s') (hr : 3 ≤ (s.stage g).rank) (hl : s.loans g = 0) :
    s'.loans g = 0 := by
  cases stepped hs with
  | lend x ha =>
    have hx : g ≠ x := by
      rintro rfl
      rw [stage_of_active h ha] at hr
      exact nomatch hr
    exact (Function.update_of_ne hx _ _).trans hl
  | giveBack x hx =>
    refine (Function.update_of_ne ?_ _ _).trans hl
    rintro rfl
    exact hx hl
  | close | spawn | adopt | reject | abandon | choose | start | keep | finish | discard =>
    exact hl

end

/-- **What the history of an item says of the present.** -/
structure History (g : ℕ) (as : List Act) (s : Lifecycle) : Prop where
  built : Built g as → 2 ≤ (s.stage g).rank
  disposed : Disposed g as → s.stage g = .gone
  abandoned : .abandon g ∈ as → s.stage g = .gone ∧ ¬ Built g as
  gone : s.stage g = .gone → .abandon g ∈ as ∨ Disposed g as
  started : .start g ∈ as → s.loans g = 0 ∧ 3 ≤ (s.stage g).rank

theorem built_concat : Built g (as ++ [a]) ↔ Built g as ∨ a = .adopt g ∨ a = .reject g := by
  unfold Built
  simp only [List.mem_append, List.mem_singleton, eq_comm]
  tauto

theorem disposed_concat :
    Disposed g (as ++ [a]) ↔ Disposed g as ∨ a = .finish g ∨ a = .discard g := by
  unfold Disposed
  simp only [List.mem_append, List.mem_singleton, eq_comm]
  tauto

theorem History.step (hist : History g as s) (h : Inv s) (hs : s.step a = some s') :
    History g (as ++ [a]) s' where
  built := by
    rw [built_concat]
    rintro (hb | rfl | rfl)
    · exact (hist.built hb).trans (rank_stage_le h hs g)
    · rw [stage_of_adopt h hs]
      decide
    · rw [stage_of_reject h hs]
      decide
  disposed := by
    rw [disposed_concat]
    rintro (hd | ha)
    · exact gone_of_step h hs (hist.disposed hd)
    · exact stage_of_disposal ha h hs
  abandoned := by
    rw [List.mem_append, List.mem_singleton, built_concat, not_or]
    rintro (ha | rfl)
    · obtain ⟨hg, hn⟩ := hist.abandoned ha
      refine ⟨gone_of_step h hs hg, hn, fun hb => ?_⟩
      -- a gone item is not pending, so it is not built now
      have hp := pending_of_built (hb.imp_right .inl) hs
      rw [stage_of_pending h hp] at hg
      exact nomatch hg
    · refine ⟨stage_of_abandon h hs, fun hb => ?_, by simp⟩
      have hr := hist.built hb
      rw [stage_of_pending h (pending_of_built (.inr (.inr rfl)) hs)] at hr
      exact nomatch hr
  gone := by
    intro hg
    rw [List.mem_append, List.mem_singleton, disposed_concat]
    obtain h1 | h1 | h1 := of_stage_gone h hs hg
    · exact (hist.gone h1).imp .inl .inl
    · exact .inl (.inr h1.symm)
    · exact .inr (.inr h1)
  started := by
    rw [List.mem_append, List.mem_singleton]
    rintro (ha | rfl)
    · obtain ⟨hl, hr⟩ := hist.started ha
      exact ⟨loans_of_step h hs hr hl, hr.trans (rank_stage_le h hs g)⟩
    · have hle := rank_stage_le h hs g
      obtain ⟨hd, rfl⟩ := of_guard hs
      obtain ⟨hg, hl⟩ := h.chosen _ _ hd
      rw [stage_of_retired h hg] at hle
      exact ⟨hl, hle⟩

theorem history_of_run (hr : machine.Run as s) (g : ℕ) : History g as s := by
  refine hr.invariant ⟨?_, ?_, ?_, ?_, ?_⟩
    (fun hr hist hs => hist.step (inv_of_run hr) hs)
  · exact nofun
  · exact nofun
  · exact nofun
  · exact nofun
  · exact nofun

/-- **A built item is owned in one place, or was disposed of**, and never
both. -/
theorem owned_or_disposed (hr : machine.Run as s) (hb : Built g as) :
    ((s.active.toList ++ s.retired).count g = 1 ∧ ¬ Disposed g as)
      ∨ (g ∉ s.slots ∧ Disposed g as) := by
  have h := inv_of_run hr
  have hist := history_of_run hr g
  by_cases hd : Disposed g as
  · exact .inr ⟨not_mem_slots_of_gone h (hist.disposed hd), hd⟩
  · refine .inl ⟨?_, hd⟩
    have hrank := hist.built hb
    have hmem : s.active = some g ∨ g ∈ s.retired := by
      cases hst : s.stage g with
      | unborn | pending =>
        rw [hst] at hrank
        exact nomatch hrank
      | active => exact .inl ((stage_eq_active_iff h).mp hst)
      | retired => exact .inr ((stage_eq_retired_iff h).mp hst)
      | gone =>
        obtain ha | hc := hist.gone hst
        · exact absurd hb (hist.abandoned ha).2
        · exact absurd hc hd
    refine List.count_eq_one_of_mem ?_ ?_
    · have hn := h.nodup
      unfold slots at hn
      rw [List.append_assoc] at hn
      exact (List.nodup_append.mp hn).2.1
    · rw [List.mem_append, Option.mem_toList]
      exact hmem

/-- The acts of a disposal. -/
def Act.disposal : Act → Bool
  | .start _ | .keep _ | .finish _ | .discard _ => true
  | _ => false

/-- The acts that end a running disposal of `g`. -/
def Act.ends (g : ℕ) : Act → Bool
  | .keep x | .finish x => x = g
  | _ => false

/-- **A disposal runs at most once at a time**: each start has ended, one
apart if a disposal of the item is running. -/
theorem count_start (hr : machine.Run as s) (g : ℕ) :
    as.countP (· = .start g) = as.countP (Act.ends g)
      + if s.disposing = some (g, true) then 1 else 0 := by
  refine hr.invariant (I := fun as s => as.countP (· = .start g) = as.countP (Act.ends g)
    + if s.disposing = some (g, true) then 1 else 0) rfl ?_
  intro as s a s' _ ih hs
  simp only [List.countP_append, List.countP_singleton, Act.ends]
  cases stepped hs with
  | close | spawn | adopt | reject | abandon | lend | giveBack => simpa using ih
  | choose x hd | discard x hd =>
    rw [hd] at ih
    simpa using ih
  | start x hd =>
    rw [hd] at ih
    by_cases hx : x = g
    all_goals simpa [hx] using ih
  | keep x hd | finish x hd =>
    rw [hd] at ih
    -- the attempt that was running has become one that has ended
    by_cases hx : x = g
    · simp only [hx, if_true] at ih
      simp [hx]
      omega
    · simpa [hx] using ih

/-- **The items in use come in order.** -/
theorem active_le {as' : List Act} {g' : ℕ} (hr : machine.Run as s)
    (he : machine.exec s as' = some s') (ha : s.active = some g) (ha' : s'.active = some g') :
    g ≤ g' := by
  have h := inv_of_run hr
  have hrank := rank_stage_le_of_exec hr he g'
  rw [stage_of_active (inv_of_run (hr.append he)) ha'] at hrank
  by_contra hlt
  have hg : g < s.born := h.bound g (mem_slots.mpr (.inr (.inl ha)))
  -- an older item than the active one is past the active slot
  have hst : s.stage g' ≠ .unborn ∧ s.stage g' ≠ .pending ∧ s.stage g' ≠ .active := by
    refine ⟨fun hc => ?_, fun hc => ?_, fun hc => ?_⟩
    · unfold stage at hc
      split_ifs at hc with h1
      omega
    · unfold stage at hc
      split_ifs at hc with h1 h2
      have := h.newest g' h2
      omega
    · cases ha.symm.trans ((stage_eq_active_iff h).mp hc)
      exact hlt le_rfl
  cases hs : s.stage g' with
  | unborn => exact hst.1 hs
  | pending => exact hst.2.1 hs
  | active => exact hst.2.2 hs
  | retired | gone =>
    rw [hs] at hrank
    exact nomatch hrank

/-! ## How much a holder holds

Two acts take something: `spawn` a place and `lend` a loan, one each. So a
holder that tests its limits before these two keeps them for good, and a
test for equality is enough. -/

/-- The loans on the items that have a place. -/
def owed (s : Lifecycle) : ℕ := (s.slots.map s.loans).sum

/-- An item being built is not on loan. -/
theorem owed_eq (h : Inv s) : s.owed = ((s.active.toList ++ s.retired).map s.loans).sum := by
  unfold owed slots
  rw [List.append_assoc, List.map_append, List.sum_append]
  cases hp : s.pending with
  | none => exact Nat.zero_add _
  | some g =>
    obtain ⟨ha, hr⟩ := h.not_mem_of_pending hp
    have hz : s.loans g = 0 := not_ne_iff.mp (fun hc => (h.held g hc).elim ha hr)
    show s.loans g + 0 + _ = _
    rw [hz, Nat.zero_add]

theorem sum_map_update {l : List ℕ} (f : ℕ → ℕ) (hn : l.Nodup) (hg : g ∈ l) (n : ℕ) :
    (l.map (Function.update f g n)).sum + f g = (l.map f).sum + n := by
  have hp := List.perm_cons_erase hg
  have hrest : (l.erase g).map (Function.update f g n) = (l.erase g).map f := by
    refine List.map_congr_left (fun x hx => Function.update_of_ne ?_ _ _)
    rintro rfl
    exact hn.not_mem_erase hx
  rw [(hp.map _).sum_eq, (hp.map f).sum_eq, List.map_cons, List.map_cons, List.sum_cons,
    List.sum_cons, hrest, Function.update_self]
  omega

/-- **A loan is one more.** -/
theorem owed_lend (h : Inv s) (hs : s.step (.lend g) = some s') : s'.owed = s.owed + 1 := by
  cases stepped hs with
  | lend g ha =>
    have hsum := sum_map_update s.loans h.nodup (mem_slots.mpr (.inr (.inl ha)))
      (s.loans g + 1)
    show (s.slots.map (Function.update s.loans g _)).sum = (s.slots.map s.loans).sum + 1
    omega

/-- **No other act adds a loan.** -/
theorem owed_le (h : Inv s) (hs : s.step a = some s') (ha : ∀ g, a ≠ .lend g) :
    s'.owed ≤ s.owed := by
  have hmove (hl : s'.loans = s.loans) (hp : s'.slots.Subperm s.slots) : s'.owed ≤ s.owed := by
    obtain ⟨l, hperm, hsub⟩ := hp
    unfold owed
    rw [hl, ← (hperm.map s.loans).sum_eq]
    exact (hsub.map s.loans).sum_le_sum (fun _ _ => Nat.zero_le _)
  have hsub := subperm_of_step hs
  cases stepped hs with
  | spawn hc hp =>
    -- the new item has no place yet, so nobody can have borrowed it
    have hz : s.loans s.born = 0 := by
      refine not_ne_iff.mp (fun hne => lt_irrefl _ (h.bound _ ?_))
      exact mem_slots.mpr (.inr (h.held _ hne))
    unfold owed
    rw [slots_spawn hp, List.map_cons, List.sum_cons]
    exact (hz ▸ (Nat.zero_add _).le :)
  | lend g => exact absurd rfl (ha g)
  | giveBack g hg =>
    have hsum := sum_map_update s.loans h.nodup (mem_slots.mpr (.inr (h.held g hg)))
      (s.loans g - 1)
    show (s.slots.map (Function.update s.loans g _)).sum ≤ (s.slots.map s.loans).sum
    omega
  | adopt | reject | abandon | close | choose | start | keep | finish | discard =>
    exact hmove rfl (hsub nofun).1

end Lifecycle
