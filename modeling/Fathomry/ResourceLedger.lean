import Fathomry.ResourceBinding

/-!
# The ledger of a binding

A binding answers requests. Each `Apply` or `Retry` that asks for something new
puts a selection in force and hands its caller the selection's target, which is
settled later: by the next request, the constructor, or shutdown. The ledger is
the part of a binding this depends on.

`Ledger.Move` lists all that can happen to it: three moves that answer a
request, and the moves of `Ledger.Tick` that work it off. What the receipts
promise is proved here from the moves: every target but the desired one is
settled, an unsettled one is being worked on, a settled one never changes, and
success means that the active generation is what was asked for.
-/

namespace Resource

variable {ε V C T : Type}

/-! ## Settling -/

theorem Target.settled_settle (t : Target ε) (generation : ℕ) (err : Option (Err ε)) :
    (t.settle generation err).settled = true := by
  unfold Target.settle
  split_ifs with h
  · exact h
  · rfl

theorem Target.settle_of_settled {t : Target ε} (h : t.settled = true) (generation : ℕ)
    (err : Option (Err ε)) : t.settle generation err = t :=
  if_pos h

theorem Target.settle_of_not {t : Target ε} (h : ¬ t.settled = true) (generation : ℕ)
    (err : Option (Err ε)) :
    (t.settle generation err).generation = generation ∧ (t.settle generation err).err = err := by
  unfold Target.settle
  rw [if_neg h]
  exact ⟨rfl, rfl⟩

theorem Target.version_settle (t : Target ε) (generation : ℕ) (err : Option (Err ε)) :
    (t.settle generation err).version = t.version := by
  unfold Target.settle
  split_ifs
  · rfl
  · rfl

def Selection.settle (s : Selection ε C) (generation : ℕ) (err : Option (Err ε)) : Selection ε C :=
  { s with target := s.target.settle generation err }

/-! ## The ledger and its moves -/

/-- **The ledger.** -/
@[ext]
structure Ledger (ε C : Type) where
  /-- The selections, oldest first. -/
  selections : Heap (Selection ε C)
  /-- The selection in force. -/
  desired : Option ℕ
  /-- Whether a construction for it has still to be started. -/
  wanted : Bool
  version : ℕ
  /-- The version of the target last reached. -/
  applied : ℕ
  generation : ℕ
  /-- How many generations have been started. -/
  next : ℕ
  number : ℕ → ℕ
  /-- The selection each generation was started for. -/
  source : ℕ → ℕ
  pending : Option ℕ
  active : Option ℕ
  stopping : Bool

namespace Ledger

variable (o : Options ε V C) (L : Ledger ε C)

def target (p : ℕ) : Target ε := (L.selections.cell p).target

def value (p : ℕ) : C := (L.selections.cell p).value

def settled (p : ℕ) : Bool := (L.target p).settled

def settle (p generation : ℕ) (err : Option (Err ε)) : Ledger ε C :=
  { L with selections := L.selections.modify p (fun s => s.settle generation err) }

def settleDesired (err : Err ε) : Ledger ε C :=
  { L with
    selections := match L.desired with
      | some p => L.selections.modify p (fun s => s.settle 0 (some err))
      | none => L.selections }

def install (name : String) (value : C) : Ledger ε C :=
  { L with
    version := increment L.version
    selections := L.selections.alloc ⟨value, newTarget name (increment L.version)⟩
    desired := some L.selections.next
    wanted := true }

/-- Nothing has to be started, and the version `v` has been reached. -/
def idle (v : ℕ) : Ledger ε C := { L with wanted := false, applied := v }

def reuse (p g : ℕ) : Ledger ε C := (L.idle L.version).settle p (L.number g) none

def stop (err : Err ε) : Ledger ε C :=
  { L.settleDesired err with stopping := true, active := none }

def exhaust (p : ℕ) (err : Err ε) : Ledger ε C :=
  (L.idle L.applied).settle p 0 (some err)

def spawn (p : ℕ) : Ledger ε C :=
  { L with
    generation := increment L.generation
    next := L.next + 1
    number := Function.update L.number L.next (increment L.generation)
    source := Function.update L.source L.next p
    pending := some L.next
    wanted := false }

def drop : Ledger ε C := { L with pending := none }

/-- The generation `g` is in use, and the version `v` has been reached. -/
def activate (g v : ℕ) : Ledger ε C := { L with active := some g, applied := v }

/-- Put the pending generation `g` in use. -/
def adopt (g : ℕ) : Ledger ε C :=
  (L.drop.activate g (L.target (L.source g)).version).settle (L.source g) (L.number g) none

/-- **What happens to the ledger without a request**: the coordinator and
shutdown work off what has been asked for. -/
inductive Tick : Ledger ε C → Prop
  | quiet : Tick L
  | stop (err : Err ε) (hs : L.stopping = false) : Tick (L.stop err)
  | exhaust (p : ℕ) (err : Err ε) (hs : L.stopping = false) (hd : L.desired = some p) :
      Tick (L.exhaust p err)
  | spawn (p : ℕ) (hs : L.stopping = false) (hp : L.pending = none) (hd : L.desired = some p)
      (hg : L.generation ≠ maxUint64) : Tick (L.spawn p)
  | adopt (g : ℕ) (hs : L.stopping = false) (hp : L.pending = some g)
      (hd : L.desired = some (L.source g)) : Tick (L.adopt g)
  | fail (g : ℕ) (err : Err ε) (hs : L.stopping = false) (hp : L.pending = some g)
      (hd : L.desired = some (L.source g)) : Tick (L.drop.settle (L.source g) 0 (some err))
  | drop (g : ℕ) (hp : L.pending = some g)
      (hd : L.desired = some (L.source g) → L.stopping = true) : Tick L.drop

/-- **What can happen to the ledger**, with what has been checked. -/
inductive Move : Ledger ε C → Prop
  | tick {L' : Ledger ε C} (h : Tick L L') : Move L'
  | replace (err : Err ε) (name : String) (value : C) (hs : L.stopping = false)
      (hv : L.version ≠ maxUint64) (hf : o.policy = .fixed → L.desired = none) :
      Move ((L.settleDesired err).install name value)
  | reuse (err : Err ε) (name : String) (value : C) (g : ℕ) (hs : L.stopping = false)
      (hv : L.version ≠ maxUint64) (hf : o.policy = .fixed → L.desired = none)
      (ha : L.active = some g)
      (he : Binding.equal o (L.value (L.source g)) value = true) :
      Move (((L.settleDesired err).install name value).reuse L.selections.next g)
  | renew (name : String) (p : ℕ) (hs : L.stopping = false) (hv : L.version ≠ maxUint64)
      (hd : L.desired = some p) (hp : L.settled p = true) : Move (L.install name (L.value p))

/-! ### What the operations do to a selection -/

variable {o L}

@[simp] theorem target_settle_self (p generation : ℕ) (err : Option (Err ε)) :
    (L.settle p generation err).target p = (L.target p).settle generation err :=
  congrArg Selection.target
    (Heap.cell_modify_self L.selections p (fun s => s.settle generation err))

variable {p : ℕ}

theorem target_settle_of_ne {q : ℕ} (generation : ℕ) (err : Option (Err ε)) (hq : q ≠ p) :
    (L.settle p generation err).target q = L.target q :=
  congrArg Selection.target
    (Heap.cell_modify_of_ne L.selections (fun s => s.settle generation err) hq)

@[simp] theorem value_settle (p q generation : ℕ) (err : Option (Err ε)) :
    (L.settle p generation err).value q = L.value q :=
  Heap.cell_modify_proj (f := fun s => s.settle generation err)
    L.selections p q (fun _ => rfl)

theorem settleDesired_of_none (err : Err ε) (hd : L.desired = none) : L.settleDesired err = L := by
  refine Ledger.ext ?_ rfl rfl rfl rfl rfl rfl rfl rfl rfl rfl rfl
  unfold settleDesired
  rw [hd]

theorem settleDesired_of_some (err : Err ε) (hd : L.desired = some p) :
    L.settleDesired err = L.settle p 0 (some err) := by
  refine Ledger.ext ?_ rfl rfl rfl rfl rfl rfl rfl rfl rfl rfl rfl
  unfold settleDesired
  rw [hd]
  rfl

theorem settleDesired_rec {P : Ledger ε C → Prop} (err : Err ε) (h : P L)
    (hsettle : ∀ p, P (L.settle p 0 (some err))) : P (L.settleDesired err) := by
  obtain hd | ⟨p, hd⟩ := Option.eq_none_or_eq_some L.desired
  · rw [settleDesired_of_none err hd]
    exact h
  · rw [settleDesired_of_some err hd]
    exact hsettle p

@[simp] theorem value_settleDesired (err : Err ε) (q : ℕ) :
    (L.settleDesired err).value q = L.value q :=
  settleDesired_rec (P := fun L' => L'.value q = L.value q) err rfl (fun p => value_settle p q _ _)

@[simp] theorem next_settleDesired (err : Err ε) :
    (L.settleDesired err).selections.next = L.selections.next :=
  settleDesired_rec (P := fun L' => L'.selections.next = L.selections.next) err rfl (fun _ => rfl)

theorem target_install_self (name : String) (value : C) :
    (L.install name value).target L.selections.next = newTarget name (increment L.version) :=
  congrArg Selection.target (Heap.cell_alloc_self L.selections _)

theorem target_install_of_lt (name : String) (value : C) (hp : p < L.selections.next) :
    (L.install name value).target p = L.target p :=
  congrArg Selection.target (Heap.cell_alloc_of_lt L.selections _ hp)

theorem value_install_self (name : String) (value : C) :
    (L.install name value).value L.selections.next = value :=
  congrArg Selection.value (Heap.cell_alloc_self L.selections _)

theorem value_install_of_lt (name : String) (value : C) (hp : p < L.selections.next) :
    (L.install name value).value p = L.value p :=
  congrArg Selection.value (Heap.cell_alloc_of_lt L.selections _ hp)

theorem settled_settle (p q generation : ℕ) (err : Option (Err ε)) :
    (L.settle p generation err).settled q = true ↔ q = p ∨ L.settled q = true := by
  unfold settled
  by_cases hq : q = p
  · subst hq
    rw [target_settle_self]
    exact ⟨fun _ => .inl rfl, fun _ => Target.settled_settle _ _ _⟩
  · rw [target_settle_of_ne _ _ hq]
    exact ⟨.inr, fun h => h.resolve_left hq⟩

theorem settled_settleDesired (err : Err ε) (q : ℕ) :
    (L.settleDesired err).settled q = true ↔ L.desired = some q ∨ L.settled q = true := by
  obtain hd | ⟨p, hd⟩ := Option.eq_none_or_eq_some L.desired
  · rw [settleDesired_of_none err hd, hd]
    exact ⟨.inr, fun h => h.resolve_left nofun⟩
  · rw [settleDesired_of_some err hd, hd, Option.some_inj, settled_settle]
    exact or_congr_left eq_comm

/-! ### How selections evolve -/

/-- **What becomes of selections**: more of them are made, configurations and
versions stay, and so does a settled target. -/
structure Evolves (h h' : Heap (Selection ε C)) : Prop where
  next : h.next ≤ h'.next
  value : ∀ p < h.next, (h'.cell p).value = (h.cell p).value
  version : ∀ p < h.next, (h'.cell p).target.version = (h.cell p).target.version
  settled : ∀ p < h.next, (h.cell p).target.settled = true → (h'.cell p).target = (h.cell p).target

theorem Evolves.refl (h : Heap (Selection ε C)) : Evolves h h :=
  ⟨le_rfl, fun _ _ => rfl, fun _ _ => rfl, fun _ _ _ => rfl⟩

theorem Evolves.trans {h h' h'' : Heap (Selection ε C)} (h1 : Evolves h h')
    (h2 : Evolves h' h'') : Evolves h h'' where
  next := h1.next.trans h2.next
  value := fun p hp => (h2.value p (hp.trans_le h1.next)).trans (h1.value p hp)
  version := fun p hp => (h2.version p (hp.trans_le h1.next)).trans (h1.version p hp)
  settled := by
    intro p hp hs
    have heq := h1.settled p hp hs
    rw [h2.settled p (hp.trans_le h1.next) (heq ▸ hs), heq]

theorem evolves_settle (p generation : ℕ) (err : Option (Err ε)) :
    Evolves L.selections (L.settle p generation err).selections where
  next := le_rfl
  value := fun q _ => value_settle p q generation err
  version := fun q _ => Heap.cell_modify_proj (f := fun s => s.settle generation err)
    (π := fun s => s.target.version) L.selections p q (fun s => s.target.version_settle _ _)
  settled := fun q _ => L.selections.forall_modify (f := fun s => s.settle generation err)
    (Q := fun q s => (L.target q).settled = true → s.target = L.target q) q (fun _ _ => rfl)
    (fun hs => Target.settle_of_settled hs _ _)

theorem evolves_settleDesired (err : Err ε) :
    Evolves L.selections (L.settleDesired err).selections :=
  settleDesired_rec (P := fun L' => Evolves L.selections L'.selections) err (.refl _)
    (fun p => evolves_settle p 0 (some err))

theorem evolves_install (name : String) (value : C) :
    Evolves L.selections (L.install name value).selections where
  next := Nat.le_succ _
  value := fun _ hp => value_install_of_lt name value hp
  version := fun _ hp => congrArg Target.version (target_install_of_lt name value hp)
  settled := fun _ hp _ => target_install_of_lt name value hp

variable {L' : Ledger ε C}

theorem Tick.evolves (h : L.Tick L') : Evolves L.selections L'.selections := by
  cases h with
  | quiet | spawn | drop => exact Evolves.refl _
  | stop err => exact evolves_settleDesired err
  | exhaust p err => exact evolves_settle p 0 (some err)
  | adopt g => exact evolves_settle _ _ none
  | fail g err => exact evolves_settle _ 0 (some err)

theorem Move.evolves (h : L.Move o L') : Evolves L.selections L'.selections := by
  cases h with
  | tick h => exact h.evolves
  | replace err name value =>
    exact (evolves_settleDesired err).trans (evolves_install name value)
  | reuse err name value =>
    exact ((evolves_settleDesired err).trans
      (evolves_install name value)).trans (evolves_settle _ _ _)
  | renew name => exact evolves_install name _

/-! ## Numbering -/

/-- **How versions, targets and generations are numbered**: in order,
without gaps, and never past the last value of the counter. -/
structure Numbered (L : Ledger ε C) : Prop where
  version_le : L.version ≤ maxUint64
  version : L.version = L.selections.next
  target : ∀ p < L.selections.next, (L.target p).version = p + 1
  desired : ∀ p, L.desired = some p → p + 1 = L.selections.next
  undesired : L.desired = none → L.selections.next = 0
  wanted : L.wanted = true → L.desired ≠ none
  generation_le : L.generation ≤ maxUint64
  generation : L.generation = L.next
  number : ∀ g < L.next, L.number g = g + 1
  source : ∀ g < L.next, L.source g < L.selections.next
  pending : ∀ g, L.pending = some g → g < L.next
  active : ∀ g, L.active = some g → g < L.next

namespace Numbered

variable (h : L.Numbered)
include h

theorem of_evolves {s : Heap (Selection ε C)} (he : Evolves L.selections s)
    (hn : s.next = L.selections.next) : ({ L with selections := s } : Ledger ε C).Numbered :=
  { h with
    version := h.version.trans hn.symm
    target := fun p hp => (he.version p (hn ▸ hp)).trans (h.target p (hn ▸ hp))
    desired := fun p hp => (h.desired p hp).trans hn.symm
    undesired := fun hd => hn.trans (h.undesired hd)
    source := fun g hg => (h.source g hg).trans_eq hn.symm }

theorem settle (p generation : ℕ) (err : Option (Err ε)) : (L.settle p generation err).Numbered :=
  h.of_evolves (evolves_settle p generation err) rfl

theorem settleDesired (err : Err ε) : (L.settleDesired err).Numbered :=
  settleDesired_rec err h (fun p => h.settle p 0 (some err))

theorem increment_version (hv : L.version ≠ maxUint64) : increment L.version = L.version + 1 :=
  increment_of_lt (lt_of_le_of_ne h.version_le hv)

theorem increment_generation (hg : L.generation ≠ maxUint64) :
    increment L.generation = L.next + 1 := by
  rw [increment_of_lt (lt_of_le_of_ne h.generation_le hg), h.generation]

theorem install (hv : L.version ≠ maxUint64) (name : String) (value : C) :
    (L.install name value).Numbered := by
  have hinc : increment L.version = L.selections.next + 1 := by
    rw [h.increment_version hv, h.version]
  exact { h with
    version_le := by
      show increment L.version ≤ maxUint64
      rw [h.increment_version hv]
      exact lt_of_le_of_ne h.version_le hv
    version := hinc
    target := by
      intro p hp
      by_cases hn : p = L.selections.next
      · rw [hn, target_install_self]
        exact hinc
      · have hlt : p < L.selections.next := lt_of_le_of_ne (Nat.lt_succ_iff.mp hp) hn
        rw [target_install_of_lt name value hlt]
        exact h.target p hlt
    desired := fun p hp => congrArg Nat.succ (Option.some.inj hp).symm
    undesired := nofun
    wanted := nofun
    source := fun g hg => (h.source g hg).trans (Nat.lt_add_one _) }

theorem spawn (hg : L.generation ≠ maxUint64) {p : ℕ} (hd : L.desired = some p) :
    (L.spawn p).Numbered :=
  { h with
    wanted := nofun
    generation_le := by
      show increment L.generation ≤ maxUint64
      rw [increment_of_lt (lt_of_le_of_ne h.generation_le hg)]
      exact lt_of_le_of_ne h.generation_le hg
    generation := h.increment_generation hg
    number := by
      refine (Function.forall_update_iff _ (p := fun g n => g < L.next + 1 → n = g + 1)).mpr
        ⟨fun _ => h.increment_generation hg, fun g hn hlt => h.number g ?_⟩
      exact lt_of_le_of_ne (Nat.lt_succ_iff.mp hlt) hn
    source := by
      refine (Function.forall_update_iff _
        (p := fun g q => g < L.next + 1 → q < L.selections.next)).mpr
        ⟨fun _ => (Nat.lt_add_one p).trans_eq (h.desired p hd), fun g hn hlt => h.source g ?_⟩
      exact lt_of_le_of_ne (Nat.lt_succ_iff.mp hlt) hn
    pending := fun g hp => (Option.some.inj hp) ▸ Nat.lt_add_one L.next
    active := fun g ha => (h.active g ha).trans (Nat.lt_add_one _) }

theorem idle (v : ℕ) : (L.idle v).Numbered :=
  { h with wanted := fun hw => nomatch hw }

theorem tick {L' : Ledger ε C} (ht : L.Tick L') : L'.Numbered := by
  have hdrop : L.drop.Numbered := { h with pending := fun g hp => nomatch hp }
  cases ht with
  | quiet => exact h
  | stop err => exact { h.settleDesired err with active := fun g ha => nomatch ha }
  | exhaust p err => exact (h.idle L.applied).settle p 0 (some err)
  | spawn p hs hp hd hg => exact h.spawn hg hd
  | adopt g hs hp =>
    refine Numbered.settle (L := L.drop.activate g _) { hdrop with active := fun x hx => ?_ }
      _ _ none
    exact (Option.some.inj hx) ▸ h.pending g hp
  | fail g err => exact hdrop.settle _ 0 (some err)
  | drop => exact hdrop

theorem move {L' : Ledger ε C} (hm : L.Move o L') : L'.Numbered := by
  cases hm with
  | tick ht => exact h.tick ht
  | replace err name value hs hv => exact (h.settleDesired err).install hv name value
  | reuse err name value g hs hv =>
    exact (((h.settleDesired err).install hv name value).idle _).settle _ _ none
  | renew name p hs hv => exact h.install hv name _

end Numbered

/-! ## Receipts -/

/-- **What the targets promise**: only the desired one can be open, an open
one is being worked on, and shutdown leaves none open. -/
structure Receipts (L : Ledger ε C) : Prop where
  others : ∀ p < L.selections.next, L.desired ≠ some p → L.settled p = true
  waiting : ∀ p, L.desired = some p → ¬ L.settled p = true →
    L.wanted = true ∨ ∃ g, L.pending = some g ∧ L.source g = p
  stopped : L.stopping = true → ∀ p < L.selections.next, L.settled p = true

namespace Receipts

/-- When the desired target has been settled nothing is open. -/
theorem all_settled (h : L.Receipts) {p : ℕ} (hd : L.desired = some p)
    (hp : L.settled p = true) : ∀ q < L.selections.next, L.settled q = true := by
  intro q hq
  by_cases hqp : L.desired = some q
  · cases hd.symm.trans hqp
    exact hp
  · exact h.others q hq hqp

variable {L' : Ledger ε C}

theorem of_settled (h : ∀ p < L'.selections.next, L'.settled p = true)
    (hd : ∀ p, L'.desired = some p → p < L'.selections.next) : L'.Receipts :=
  ⟨fun p hp _ => h p hp, fun p hp hn => absurd (h p (hd p hp)) hn, fun _ => h⟩

theorem install (h : ∀ p < L.selections.next, L.settled p = true) (hs : L.stopping = false)
    (name : String) (value : C) : (L.install name value).Receipts where
  others := by
    intro p hp hd
    have hlt : p < L.selections.next := by
      refine lt_of_le_of_ne (Nat.lt_succ_iff.mp hp) ?_
      rintro rfl
      exact hd rfl
    show ((L.install name value).target p).settled = true
    rw [target_install_of_lt name value hlt]
    exact h p hlt
  waiting := fun p _ _ => .inl rfl
  stopped := fun hst => nomatch hs.symm.trans hst

theorem settle (h : L.Receipts) {p : ℕ} (hd : L.desired = some p) (generation : ℕ)
    (err : Option (Err ε)) :
    ∀ q < (L.settle p generation err).selections.next,
      (L.settle p generation err).settled q = true := by
  intro q hq
  rw [settled_settle]
  by_cases hqp : L.desired = some q
  · exact .inl (Option.some.inj (hqp.symm.trans hd))
  · exact .inr (h.others q hq hqp)

theorem settleDesired (h : L.Receipts) (err : Err ε) :
    ∀ q < (L.settleDesired err).selections.next, (L.settleDesired err).settled q = true := by
  intro q hq
  rw [settled_settleDesired]
  by_cases hqp : L.desired = some q
  · exact .inl hqp
  · exact .inr (h.others q (next_settleDesired err ▸ hq) hqp)

theorem tick (h : L.Receipts) (hn : L.Numbered) (ht : L.Tick L') : L'.Receipts := by
  have hbound : ∀ p, L'.desired = some p → p < L'.selections.next := fun p hp =>
    lt_of_lt_of_eq (Nat.lt_add_one p) ((hn.tick ht).desired p hp)
  cases ht with
  | quiet => exact h
  | stop err => exact of_settled (h.settleDesired err) hbound
  | exhaust p err hs hd | fail g err hs hp hd =>
    refine of_settled (fun q hq => ?_) hbound
    exact h.settle hd 0 (some err) q hq
  | spawn p hs hp hd =>
    refine ⟨h.others, fun q hq _ => .inr ⟨L.next, rfl, ?_⟩, h.stopped⟩
    cases hd.symm.trans hq
    exact Function.update_self _ _ _
  | adopt g hs hp hd =>
    refine of_settled (fun q hq => ?_) hbound
    exact h.settle hd (L.number g) none q hq
  | drop g hp hd =>
    refine ⟨h.others, fun p hp' hopen => ?_, h.stopped⟩
    obtain hw | ⟨x, hx, hsrc⟩ := h.waiting p hp' hopen
    · exact .inl hw
    · -- the dropped generation was for the desired selection only while stopping
      cases hp.symm.trans hx
      subst hsrc
      exact absurd (h.stopped (hd hp') _ (hbound _ hp')) hopen

/-- **Every move keeps the promise.** -/
theorem move (h : L.Receipts) (hn : L.Numbered) (hm : L.Move o L') : L'.Receipts := by
  have hbound : ∀ p, L'.desired = some p → p < L'.selections.next := fun p hp =>
    lt_of_lt_of_eq (Nat.lt_add_one p) ((hn.move hm).desired p hp)
  cases hm with
  | tick ht => exact h.tick hn ht
  | replace err name value hs =>
    exact install (h.settleDesired err) hs name value
  | reuse err name value g hs =>
    have h1 := install (h.settleDesired err) hs name value
    refine of_settled (fun q hq => ?_) hbound
    refine (settled_settle
      L.selections.next q _ none).mpr ?_
    by_cases hq' : q = L.selections.next
    · exact .inl hq'
    · refine .inr (h1.others q hq fun hc => hq' ?_)
      exact (Option.some.inj hc).symm.trans (next_settleDesired err)
  | renew name p hs hv hd hp => exact install (h.all_settled hd hp) hs name _

end Receipts

/-! ## Success -/

/-- Settling with an error makes no success: what is a success afterwards
was one before. -/
theorem settled_of_fault {q generation : ℕ} {err : Err ε}
    (hs : (L.settle q generation (some err)).settled p = true)
    (he : ((L.settle q generation (some err)).target p).err = none) :
    L.settled p = true ∧ (L.target p).err = none := by
  have hset : L.settled p = true := by
    by_contra hopen
    obtain rfl := ((settled_settle q p generation (some err)).mp hs).resolve_right hopen
    rw [target_settle_self, (Target.settle_of_not hopen generation (some err)).2] at he
    cases he
  refine ⟨hset, ?_⟩
  by_cases hq : p = q
  · subst hq
    rwa [target_settle_self, Target.settle_of_settled hset] at he
  · rwa [target_settle_of_ne _ _ hq] at he

theorem settled_of_settleDesired {err : Err ε} (hs : (L.settleDesired err).settled p = true)
    (he : ((L.settleDesired err).target p).err = none) :
    L.settled p = true ∧ (L.target p).err = none :=
  settleDesired_rec (P := fun L' => L'.settled p = true → (L'.target p).err = none → _) err
    (fun hs he => ⟨hs, he⟩) (fun _ => settled_of_fault) hs he

theorem lt_of_settled_install {name : String} {value : C}
    (hp : p < (L.install name value).selections.next)
    (hs : (L.install name value).settled p = true) :
    p < L.selections.next := by
  refine lt_of_le_of_ne (Nat.lt_succ_iff.mp hp) ?_
  rintro rfl
  unfold settled at hs
  rw [target_install_self] at hs
  cases hs

theorem settled_install {name : String} {value : C} (hp : p < L.selections.next) :
    (L.install name value).settled p = L.settled p :=
  congrArg Target.settled (target_install_of_lt name value hp)

theorem Tick.succeeded (ht : L.Tick L') (hp : p < L'.selections.next)
    (hnew : p < L.selections.next → ¬ L.settled p = true) (hs : L'.settled p = true)
    (he : (L'.target p).err = none) :
    ∃ g, L'.active = some g ∧ L'.number g = (L'.target p).generation := by
  cases ht with
  | quiet | spawn | drop => exact absurd hs (hnew hp)
  | stop err =>
    exact absurd (settled_of_settleDesired hs he).1 (hnew (hp.trans_eq (next_settleDesired err)))
  | exhaust => exact absurd (settled_of_fault hs he).1 (hnew hp)
  | adopt g =>
    refine ⟨g, rfl, ?_⟩
    have hopen := hnew hp
    have hq : p = L.source g :=
      ((settled_settle _ p _ none).mp hs).resolve_right hopen
    subst hq
    unfold Ledger.adopt
    rw [target_settle_self]
    exact (Target.settle_of_not hopen _ none).1.symm
  | fail => exact absurd (settled_of_fault hs he).1 (hnew hp)

/-- **Success is settled by the active generation.** A target that a move
settles with success carries the number of the generation that is active
after the move. -/
theorem Move.succeeded (hm : L.Move o L') (hp : p < L'.selections.next)
    (hnew : p < L.selections.next → ¬ L.settled p = true) (hs : L'.settled p = true)
    (he : (L'.target p).err = none) :
    ∃ g, L'.active = some g ∧ L'.number g = (L'.target p).generation := by
  -- an old target that is a success in a ledger with a fresh one was one before
  have hold {err : Err ε} {name : String} {value : C}
      (hp : p < ((L.settleDesired err).install name value).selections.next)
      (hs : ((L.settleDesired err).install name value).settled p = true)
      (he : (((L.settleDesired err).install name value).target p).err = none) : False := by
    have hlt := lt_of_settled_install hp hs
    rw [settled_install hlt] at hs
    rw [target_install_of_lt _ _ hlt] at he
    exact hnew (hlt.trans_eq (next_settleDesired err)) (settled_of_settleDesired hs he).1
  cases hm with
  | tick ht => exact ht.succeeded hp hnew hs he
  | replace => exact (hold hp hs he).elim
  | reuse err name value g _ _ _ ha =>
    by_cases hq : p = L.selections.next
    · have hopen : ¬ ((L.settleDesired err).install name value).settled p = true := by
        intro hc
        rw [hq, ← next_settleDesired err] at hc
        exact lt_irrefl _ (lt_of_settled_install (Nat.lt_add_one _) hc)
      refine ⟨g, ha, ?_⟩
      unfold Ledger.reuse
      rw [hq, target_settle_self]
      rw [hq] at hopen
      exact (Target.settle_of_not hopen _ none).1.symm
    · unfold Ledger.reuse settled at hs
      unfold Ledger.reuse at he
      rw [target_settle_of_ne _ _ hq] at hs he
      exact (hold hp hs he).elim
  | renew =>
    have hlt := lt_of_settled_install hp hs
    rw [settled_install hlt] at hs
    exact absurd hs (hnew hlt)

/-! ## What is in use -/

/-- **What success means**: the active generation was built for the desired
configuration, or for one equal to it. -/
structure Matched (o : Options ε V C) (L : Ledger ε C) : Prop where
  applied : L.applied ≤ L.version
  agrees : L.stopping = false → ∀ p, L.desired = some p → L.settled p = true →
    (L.target p).err = none → ∃ g, L.active = some g
      ∧ (L.value (L.source g) = L.value p
        ∨ Binding.equal o (L.value (L.source g)) (L.value p) = true)
  fixed : o.policy = .fixed → ∀ p < L.selections.next, L.value p = L.value 0

namespace Matched

variable {L' : Ledger ε C}

variable (h : L.Matched o)
include h

theorem of_faults (ha : L'.applied = L.applied) (hv : L'.version = L.version)
    (hs : L'.stopping = L.stopping) (hd : L'.desired = L.desired) (hact : L'.active = L.active)
    (hsrc : L'.source = L.source) (hnext : L'.selections.next = L.selections.next)
    (hval : L'.value = L.value)
    (hfault : ∀ p, L'.settled p = true → (L'.target p).err = none →
      L.settled p = true ∧ (L.target p).err = none) :
    L'.Matched o where
  applied := by
    rw [ha, hv]
    exact h.applied
  agrees := by
    intro hst p hp hset herr
    obtain ⟨h1, h2⟩ := hfault p hset herr
    rw [hact, hsrc, hval]
    exact h.agrees (hs.symm.trans hst) p (hd.symm.trans hp) h1 h2
  fixed := by
    intro hf p hp
    rw [hval]
    exact h.fixed hf p (hp.trans_eq hnext)

theorem install (hn : L.Numbered) (hv : L.version ≠ maxUint64) (name : String) {value : C}
    (hf : o.policy = .fixed → L.selections.next ≠ 0 → value = L.value 0) :
    (L.install name value).Matched o where
  applied := by
    show L.applied ≤ increment L.version
    rw [hn.increment_version hv]
    exact h.applied.trans (Nat.le_succ _)
  agrees := by
    intro _ p hp hset
    cases hp
    exact absurd (lt_of_settled_install (Nat.lt_add_one _) hset) (lt_irrefl _)
  fixed := by
    intro hfix p hp
    by_cases hz : L.selections.next = 0
    · -- it is the first one
      have hp0 : p = 0 := by
        have hlt : p < L.selections.next + 1 := hp
        rw [hz] at hlt
        exact Nat.lt_one_iff.mp hlt
      rw [hp0]
    · rw [value_install_of_lt name value (Nat.pos_of_ne_zero hz)]
      by_cases hq : p = L.selections.next
      · rw [hq, value_install_self]
        exact hf hfix hz
      · have hlt : p < L.selections.next := lt_of_le_of_ne (Nat.lt_succ_iff.mp hp) hq
        rw [value_install_of_lt name value hlt]
        exact h.fixed hfix p hlt

theorem settleDesired (err : Err ε) : (L.settleDesired err).Matched o :=
  h.of_faults rfl rfl rfl rfl rfl rfl (next_settleDesired err) (funext (value_settleDesired err))
    (fun _ => settled_of_settleDesired)

theorem settle_fault (p generation : ℕ) (err : Err ε) :
    (L.settle p generation (some err)).Matched o :=
  h.of_faults rfl rfl rfl rfl rfl rfl rfl (funext fun q => value_settle p q generation _)
    (fun _ => settled_of_fault)

theorem spawn (hn : L.Numbered) (p : ℕ) : (L.spawn p).Matched o where
  applied := h.applied
  agrees := by
    intro hst q hq hset herr
    obtain ⟨g, ha, hg⟩ := h.agrees hst q hq hset herr
    have hsrc : (L.spawn p).source g = L.source g :=
      Function.update_of_ne (ne_of_lt (hn.active g ha)) _ _
    refine ⟨g, ha, ?_⟩
    rw [hsrc]
    exact hg
  fixed := h.fixed

theorem adopt (hn : L.Numbered) {g : ℕ} (hp : L.pending = some g)
    (hd : L.desired = some (L.source g)) : (L.adopt g).Matched o where
  applied := by
    show (L.target (L.source g)).version ≤ L.version
    rw [hn.target _ (hn.source g (hn.pending g hp)), hn.version]
    exact hn.source g (hn.pending g hp)
  agrees := by
    intro _ p hp' _ _
    cases hd.symm.trans hp'
    exact ⟨g, rfl, .inl rfl⟩
  fixed := by
    intro hf p hp'
    unfold Ledger.adopt
    rw [value_settle, value_settle]
    exact h.fixed hf p hp'

theorem tick (hn : L.Numbered) (ht : L.Tick L') : L'.Matched o := by
  cases ht with
  | quiet => exact h
  | stop err =>
    have h1 := h.settleDesired err
    exact ⟨h1.applied, nofun, h1.fixed⟩
  | exhaust p err =>
    exact settle_fault (L := L.idle L.applied) ⟨h.applied, h.agrees, h.fixed⟩ p 0 err
  | spawn p => exact h.spawn hn p
  | adopt g hs hp hd => exact h.adopt hn hp hd
  | fail g err => exact settle_fault (L := L.drop) ⟨h.applied, h.agrees, h.fixed⟩ _ 0 err
  | drop => exact ⟨h.applied, h.agrees, h.fixed⟩

/-- **Every move keeps what success means.** -/
theorem move (hn : L.Numbered) (hm : L.Move o L') : L'.Matched o := by
  have hfirst (hf : o.policy = .fixed → L.desired = none) (value : C) (err : Err ε) :
      o.policy = .fixed → (L.settleDesired err).selections.next ≠ 0 →
        value = (L.settleDesired err).value 0 := by
    intro hfix hne
    exact absurd ((next_settleDesired err).trans (hn.undesired (hf hfix))) hne
  cases hm with
  | tick ht => exact h.tick hn ht
  | replace err name value hs hv hf =>
    exact (h.settleDesired err).install (hn.settleDesired err) hv name (hfirst hf value err)
  | reuse err name value g hs hv hf ha he =>
    have hn1 := hn.settleDesired err
    have h1 := (h.settleDesired err).install hn1 hv name (hfirst hf value err)
    refine ⟨le_rfl, fun _ p hp _ _ => ⟨g, ha, .inr ?_⟩, fun hfix p hp => ?_⟩
    · cases hp
      have hlt : L.source g < (L.settleDesired err).selections.next :=
        hn1.source g (hn.active g ha)
      unfold Ledger.reuse
      rw [value_settle, value_settle]
      show Binding.equal o (((L.settleDesired err).install name value).value (L.source g))
        (((L.settleDesired err).install name value).value _) = true
      rw [value_install_of_lt name value hlt, value_install_self, value_settleDesired]
      exact he
    · unfold Ledger.reuse
      rw [value_settle, value_settle]
      exact h1.fixed hfix p hp
  | renew name p hs hv hd =>
    refine h.install hn hv name (fun hfix _ => h.fixed hfix p ?_)
    exact lt_of_lt_of_eq (Nat.lt_add_one p) (hn.desired p hd)

/-- **The version reached never goes back.** -/
theorem applied_le (hn : L.Numbered) (hm : L.Move o L') : L.applied ≤ L'.applied := by
  cases hm with
  | replace | renew => exact le_rfl
  | reuse err name value g hs hv =>
    show L.applied ≤ increment L.version
    rw [hn.increment_version hv]
    exact h.applied.trans (Nat.le_succ _)
  | tick ht =>
    cases ht with
    | quiet | stop | exhaust | spawn | fail | drop => exact le_rfl
    | adopt g hs hp hd =>
      show L.applied ≤ (L.target (L.source g)).version
      rw [hn.target _ (hn.source g (hn.pending g hp)), hn.desired _ hd, ← hn.version]
      exact h.applied

end Matched

/-! ## What a request finds unchanged -/

/-- **What stays when nobody asks for anything**: the selection in force, the
version, and what each generation was built for. -/
structure Keeps (L L' : Ledger ε C) : Prop where
  desired : L'.desired = L.desired
  version : L'.version = L.version
  next : L.next ≤ L'.next
  source : ∀ g < L.next, L'.source g = L.source g
  value : L'.value = L.value

theorem Keeps.refl (L : Ledger ε C) : L.Keeps L := ⟨rfl, rfl, le_rfl, fun _ _ => rfl, rfl⟩

theorem Keeps.trans {L'' : Ledger ε C} (h1 : L.Keeps L') (h2 : L'.Keeps L'') : L.Keeps L'' where
  desired := h2.desired.trans h1.desired
  version := h2.version.trans h1.version
  next := h1.next.trans h2.next
  source := fun g hg => (h2.source g (hg.trans_le h1.next)).trans (h1.source g hg)
  value := h2.value.trans h1.value

theorem Tick.keeps (h : L.Tick L') : L.Keeps L' := by
  cases h with
  | quiet | drop => exact ⟨rfl, rfl, le_rfl, fun _ _ => rfl, rfl⟩
  | stop err => exact ⟨rfl, rfl, le_rfl, fun _ _ => rfl, funext (value_settleDesired err)⟩
  | spawn =>
    refine ⟨rfl, rfl, Nat.le_succ _, fun g hg => ?_, rfl⟩
    exact Function.update_of_ne (ne_of_lt hg) _ _
  | exhaust | adopt | fail =>
    exact ⟨rfl, rfl, le_rfl, fun _ _ => rfl, funext fun q => value_settle _ q _ _⟩

end Ledger

end Resource
