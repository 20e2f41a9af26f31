import Fathomry.KafkaGroup

/-!
# What callbacks leave alone

An operation of a session takes several sections, and callbacks of the
native client may run between any two of them. What they may do to the
partitions of the operation is bounded by one fact (`Group.Kept`): as long
as the session is not closing and the revision is the same, nothing has
happened. And whatever happens, a partition that stays keeps its cursor – it
may lose its token, no more.
-/

namespace Kafka

variable {ε : Type} {value : Settings} {topics : Topics}

namespace Partitions

variable {m m' m'' : Partitions} {k : GroupKey} {p : GroupPartition}

theorem find_eq_some : m.find k = some p ↔ k ∈ m.keys ∧ m.cell k = p := by
  unfold find
  rw [Option.ite_none_right_eq_some, Option.some_inj]

theorem mem_insert {k' : GroupKey} : k' ∈ (m.insert k p).keys ↔ k' = k ∨ k' ∈ m.keys :=
  List.mem_insert_iff

theorem cell_insert (k' : GroupKey) :
    (m.insert k p).cell k' = if k' = k then p else m.cell k' := Function.update_apply _ _ _ _

/-- A partition as `assigned` makes it. -/
def Fresh (k : GroupKey) (p : GroupPartition) : Prop := p.position.key = k ∧ p.pending = none

/-- **What becomes of partitions**: one that was there keeps its cursor, and
its token if it keeps any; one that was not is new. -/
def Keeps (m m' : Partitions) : Prop :=
  ∀ k ∈ m'.keys,
    (k ∈ m.keys ∧ (m'.cell k).position = (m.cell k).position
      ∧ ((m'.cell k).pending = (m.cell k).pending ∨ (m'.cell k).pending = none))
    ∨ (k ∉ m.keys ∧ Fresh k (m'.cell k))

theorem Keeps.refl (m : Partitions) : Keeps m m := fun _ hk => .inl ⟨hk, rfl, .inl rfl⟩

theorem Keeps.empty (m : Partitions) : Keeps m .empty := nofun

/-- Tokens may be taken away at any time. -/
theorem Keeps.expire (h : Keeps m m') : Keeps m m'.expire := by
  intro k hk
  obtain ⟨hm, hpos, -⟩ | ⟨hm, hfresh, -⟩ := h k hk
  · exact .inl ⟨hm, hpos, .inr rfl⟩
  · exact .inr ⟨hm, hfresh, rfl⟩

theorem Keeps.insert (h : Keeps m m') (hgrow : ∀ k ∈ m.keys, k ∈ m'.keys) (hk : k ∉ m'.keys)
    (hfresh : Fresh k p) : Keeps m (m'.insert k p) := by
  intro k' hk'
  rw [cell_insert]
  split_ifs with heq
  · rw [heq]
    exact .inr ⟨fun hm => hk (hgrow k hm), hfresh⟩
  · exact h k' ((mem_insert.mp hk').resolve_left heq)

end Partitions

namespace Group

variable {g g' g'' : Group ε}

/-- **What runs beside an operation.** -/
structure Kept (g g' : Group ε) : Prop where
  batches : g'.batches = g.batches
  stage : g'.stage = g.stage
  closing : g.closing = true → g'.closing = true
  primary : g.primary.isSome = true → g'.primary.isSome = true
  revision : g.revision ≤ g'.revision
  bound : g'.revision ≤ maxUint64
  partitions : g.partitions.Keeps g'.partitions
  still : g'.closing = false → g'.revision = g.revision →
    g'.partitions = g.partitions ∧ g'.member = g.member ∧ g'.generation = g.generation

theorem Kept.of_eq (hb : g.revision ≤ maxUint64) (h₁ : g'.batches = g.batches)
    (h₂ : g'.stage = g.stage) (h₃ : g.closing = true → g'.closing = true)
    (hp : g.primary.isSome = true → g'.primary.isSome = true)
    (h₄ : g'.revision = g.revision) (h₅ : g'.partitions = g.partitions)
    (h₆ : g'.member = g.member) (h₇ : g'.generation = g.generation) : Kept g g' :=
  ⟨h₁, h₂, h₃, hp, h₄.ge, h₄ ▸ hb, h₅ ▸ .refl _, fun _ _ => ⟨h₅, h₆, h₇⟩⟩

/-! ## Revisions -/

theorem revise_eq (g : Group ε) :
    (g.revise.partitions = g.partitions ∧ g.revise.batches = g.batches
      ∧ g.revise.stage = g.stage)
    ∧ (g.closing = true → g.revise.closing = true)
    ∧ (g.primary.isSome = true → g.revise.primary.isSome = true) := by
  unfold revise
  split_ifs
  · exact ⟨⟨rfl, rfl, rfl⟩, fun _ => rfl, fun _ => Option.isSome_or.trans (Bool.or_true _)⟩
  · exact ⟨⟨rfl, rfl, rfl⟩, id, id⟩

theorem revision_revise (hb : g.revision ≤ maxUint64) :
    g.revise.revision ≤ maxUint64
      ∧ (g.revise.closing = true ∧ g.revise.revision = g.revision
        ∨ g.revise.revision = g.revision + 1) := by
  unfold revise
  split_ifs with hmax
  · exact ⟨hb, .inl ⟨rfl, rfl⟩⟩
  · have hlt := lt_of_le_of_ne hb hmax
    rw [increment_of_lt hlt]
    exact ⟨hlt, .inr rfl⟩

/-- **A callback that counts the revision up** may do to the partitions
what it likes, but for the cursors of those that stay. -/
theorem Kept.notify {event : GroupEvent} (hb : g.revision ≤ maxUint64)
    (hrev : g'.revision = g.revision) (h₁ : g'.batches = g.batches) (h₂ : g'.stage = g.stage)
    (h₃ : g.closing = true → g'.closing = true)
    (h₄ : g.primary.isSome = true → g'.primary.isSome = true)
    (hp : g.partitions.Keeps g'.partitions) : Kept g (g'.notifyLocked event) := by
  obtain ⟨⟨hparts, hbatches, hstage⟩, hclosing, hprimary⟩ := revise_eq g'
  obtain ⟨hbound, hcase⟩ := revision_revise (hrev ▸ hb)
  refine ⟨hbatches.trans h₁, hstage.trans h₂, fun hc => hclosing (h₃ hc),
    fun hs => hprimary (h₄ hs), ?_, hbound, ?_, fun hopen hsame => ?_⟩
  · show g.revision ≤ g'.revise.revision
    obtain ⟨-, heq⟩ | heq := hcase
    · rw [heq, hrev]
    · rw [heq, hrev]
      exact Nat.le_succ _
  · show g.partitions.Keeps g'.revise.partitions
    rw [hparts]
    exact hp
  · replace hsame : g'.revise.revision = g.revision := hsame
    obtain ⟨hclosed, -⟩ | heq := hcase
    · exact nomatch hclosed.symm.trans hopen
    · rw [heq, hrev] at hsame
      exact absurd hsame (Nat.succ_ne_self _)

/-- **A session that has failed** is closing, and says why. -/
theorem failed_failLocked (err : Err ε) :
    (g.failLocked err).closing = true ∧ (g.failLocked err).primary.isSome = true := by
  have hblame : ((g.blame err).fence).primary.isSome = true := by
    show (g.primary.or (some err)).isSome = true
    rw [Option.isSome_or, Option.isSome_some, Bool.or_true]
  exact ⟨(revise_eq (g.blame err).fence).2.1 rfl, (revise_eq (g.blame err).fence).2.2 hblame⟩

/-- **A session that fails** from a state the partitions have only grown
to. -/
theorem Kept.fail {err : Err ε} (hb : g.revision ≤ maxUint64) (hrev : g'.revision = g.revision)
    (h₁ : g'.batches = g.batches) (h₂ : g'.stage = g.stage)
    (hp : g.partitions.Keeps g'.partitions) : Kept g (g'.failLocked err) := by
  obtain ⟨hclosing, hprimary⟩ := failed_failLocked err
  have h : Kept g ((g'.blame err).fence.notifyLocked .lost) :=
    Kept.notify hb hrev h₁ h₂ (fun _ => rfl) (fun _ => (by
      show (g'.primary.or (some err)).isSome = true
      rw [Option.isSome_or, Option.isSome_some, Bool.or_true])) hp
  exact { h with
    primary := fun _ => hprimary
    still := fun hopen => nomatch hclosing.symm.trans hopen }

/-! ## The callbacks -/

/-- **What placing partitions does**: they come, and none goes. -/
structure Grown (g g' : Group ε) : Prop where
  batches : g'.batches = g.batches
  stage : g'.stage = g.stage
  closing : g'.closing = g.closing
  primary : g'.primary = g.primary
  revision : g'.revision = g.revision
  partitions : g.partitions.Keeps g'.partitions
  grow : ∀ k ∈ g.partitions.keys, k ∈ g'.partitions.keys

theorem Grown.refl (g : Group ε) : Grown g g := ⟨rfl, rfl, rfl, rfl, rfl, .refl _, fun _ => id⟩

theorem Grown.place (h : Grown g g') (hb : g.revision ≤ maxUint64) (k : GroupKey) :
    (∀ g'', g'.place value topics k = .ok g'' → Grown g g'')
      ∧ ∀ g'', g'.place value topics k = .error g'' → Kept g g'' := by
  have hfail {g₁ : Group ε} {err : Err ε} (h₁ : g₁.batches = g'.batches) (h₂ : g₁.stage = g'.stage)
      (h₃ : g₁.revision = g'.revision) (h₄ : g₁.partitions = g'.partitions) :
      Kept g (g₁.failLocked err) :=
    Kept.fail hb (h₃.trans h.revision) (h₁.trans h.batches) (h₂.trans h.stage)
      (h₄ ▸ h.partitions)
  unfold Group.place
  split
  · exact ⟨fun _ hn => (nomatch hn), fun _ he => Except.error.inj he ▸ hfail rfl rfl rfl rfl⟩
  split_ifs with hrange hmem hfull
  · exact ⟨fun _ hn => (nomatch hn), fun _ he => Except.error.inj he ▸ hfail rfl rfl rfl rfl⟩
  · exact ⟨fun _ he => Except.ok.inj he ▸ { h with }, fun _ hn => (nomatch hn)⟩
  · exact ⟨fun _ hn => (nomatch hn), fun _ he => Except.error.inj he ▸ hfail rfl rfl rfl rfl⟩
  · refine ⟨fun _ he => Except.ok.inj he ▸ ?_, fun _ hn => (nomatch hn)⟩
    exact { h with
      partitions := h.partitions.insert h.grow hmem ⟨rfl, rfl⟩
      grow := fun k' hk' => Partitions.mem_insert.mpr (.inr (h.grow k' hk')) }

theorem Grown.placeAll (hb : g.revision ≤ maxUint64) :
    ∀ {ks : List GroupKey} {g' : Group ε}, Grown g g' →
    (∀ g'', placeAll value topics ks g' = .ok g'' → Grown g g'')
      ∧ ∀ g'', placeAll value topics ks g' = .error g'' → Kept g g''
  | [], _, h => ⟨fun _ he => Except.ok.inj he ▸ h, fun _ hn => (nomatch hn)⟩
  | k :: ks, g', h => by
    have hone : (∀ g'', g'.place value topics k = .ok g'' → Grown g g'')
        ∧ ∀ g'', g'.place value topics k = .error g'' → Kept g g'' := h.place hb k
    unfold Group.placeAll
    split
    · next g'' hp =>
      exact ⟨fun _ hn => (nomatch hn), fun _ he => Except.error.inj he ▸ hone.2 g'' hp⟩
    · next g'' hp => exact Grown.placeAll hb (hone.1 g'' hp)

theorem kept_assigned (hb : g.revision ≤ maxUint64) (member : String) (generation : ℤ)
    (added : List (String × List ℤ)) :
    Kept g (g.assigned value topics member generation added) := by
  have hall : (∀ g', placeAll value topics (keysOf added) g = .ok g' → Grown g g')
      ∧ ∀ g', placeAll value topics (keysOf added) g = .error g' → Kept g g' :=
    Grown.placeAll hb (.refl g)
  unfold assigned
  split_ifs with hclosing hmember
  · exact .of_eq hb rfl rfl id id rfl rfl rfl rfl
  · exact .fail hb rfl rfl rfl (.refl _)
  split
  · next g' hp => exact hall.2 g' hp
  · next g' hp =>
    have h := hall.1 g' hp
    exact Kept.notify hb h.revision h.batches h.stage h.closing.trans
      (fun hp => h.primary ▸ hp) h.partitions.expire

theorem kept_revoked (hb : g.revision ≤ maxUint64) (removed : List (String × List ℤ)) :
    Kept g (g.revoked topics removed) := by
  -- what is dropped touches nothing but the partitions
  have hdrop : ∀ (ks : List GroupKey) (g' : Group ε), g'.revision = g.revision →
      g'.batches = g.batches → g'.stage = g.stage → g'.closing = g.closing →
      g'.primary = g.primary → g.partitions.Keeps g'.partitions →
      Kept g ({ ks.foldl (drop topics) g' with ready := false }.notifyLocked .revoked) := by
    intro ks
    induction ks with
    | nil =>
      intro g' h₁ h₂ h₃ h₄ h₅ h₆
      exact Kept.notify hb h₁ h₂ h₃ h₄.trans (fun hp => h₅ ▸ hp) h₆
    | cons k ks ih =>
      intro g' h₁ h₂ h₃ h₄ h₅ h₆
      exact ih (g'.drop topics k) h₁ h₂ h₃ h₄ h₅ (fun k' hk' => h₆ k' (List.mem_of_mem_erase hk'))
  exact hdrop (keysOf removed) g rfl rfl rfl rfl rfl (.refl _)

theorem kept_onGroupManageError (hb : g.revision ≤ maxUint64) (err : Native ε) :
    Kept g (g.onGroupManageError err) := by
  unfold onGroupManageError
  split_ifs
  · exact .of_eq hb rfl rfl id id rfl rfl rfl rfl
  · exact .of_eq hb rfl rfl id (fun _ => rfl) rfl rfl rfl rfl

theorem kept_offsetsFetched (hb : g.revision ≤ maxUint64) (ctx : Ctx ε)
    (r : OffsetFetchResponse ε) : Kept g (g.offsetsFetched value ctx r) := by
  unfold offsetsFetched
  split_ifs
  · exact .of_eq hb rfl rfl id id rfl rfl rfl rfl
  split
  · exact .fail hb rfl rfl rfl (.refl _)
  · exact .of_eq hb rfl rfl id id rfl rfl rfl rfl

theorem kept_finish (hb : g.revision ≤ maxUint64) : Kept g g.finish := by
  refine Kept.notify hb rfl rfl rfl id (fun hp => ?_) (.empty _)
  show g.finalError.isSome = true
  unfold finalError
  split_ifs
  · exact hp
  · exact Option.isSome_or.trans (Bool.or_true _)

end Group

end Kafka
