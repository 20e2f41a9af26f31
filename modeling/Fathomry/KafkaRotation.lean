import Fathomry.KafkaCommit

/-!
# Turns of the partitions of a session

`Next` looks at the partitions of the snapshot in turn, from where the call before it
left off, and takes the first that has no page out. Between two calls anything may happen
to the others: pages are committed, pages are handed out. What does not happen is that the
cursor jumps. It stops behind the partition that was selected, and no other section of the
session touches it (`roundRobin_of_step`).

So a partition that waits has a **distance** from the cursor, and a call that selects
another one selects it before the partition that waits is reached, which makes the distance
smaller. While the assignment stands there are as many turns as partitions.
-/

namespace Kafka

variable {ε : Type} {value : Settings} {topics : Topics}

namespace Group

variable {g g' : Group ε} {k : GroupKey} {order : List GroupKey} {e : Event ε}

/-! ## Where the loop stops -/

/-- Every place is reached in a round. -/
theorem exists_distance {i n : ℕ} (turn : ℕ) (hi : i < n) : ∃ j < n, (turn + j) % n = i := by
  have hr := Nat.mod_lt turn (Nat.zero_lt_of_lt hi)
  obtain hle | hlt := le_or_gt (turn % n) i
  · refine ⟨i - turn % n, by omega, ?_⟩
    rw [← Nat.mod_add_mod, Nat.add_sub_of_le hle, Nat.mod_eq_of_lt hi]
  · refine ⟨i + n - turn % n, by omega, ?_⟩
    rw [← Nat.mod_add_mod, Nat.add_sub_of_le (by omega), Nat.add_mod_right, Nat.mod_eq_of_lt hi]

/-- **The loop does not pass a free partition**: it selects that one, or one before it,
and is then nearer. -/
theorem choose_near {n turn j : ℕ} (hj : order[(turn + j) % order.length]? = some k)
    (hfree : (g.partitions.cell k).pending = none) (hn : j < n) :
    ∃ k' turn', g.choose order n turn = (some k', turn')
      ∧ (k' = k ∨ ∃ i < j, order[(turn' + i) % order.length]? = some k) := by
  induction n generalizing turn j with
  | zero => exact nomatch hn
  | succ n ih =>
    have hlen : 0 < order.length := by
      have := (List.getElem?_eq_some_iff.mp hj).1
      omega
    obtain ⟨k₀, hk₀⟩ : ∃ k₀, order[turn % order.length]? = some k₀ :=
      ⟨_, List.getElem?_eq_getElem (Nat.mod_lt turn hlen)⟩
    -- the place of the partition, seen from behind the first one
    have hnext : ∀ {i}, (turn + (i + 1)) % order.length
        = ((turn % order.length + 1) % order.length + i) % order.length := fun {i} => by
      rw [Nat.mod_add_mod, Nat.add_assoc, Nat.mod_add_mod, Nat.add_comm 1 i]
    unfold choose
    simp only [hk₀]
    split_ifs with hpend
    · refine ⟨k₀, _, rfl, ?_⟩
      cases j with
      | zero => exact .inl (Option.some.inj (hk₀.symm.trans hj))
      | succ j => exact .inr ⟨j, Nat.lt_add_one j, hnext ▸ hj⟩
    · cases j with
      | zero =>
        obtain rfl : k₀ = k := Option.some.inj (hk₀.symm.trans hj)
        exact absurd (Option.isNone_iff_eq_none.mpr hfree) hpend
      | succ j =>
        obtain ⟨k', turn', hch, heq | ⟨i, hi, hk⟩⟩ := ih (hnext ▸ hj) (Nat.lt_of_succ_lt_succ hn)
        · exact ⟨k', turn', hch, .inl heq⟩
        · exact ⟨k', turn', hch, .inr ⟨i, hi.trans (Nat.lt_add_one j), hk⟩⟩

/-! ## Who moves the cursor -/

@[grind =] theorem roundRobin_goto (stage : Stage ε) : (g.goto stage).roundRobin = g.roundRobin :=
  rfl

@[grind =] theorem roundRobin_quit (err : Err ε) : (g.quit err).roundRobin = g.roundRobin := rfl

@[grind =] theorem roundRobin_put (p : GroupPartition) : (g.put k p).roundRobin = g.roundRobin :=
  rfl

@[grind =] theorem roundRobin_notifyLocked (event : GroupEvent) :
    (g.notifyLocked event).roundRobin = g.roundRobin := by
  show g.revise.roundRobin = g.roundRobin
  unfold revise
  split_ifs
  · rfl
  · rfl

@[grind =] theorem roundRobin_failLocked (err : Err ε) :
    (g.failLocked err).roundRobin = g.roundRobin := roundRobin_notifyLocked .lost

theorem roundRobin_placeAll {ks : List GroupKey} :
    (∀ g', placeAll value topics ks g = .ok g' → g'.roundRobin = g.roundRobin)
      ∧ ∀ g', placeAll value topics ks g = .error g' → g'.roundRobin = g.roundRobin := by
  induction ks generalizing g with
  | nil => grind [placeAll]
  | cons k ks ih => grind [placeAll, place]

theorem roundRobin_revoked (removed : List (String × List ℤ)) :
    (g.revoked topics removed).roundRobin = g.roundRobin := by
  refine (roundRobin_notifyLocked _).trans ?_
  show ((keysOf removed).foldl (drop topics) g).roundRobin = g.roundRobin
  generalize keysOf removed = ks
  induction ks generalizing g with
  | nil => rfl
  | cons k ks ih => exact ih

/-- **Only a selection moves the cursor.** -/
theorem roundRobin_of_step (h : g.step value topics e = some g') (he : e ≠ .choose) :
    g'.roundRobin = g.roundRobin := by
  cases e with
  | choose => exact absurd rfl he
  | assigned member generation added =>
    have hall := @roundRobin_placeAll ε value topics g (keysOf added)
    dsimp only [step] at h
    grind [assigned, adopt]
  | revoked removed =>
    cases h
    exact roundRobin_revoked removed
  | validate =>
    dsimp only [step, Group.validate] at h
    grind
  | _ =>
    dsimp only [step] at h
    grind [lost, finish, onGroupManageError, offsetsFetched, close, fence, expire, drain, enter,
      leave, initial, selectOffset, check, fetch, bound, issue, guard, reply, confirm]

/-! ## Turns -/

/-- The partition that `next` is at work on. -/
def Stage.next : Stage ε → Option GroupKey
  | .chosen _ position _ | .selecting _ position _ | .checking _ position
  | .fetching _ position _ | .bounding _ position _ | .fetched _ position _ => some position.key
  | _ => none

/-- The partition that a step selects. -/
def picks (g : Group ε) : Event ε → List GroupKey
  | .choose => g.chosen.stage.next.toList
  | _ => []

/-- **A partition that waits**, with less than `d` others before it. -/
structure Waiting (order : List GroupKey) (k : GroupKey) (d : ℕ) (g : Group ε) : Prop where
  free : (g.partitions.cell k).pending = none
  apart : g.stage.next ≠ some k
  near : ∃ j < d, order[(g.roundRobin + j) % order.length]? = some k

theorem eq_chosen_of_step (hl : g.step value topics .choose = some g') :
    g.stage = .begun ∧ g.chosen = g' := by
  dsimp only [step] at hl
  split at hl
  · next hs => exact ⟨hs, Option.some.inj hl⟩
  · cases hl

/-- **What the first section of `next` does**, if there are partitions to look at: the loop
stops at one or at none, and leaves the cursor behind it. -/
theorem Inv.chosen_cases (hi : Inv value g) :
    g.chosen = g.quit (failure .unavailable "group-assignment" [])
    ∨ ∃ key turn stage, g.choose g.assignments g.assignments.length g.roundRobin = (key, turn)
      ∧ g.chosen = { g with roundRobin := turn }.goto stage ∧ stage.next = key := by
  unfold Group.chosen
  split_ifs
  · exact .inl rfl
  refine .inr ?_
  split
  · next turn hch => exact ⟨none, turn, _, hch, rfl, rfl⟩
  · next k turn hch =>
    have hk := (List.mem_insertionSort _).mp (pending_of_choose hch).1
    exact ⟨some k, turn, _, hch, rfl, congrArg some (hi.keyed k hk)⟩

variable {d : ℕ}

/-- A selection is of the partition, or of one before it. -/
theorem Waiting.choose (h : Waiting g.assignments k d g) (hi : Inv value g) :
    g.picks .choose = [k] ∨ ∃ d', Waiting g.assignments k d' g.chosen
      ∧ d' + (g.picks .choose).length ≤ d := by
  unfold picks
  obtain hquit | ⟨key, turn, stage, hch, hgoto, hnext⟩ := hi.chosen_cases
  · rw [hquit]
    exact .inr ⟨d, ⟨h.free, Option.some_ne_none k |>.symm, h.near⟩, le_refl d⟩
  · obtain ⟨j, hj, hnear⟩ := h.near
    have hlen := Nat.zero_lt_of_lt (List.getElem?_eq_some_iff.mp hnear).1
    rw [← Nat.add_mod_mod] at hnear
    obtain ⟨k', turn', hch', hcase⟩ := choose_near hnear h.free (Nat.mod_lt j hlen)
    cases hch'.symm.trans hch
    have hstage : g.chosen.stage.next = some k' := (congrArg (·.stage.next) hgoto).trans hnext
    rw [hstage, hgoto]
    obtain rfl | hne := eq_or_ne k' k
    · exact .inl rfl
    · obtain ⟨i, hi, hnear⟩ := hcase.resolve_left hne
      exact .inr ⟨_, ⟨h.free, fun hk => hne (Option.some.inj (hnext.symm.trans hk)), i, hi, hnear⟩,
        (Nat.mod_le j _).trans_lt hj⟩

theorem pending_insert {k' : GroupKey} {p : GroupPartition}
    (hfree : (g.partitions.cell k).pending = none) (hself : k = k' → p.pending = none) :
    ((g.partitions.insert k' p).cell k).pending = none := by
  rw [Partitions.cell_insert]
  split_ifs with heq
  · exact hself heq
  · exact hfree

theorem Waiting.step (h : Waiting order k d g) (hi : Inv value g) (hk : k ∈ g'.partitions.keys)
    (hl : g.step value topics e = some g') (he : e ≠ .choose) : Waiting order k d g' := by
  have hturn := roundRobin_of_step hl he
  suffices hself : (g'.partitions.cell k).pending = none ∧ g'.stage.next ≠ some k from
    ⟨hself.1, hself.2, hturn ▸ h.near⟩
  have hapart := h.apart
  have hfree := h.free
  cases stepped hl with
  | beside e g' hkept =>
    have hkept := hkept hi.bound
    refine ⟨?_, hkept.stage ▸ hapart⟩
    obtain ⟨-, -, hsame | hnone⟩ | ⟨-, hfresh⟩ := hkept.partitions k hk
    · exact hsame.trans hfree
    · exact hnone
    · exact hfresh.2
  | quiet e g' hs hq =>
    refine ⟨hs.partitions ▸ hfree, fun hsome => ?_⟩
    cases hstage : g'.stage with
    | _ => simp [hstage, Stage.next, Stage.silent] at hsome hq
  | chosen => exact absurd rfl he
  | initial x snap position offset hs | fetched snap position again x page hs
  | unbound snap position x err hs | reset snap position err x b offset hs =>
    rw [hs] at hapart
    exact ⟨hfree, hapart⟩
  | checked snap position hs =>
    refine ⟨hfree, ?_⟩
    obtain hs | hs := hs
    iterate 2
      rw [hs] at hapart
      exact hapart
  | selected snap position why hs =>
    rw [hs] at hapart
    refine ⟨pending_insert hfree (fun heq => heq ▸ hfree), ?_⟩
    cases why with
    | initial | reset => exact hapart
  | issued snap position page hs =>
    rw [hs] at hapart
    exact ⟨pending_insert hfree (fun heq => absurd (congrArg some heq.symm) hapart),
      Option.some_ne_none k |>.symm⟩
  | confirm a => exact ⟨pending_insert hfree (fun _ => rfl), Option.some_ne_none k |>.symm⟩
  | failed a err =>
    refine ⟨?_, Option.some_ne_none k |>.symm⟩
    show (((g.blame err).fence.revise).partitions.cell k).pending = none
    rw [(revise_eq _).1.1]
    exact hfree
  | validated | committing | submitting | passed | sent | confirmed | failing =>
    exact ⟨hfree, Option.some_ne_none k |>.symm⟩

variable {tr tr' : List (Event ε)} {built : Option (Err ε)}

/-- **Along a run in which the assignment stands.** -/
theorem Waiting.picked (hi : Inv value g) (h : Waiting order k d g) (hk : k ∈ order)
    (he : (machine value topics built).exec g tr = some g')
    (hstill : ∀ before u, before <+: tr → (machine value topics built).exec g before = some u →
      u.assignments = order) :
    k ∈ ((machine value topics built).outputs picks g tr).take d
      ∨ ((machine value topics built).outputs picks g tr).length < d := by
  induction tr generalizing g d with
  | nil =>
    obtain ⟨j, hj, -⟩ := h.near
    exact .inr (Nat.zero_lt_of_lt hj)
  | cons e tr ih =>
    obtain ⟨u, hl, he⟩ := Option.bind_eq_some_iff.mp he
    have hstill' : ∀ before v, before <+: tr →
        (machine value topics built).exec u before = some v → v.assignments = order :=
      fun before v hb hv => hstill (e :: before) v (List.cons_prefix_cons.mpr ⟨rfl, hb⟩)
        (by rw [Machine.exec_cons, hl]; exact hv)
    obtain rfl : g.assignments = order := hstill [] g List.nil_prefix rfl
    have hku : k ∈ u.partitions.keys :=
      (List.mem_insertionSort _).mp ((hstill' [] u List.nil_prefix rfl).symm ▸ hk)
    rw [Machine.outputs_cons_of_step hl]
    -- the step selects the partition, or one before it, or nothing
    have hone : g.picks e = [k]
        ∨ ∃ d', Waiting g.assignments k d' u ∧ d' + (g.picks e).length ≤ d := by
      by_cases hc : e = .choose
      · subst hc
        have hl : g.step value topics .choose = some u := hl
        obtain ⟨-, rfl⟩ := eq_chosen_of_step hl
        exact h.choose hi
      · refine .inr ⟨d, h.step hi hku hl hc, ?_⟩
        cases e with
        | choose => exact absurd rfl hc
        | _ => exact le_refl d
    obtain hpick | ⟨d', hw, hle⟩ := hone
    · obtain ⟨j, hj, -⟩ := h.near
      obtain ⟨d, rfl⟩ := Nat.exists_eq_succ_of_ne_zero (Nat.ne_zero_of_lt hj)
      rw [hpick]
      exact .inl (.head _)
    · obtain hmem | hlt := ih (hi.step hl) hw he hstill'
      · refine .inl ?_
        rw [List.take_append]
        exact List.mem_append_right _
          ((List.take_prefix_take_left (Nat.le_sub_of_add_le hle)).subset hmem)
      · refine .inr ?_
        rw [List.length_append]
        omega

/-- **Partitions take turns.** A partition with a page out is not selected, a call fails
as unprocessed only if all of them have a page out, and a partition without one – unless
`Next` is at work on it – is among the next selections, as many as there are partitions. -/
theorem rotation_fair (hr : (machine value topics built).Run tr g) :
    (∀ e, ∀ k ∈ g.picks e, k ∈ g.assignments ∧ (g.partitions.cell k).pending = none)
    ∧ (∀ g', g.step value topics .choose = some g' →
      g'.stage = .leaving (some (failure .state "group-unprocessed" [])) none →
      ∀ k ∈ g.assignments, (g.partitions.cell k).pending ≠ none)
    ∧ ∀ tr' g', (machine value topics built).exec g tr' = some g' →
      (∀ before u, before <+: tr' → (machine value topics built).exec g before = some u →
        u.assignments = g.assignments) →
      ∀ k ∈ g.assignments, (g.partitions.cell k).pending = none → g.stage.next ≠ some k →
      g.assignments.length ≤ ((machine value topics built).outputs picks g tr').length →
      k ∈ ((machine value topics built).outputs picks g tr').take g.assignments.length := by
  have hi := inv_of_run hr
  have hwait : ∀ {k}, k ∈ g.assignments → (g.partitions.cell k).pending = none →
      g.stage.next ≠ some k → Waiting g.assignments k g.assignments.length g := by
    intro k hk hfree hapart
    obtain ⟨i, hi, hget⟩ := List.getElem_of_mem hk
    obtain ⟨j, hj, heq⟩ := exists_distance g.roundRobin hi
    exact ⟨hfree, hapart, j, hj, by rw [heq, List.getElem?_eq_getElem hi, hget]⟩
  refine ⟨fun e k hpick => ?_, fun g' hl hfail k hk hfree => ?_,
    fun tr' g' he hstill k hk hfree hapart hlen => ?_⟩
  · cases e with
    | choose =>
      unfold picks at hpick
      obtain hquit | ⟨key, turn, stage, hch, hgoto, hnext⟩ := hi.chosen_cases
      · rw [hquit] at hpick
        cases hpick
      · rw [hgoto] at hpick
        obtain rfl : key = some k := hnext.symm.trans (Option.mem_toList.mp hpick)
        exact pending_of_choose hch
    | _ => cases hpick
  · obtain ⟨hs, rfl⟩ := eq_chosen_of_step hl
    obtain hquit | ⟨key, turn, stage, hch, hgoto, hnext⟩ := hi.chosen_cases
    · simp [hquit, quit, goto, failure, Fault.new] at hfail
    · obtain ⟨j, hj, hnear⟩ := (hwait hk hfree (by simp [hs, Stage.next])).near
      obtain ⟨k', turn', hch', -⟩ := choose_near hnear hfree hj
      cases hch'.symm.trans hch
      rw [hgoto] at hfail
      cases hnext.symm.trans (congrArg Stage.next hfail)
  · obtain hmem | hlt := Waiting.picked hi (hwait hk hfree hapart) hk he hstill
    · exact hmem
    · exact absurd hlt (Nat.not_lt.mpr hlen)

namespace Sample

abbrev pair : Machine (Group Unit) (Event Unit) :=
  machine Consumer.Sample.settings (fun _ => some ⟨7, 2, [1, 1]⟩) none

def asked : List (Event Unit) :=
  [.assigned "m" 1 [("t", [0, 1])], .enter .next, .begin none]

def twice : List (Event Unit) :=
  [.choose, .initial ⟨some (failure .identity "" []), .ok none, unread.bounds⟩, .leave,
    .enter .next, .begin none, .choose]

end Sample

/-- Two partitions in two turns. -/
theorem rotation_fair_twice : ∃ g, Sample.pair.Run Sample.asked g
    ∧ (⟨"t", 1⟩ : GroupKey) ∈ (Sample.pair.outputs picks g Sample.twice).take 2 := by
  have hr := Sample.pair.run_reached Sample.asked rfl
  have hstill : ∀ before ∈ Sample.twice.inits,
      (Sample.pair.exec (Sample.pair.reached Sample.asked rfl) before).map assignments
        = some [⟨"t", 0⟩, ⟨"t", 1⟩] := by decide +kernel
  refine ⟨_, hr, (rotation_fair hr).2.2 Sample.twice _ (Option.some_get rfl).symm
    (fun before u hb hu => ?_) _ (by decide) rfl (by decide) (by decide)⟩
  have hu := (congrArg (Option.map assignments) hu).symm.trans
    (hstill before ((List.mem_inits _ _).mpr hb))
  exact (Option.some.inj hu).trans (by decide +kernel)

end Group

end Kafka
