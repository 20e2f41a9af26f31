import Fathomry.KafkaConsumer
import Fathomry.KafkaFence

/-!
# What a transaction reports

A call reports what became of its transaction in one word, and that word has
to be borne out by what happened. `Delivered` keeps the books of `deliver`:
each record is answered for once, so that as many answers as records are one
for each. `Told` ties what the call knows to the events of the run – a record
is acknowledged because the native client said so, the call commits because
all of them are and the identity was checked in between.
-/

namespace Kafka

variable {ε : Type}

def Slot.isReceived : Slot ε → Bool
  | .received => true
  | _ => false

namespace Producer

variable {value : Settings} {topics : Topics} {s s' : Producer ε} {c : ℕ} {e : Event ε}
  {x x' : Transact ε}

/-! ## What becomes of the records -/

/-- A record that has been acknowledged and whose identity is checked. -/
def Checked (w : Write ε) : Prop := w.state = .acknowledged ∧ w.identityChecked = true

/-- **The books of `deliver`.** -/
structure Delivered (x : Transact ε) : Prop where
  idle : ∀ i, x.index ≤ i → x.slots i = .idle
  counted : x.collected
    = ((Finset.range x.count).filter (fun i => (x.slots i).isReceived = true)).card
  /-- Without failures, what has been answered for is acknowledged at a
  known position. -/
  received : x.failures = [] → ∀ i, (x.slots i).isReceived = true →
    (x.writes i).state = .acknowledged ∧ (x.writes i).positionKnown = true

/-- Once there are as many answers as records, every record has its own. -/
theorem Delivered.all_received (h : Delivered x) (hc : x.collected = x.count) {i : ℕ}
    (hi : i < x.count) : (x.slots i).isReceived = true := by
  have hcard : ((Finset.range x.count).filter (fun i => (x.slots i).isReceived = true)).card
      = (Finset.range x.count).card := by
    rw [← h.counted, hc, Finset.card_range]
  exact Finset.card_filter_eq_iff.mp hcard i (Finset.mem_range.mpr hi)

theorem Delivered.advance (h : Delivered x) {t : Slot ε} (ht : t.isReceived = false)
    (w : Write ε) :
    Delivered { x with
      writes := Function.update x.writes x.index w
      slots := Function.update x.slots x.index t
      index := x.index + 1 } := by
  have hnot : (x.slots x.index).isReceived = false := by rw [h.idle _ le_rfl]; rfl
  -- The slot of the record is not that of an answer, neither before nor after.
  have hslots : ∀ i, (Function.update x.slots x.index t i).isReceived
      = (x.slots i).isReceived := by
    intro i
    obtain rfl | hne := eq_or_ne i x.index
    · rw [Function.update_self, ht, hnot]
    · rw [Function.update_of_ne hne]
  refine ⟨fun i hle => ?_, ?_, fun hf i hr => ?_⟩
  · have hne : i ≠ x.index := (Nat.lt_of_succ_le hle).ne'
    exact (Function.update_of_ne hne _ _).trans (h.idle i (Nat.le_of_succ_le hle))
  · simp only [hslots]
    exact h.counted
  · have hr' : (x.slots i).isReceived = true := (hslots i).symm.trans hr
    have hne : i ≠ x.index := by
      rintro rfl
      exact nomatch hnot.symm.trans hr'
    show (Function.update x.writes x.index w i).state = _
      ∧ (Function.update x.writes x.index w i).positionKnown = _
    rw [Function.update_of_ne hne]
    exact h.received hf i hr'

theorem Delivered.submit (h : Delivered x) (fenced : Option (Err ε)) :
    Delivered (x.submit fenced) := by
  unfold Transact.submit
  split
  · have hadv := h.advance (t := .unsent (failure .produce "not-submitted"
      [x.ctx.err, x.ctx.cause, fenced])) rfl (x.writes x.index)
    rwa [Function.update_eq_self] at hadv
  · exact h.advance rfl _

theorem answered_of_failureOf {w : Write ε} {r : Ack ε} (h : x.failureOf value w r = []) :
    (x.answered value w r).state = .acknowledged ∧ (x.answered value w r).positionKnown = true := by
  cases r with
  | error => cases h
  | ok r =>
    have hknown : (Transact.acknowledge value w r.1 r.2).positionKnown = true := by
      by_contra hne
      rw [show x.failureOf value w (.ok r) = _ from if_neg hne] at h
      cases h
    refine ⟨?_, hknown⟩
    show (Transact.acknowledge value w r.1 r.2).state = .acknowledged
    unfold Transact.acknowledge
    split
    · rfl
    · rfl

theorem Delivered.collect (h : Delivered x) {i : ℕ} (hi : i < x.count)
    (hx : x.slots i ≠ .idle) (hn : (x.slots i).isReceived = false) (r : Ack ε) :
    Delivered (x.collect value i r) where
  idle j hj := by
    obtain rfl | hne := eq_or_ne j i
    · exact absurd (h.idle j hj) hx
    · exact (Function.update_of_ne hne _ _).trans (h.idle j hj)
  counted := by
    have hset : (Finset.range x.count).filter
          (fun j => (Function.update x.slots i .received j).isReceived = true)
        = insert i ((Finset.range x.count).filter (fun j => (x.slots j).isReceived = true)) := by
      ext j
      simp only [Finset.mem_filter, Finset.mem_range, Finset.mem_insert]
      obtain rfl | hne := eq_or_ne j i
      · simp [Slot.isReceived, hi]
      · simp [hne]
    show x.collected + 1 = Finset.card _
    rw [show (x.collect value i r).slots = Function.update x.slots i .received from rfl,
      show (x.collect value i r).count = x.count from rfl, hset, Finset.card_insert_of_notMem,
      h.counted]
    simp [hn]
  received hf j hj := by
    obtain ⟨hf, hfi⟩ := List.append_eq_nil_iff.mp hf
    show (Function.update x.writes i _ j).state = _
      ∧ (Function.update x.writes i _ j).positionKnown = _
    obtain rfl | hne := eq_or_ne j i
    · rw [Function.update_self]
      exact answered_of_failureOf hfi
    · rw [Function.update_of_ne hne]
      refine h.received hf j ?_
      rwa [show (x.collect value i r).slots j = x.slots j from Function.update_of_ne hne _ _] at hj

variable {tr : List (Event ε)}

/-- **The commit of a call succeeded after its records were**: each had been
acknowledged by the native client, and the identity had been checked. -/
def CommittedAfter (tr : List (Event ε)) (c : ℕ) (x : Transact ε) : Prop :=
  (∀ i < x.count, Checked (x.writes i)) ∧
    ∃ pre post, tr = pre ++ .commit c none :: post ∧ .verify c none ∈ pre
      ∧ ∀ i < x.count, ∃ partition offset, .reply c i (.ok (partition, offset)) ∈ pre

/-- **What a call says of itself and the history bears out.** -/
structure Told (tr : List (Event ε)) (c : ℕ) (x : Transact ε) : Prop where
  delivered : Delivered x
  acked : ∀ i, (x.writes i).state = .acknowledged →
    ∃ partition offset, .reply c i (.ok (partition, offset)) ∈ tr
  ready : x.stage = .committing →
    .verify c none ∈ tr ∧ ∀ i < x.count, Checked (x.writes i)
  late : x.transaction = .committed ∨ x.transaction = .aborted → x.stage.late = true
  committed : x.transaction = .committed → CommittedAfter tr c x
  aborted : x.transaction = .aborted → ∃ cleanup, .abort c cleanup none ∈ tr

theorem told_new (records : List Outgoing) : Told tr c (.new value topics records) where
  delivered :=
    { idle := fun _ _ => rfl
      counted := by simp [Transact.new, Slot.isReceived]
      received := fun _ _ h => by cases h }
  acked i h := by
    have hstate : ∀ w ∈ records.map (Write.new (ε := ε) value topics),
        w.state ≠ .acknowledged := by
      intro w hw
      obtain ⟨r, -, rfl⟩ := List.mem_map.mp hw
      intro hx
      cases hx
    have hget : ((records.map (Write.new value topics)).getD i default).state
        = .acknowledged := h
    rw [List.getD_eq_getElem?_getD] at hget
    cases hi : (records.map (Write.new value topics))[i]? with
    | none =>
      rw [hi] at hget
      cases hget
    | some w =>
      rw [hi] at hget
      exact absurd hget (hstate w (List.mem_of_getElem? hi))
  ready h := by cases h
  late h := h.elim (fun h => by cases h) (fun h => by cases h)
  committed h := by cases h
  aborted h := by cases h

section

variable (h : Told tr c x)
include h

/-- A longer history bears out as much. -/
theorem Told.mono (e : Event ε) : Told (tr ++ [e]) c x where
  delivered := h.delivered
  acked i hi := by
    obtain ⟨p, o, hm⟩ := h.acked i hi
    exact ⟨p, o, List.mem_append_left _ hm⟩
  ready hs := ⟨List.mem_append_left _ (h.ready hs).1, (h.ready hs).2⟩
  late := h.late
  committed ht := by
    obtain ⟨hw, pre, post, rfl, hrest⟩ := h.committed ht
    exact ⟨hw, pre, post ++ [e], by rw [List.append_assoc, List.cons_append], hrest⟩
  aborted ht := by
    obtain ⟨cleanup, hm⟩ := h.aborted ht
    exact ⟨cleanup, List.mem_append_left _ hm⟩

theorem Told.keep {ctx : Ctx ε} {primary cleanup : Option (Err ε)} {watch : Watch}
    {stage : Transact.Stage} (hcom : stage = .committing → x.stage = .committing)
    (hlate : x.stage.late = true → stage.late = true) :
    Told tr c { x with
      ctx := ctx, primary := primary, cleanup := cleanup, watch := watch, stage := stage } where
  delivered := { h.delivered with }
  acked := h.acked
  ready hs := h.ready (hcom hs)
  late ht := hlate (h.late ht)
  committed := h.committed
  aborted := h.aborted

theorem Told.of_early (hs : x.stage.late = false) :
    x.transaction ≠ .committed ∧ x.transaction ≠ .aborted :=
  ⟨fun hx => (nomatch hs.symm.trans (h.late (.inl hx))),
    fun hx => nomatch hs.symm.trans (h.late (.inr hx))⟩

theorem Told.work (hs : x.stage = .delivering) (hd : Delivered x')
    (hack : ∀ i, (x'.writes i).state = .acknowledged → ∃ partition offset,
      .reply c i (.ok (partition, offset)) ∈ tr)
    (hst : x'.stage = .committing → .verify c none ∈ tr ∧ ∀ i < x'.count, Checked (x'.writes i))
    (ht : x'.transaction = x.transaction) : Told tr c x' where
  delivered := hd
  acked := hack
  ready := hst
  late hx := by
    rw [ht] at hx
    have hnone := h.of_early (by rw [hs]; rfl)
    exact (hx.elim hnone.1 hnone.2).elim
  committed hx := absurd (ht.symm.trans hx) (h.of_early (by rw [hs]; rfl)).1
  aborted hx := absurd (ht.symm.trans hx) (h.of_early (by rw [hs]; rfl)).2

/-- A call between two stages, of which the first has no verdict. -/
theorem Told.pass {a : Transact.Stage} (ha : x.stage = a) {ctx : Ctx ε}
    {primary cleanup : Option (Err ε)} {watch : Watch} {stage : Transact.Stage}
    (hab : stage ≠ .committing ∧ (a.late = true → stage.late = true)) :
    Told tr c { x with
      ctx := ctx, primary := primary, cleanup := cleanup, watch := watch, stage := stage } :=
  h.keep (fun hx => absurd hx hab.1) (ha ▸ hab.2)

omit h in
theorem state_submit (fenced : Option (Err ε)) {i : ℕ}
    (h : ((x.submit fenced).writes i).state = .acknowledged) :
    (x.writes i).state = .acknowledged := by
  unfold Transact.submit at h
  split at h
  · exact h
  · dsimp only at h
    obtain rfl | hne := eq_or_ne i x.index
    · rw [Function.update_self] at h
      cases h
    · rwa [Function.update_of_ne hne] at h

/-- An answer acknowledges at most the record it is for. -/
theorem Told.collect (hs : x.stage = .delivering) {i : ℕ} (hi : i < x.count)
    (hx : x.slots i ≠ .idle) (hn : (x.slots i).isReceived = false) {r : Ack ε}
    (hr : ∀ partition offset, r = .ok (partition, offset) →
      .reply c i (.ok (partition, offset)) ∈ tr) :
    Told tr c (x.collect value i r) := by
  refine h.work hs (h.delivered.collect hi hx hn r) (fun j hj => ?_) (fun hc => ?_) rfl
  · obtain rfl | hne := eq_or_ne j i
    · cases r with
      | ok r => exact ⟨r.1, r.2, hr r.1 r.2 rfl⟩
      | error err =>
        refine h.acked j ?_
        rwa [show (x.collect value j (.error err)).writes j = _ from Function.update_self ..] at hj
    · refine h.acked j ?_
      rwa [show (x.collect value i r).writes j = _ from Function.update_of_ne hne ..] at hj
  · rw [show (x.collect value i r).stage = x.stage from rfl, hs] at hc
    cases hc

omit h in
theorem settle_work (failures : List (Err ε)) :
    (x.settle failures).count = x.count ∧ (x.settle failures).writes = x.writes
      ∧ (x.settle failures).transaction = x.transaction
      ∧ (Delivered x → Delivered (x.settle failures)) := by
  cases failures with
  | nil | cons => exact ⟨rfl, rfl, rfl, fun h => { h with }⟩

/-- The end of `deliver`: it goes on to commit only when every record has
been acknowledged and checked. -/
theorem Told.verify (hs : x.stage = .delivering) (hc : x.collected = x.count) {err : Option (Err ε)}
    (hm : .verify c err ∈ tr) : Told tr c (x.verify err) := by
  cases err with
  | some err =>
    obtain ⟨-, hw, ht, hd⟩ := settle_work (x.failures ++ [err])
    refine h.work hs (hd h.delivered) (fun i hi => h.acked i (hw ▸ hi)) (fun hst => ?_) ht
    obtain ⟨-, hnil⟩ | hab := (stage_settle (x.failures ++ [err])).1
    · exact absurd hnil (List.append_ne_nil_of_right_ne_nil _ (List.cons_ne_nil _ _))
    · exact nomatch hst.symm.trans hab
  | none =>
    obtain ⟨hn, hw, ht, hd⟩ :=
      settle_work x.failures
    have hdel : Delivered { x with writes := fun i => Transact.check (x.writes i) } :=
      { h.delivered with }
    refine h.work hs (hd hdel) (fun i hi => h.acked i ?_) (fun hst => ⟨hm, fun i hi => ?_⟩) ht
    · rw [show (x.verify none).writes = _ from hw] at hi
      exact hi
    · have hi' : i < x.count := hn ▸ hi
      obtain ⟨-, hnil⟩ | hab :=
        (stage_settle x.failures).1
      · obtain ⟨hack, hknown⟩ :=
          h.delivered.received hnil i (h.delivered.all_received hc hi')
        rw [show (x.verify none).writes = _ from hw]
        refine ⟨hack, ?_⟩
        show (decide ((x.writes i).state = .acknowledged) && (x.writes i).positionKnown) = true
        rw [hack, hknown]
        rfl
      · exact nomatch hst.symm.trans hab

/-- **A turn keeps the history's word.** -/
theorem Told.turn (ht : Turned value s c e x x') : Told (tr ++ [e]) c x' := by
  have h' := h.mono e
  have hlast : e ∈ tr ++ [e] := List.mem_append_right _ (List.mem_singleton_self e)
  cases ht with
  | cancel | expire | unwatch => exact h'.keep id id
  | giveUp _ err hs | unpoisoned _ hs | unfenced _ hs | identified _ hs | install _ hs
  | fenced _ err hs | recheck _ hs | unheld _ err hs | hold _ hs | stop _ hs =>
    exact h'.pass hs (by decide)
  | refuse => exact h'.keep nofun (fun _ => rfl)
  | submit _ hs hi =>
    refine h'.work hs (h.delivered.submit _) (fun i hi => h'.acked i (state_submit _ hi))
      (fun hst => ?_) ?_
    · exact nomatch (hs.symm.trans (stage_submit _).1.symm).trans hst
    · unfold Transact.submit
      split
      · rfl
      · rfl
  | reply _ i r hs hi hx =>
    refine h'.collect hs hi (fun hn => ?_) (by rw [hx]; rfl) (fun p o hr => hr ▸ hlast)
    exact nomatch hx.symm.trans hn
  | refusal _ i r err hs hi hx =>
    refine h'.collect hs hi (fun hn => ?_) (by rw [hx]; rfl) nofun
    exact nomatch hx.symm.trans hn
  | verify _ err hs hc => exact h'.verify hs hc hlast

theorem Told.begin (err : Option (Native ε)) : Told tr c (x.begin err) := by
  have hunknown : Told tr c { x with transaction := .unknown, stage := .stopping } :=
    { delivered := { h.delivered with }
      acked := h.acked
      ready := nofun
      late := fun _ => rfl
      committed := nofun
      aborted := fun hx => nomatch hx }
  cases err with
  | some => exact hunknown.keep nofun id
  | none =>
    exact { delivered := { h.delivered with }
            acked := h.acked
            ready := nofun
            late := fun hx => hx.elim nofun nofun
            committed := nofun
            aborted := fun hx => nomatch hx }

theorem Told.commit (hs : x.stage = .committing) (err : Option (Native ε)) :
    Told (tr ++ [.commit c err]) c (x.committed err) := by
  cases err with
  | some => exact (h.mono _).pass hs (by decide)
  | none =>
    obtain ⟨hverify, hchecked⟩ := h.ready hs
    exact { delivered := { h.delivered with }
            acked := (h.mono _).acked
            ready := nofun
            late := fun _ => rfl
            committed := fun _ => ⟨hchecked, tr, [], rfl, hverify,
              fun i hi => h.acked i (hchecked i hi).1⟩
            aborted := fun hx => nomatch hx }

theorem Told.abort (hs : x.stage = .aborting) (cleanup : Ctx ε) (err : Option (Native ε)) :
    Told (tr ++ [.abort c cleanup err]) c (x.aborted cleanup err) := by
  cases err with
  | some => exact (h.mono _).pass hs (by decide)
  | none =>
    exact { delivered := { h.delivered with }
            acked := (h.mono _).acked
            ready := nofun
            late := fun _ => rfl
            committed := nofun
            aborted := fun _ => ⟨cleanup, List.mem_append_right _ (.head _)⟩ }

theorem Told.join (fenced : Option (Err ε)) : Told tr c (x.join fenced) := by
  cases fenced with
  | none | some => exact h.keep nofun (fun _ => rfl)

end

theorem told_of_step (h : ∀ c, Told tr c (s.calls.cell c)) (hs : Stepped value topics s e s') :
    ∀ c, Told (tr ++ [e]) c (s'.calls.cell c) := by
  have hother : ∀ d, Told (tr ++ [e]) d (s.calls.cell d) := fun d => (h d).mono e
  cases hs with
  | start records =>
    intro d
    rw [Heap.cell_alloc]
    split_ifs with hd
    · exact hd ▸ told_new records
    · exact hother d
  | turn c e f hc ht => exact forall_change (fun d _ => hother d) ((h c).turn ht)
  | acquire c hc hg hs =>
    exact forall_change (f := (·.goto .gated)) (fun d _ => hother d)
      ((hother c).pass hs (by decide))
  | begin c err =>
    exact forall_change (f := (·.begin err)) (fun d _ => hother d) ((hother c).begin err)
  | commit c err hc hs =>
    exact forall_change (f := (·.committed err)) (fun d _ => hother d) ((h c).commit hs err)
  | abort c cleanup err hc hs =>
    exact forall_change (f := (·.aborted cleanup err)) (fun d _ => hother d)
      ((h c).abort hs cleanup err)
  | join c =>
    exact forall_change (f := (·.join s.fenced)) (fun d _ => hother d) ((hother c).join _)
  | release c hc hs =>
    exact forall_change (f := (·.goto .returned)) (fun d _ => hother d)
      ((hother c).pass hs (by decide))
  | fence c =>
    exact forall_change (f := fun x => { x with watch := .joined }) (fun d _ => hother d)
      ((hother c).keep id id)

theorem early_of_step (hs : Stepped value topics s e s') {d : ℕ} (hd : d < s.calls.next)
    (h : (s.stage d).early = false) : (s'.stage d).early = false := by
  have hchange : ∀ {c : ℕ} {f : Transact ε → Transact ε},
      ((s.stage c).early = false → (f (s.calls.cell c)).stage.early = false) →
        (((s.change c f).calls.cell d).stage).early = false := by
    intro c f hf
    revert h
    exact forall_change (Q := fun d x => (s.stage d).early = false → x.stage.early = false)
      (fun _ _ h => h) hf d
  cases hs with
  | start =>
    show ((s.calls.alloc _).cell d).stage.early = false
    rw [Heap.cell_alloc_of_lt _ _ hd]
    exact h
  | turn c e f hc ht => exact hchange (moved ht).early
  | acquire c hc hg hs =>
    exact hchange (f := (·.goto .gated)) (fun hx => by rw [hs] at hx; exact nomatch hx)
  | begin c err hc hs =>
    exact hchange (f := (·.begin err)) (fun hx => by rw [hs] at hx; exact nomatch hx)
  | commit c err => exact hchange (f := (·.committed err)) (fun _ => by rw [committed_stage]; rfl)
  | abort c cleanup err =>
    exact hchange (f := (·.aborted cleanup err)) (fun _ => by rw [aborted_stage]; rfl)
  | join => exact hchange (f := (·.join s.fenced)) (fun _ => by rw [(join_stage _).1]; rfl)
  | release => exact hchange (f := (·.goto .returned)) (fun _ => rfl)
  | fence => exact hchange (f := fun x => { x with watch := .joined }) id

/-- **What holds of a producer and its history.** -/
structure History (tr : List (Event ε)) (s : Producer ε) : Prop where
  inv : Inv s
  told : ∀ c, Told tr c (s.calls.cell c)
  begun : ∀ e ∈ tr, ∀ d, e.begins = some d → d < s.calls.next ∧ (s.stage d).early = false

theorem next_le_of_step (hs : Stepped value topics s e s') : s.calls.next ≤ s'.calls.next := by
  cases hs with
  | start => exact Nat.le_succ _
  | _ => exact le_rfl

theorem begun_of_step (hs : Stepped value topics s e s') {d : ℕ} (hd : e.begins = some d) :
    d < s'.calls.next ∧ (s'.stage d).early = false := by
  cases hs with
  | turn c e f hc ht =>
    rw [begins_of_turned ht] at hd
    exact nomatch hd
  | begin c err hc =>
    obtain rfl := Option.some.inj hd
    refine ⟨hc, ?_⟩
    show ((s.change c (·.begin err)).stage c).early = false
    rw [stage_self, begin_stage]
    split
    · rfl
    · rfl
  | _ => exact nomatch hd

theorem history_of_run (hr : (machine value topics).Run tr s) : History tr s := by
  refine Machine.Run.invariant ?_ ?_ hr
  · exact ⟨inv_init, fun c => told_new [], nofun⟩
  · intro tr s e s' _ h hstep
    have hs := stepped hstep
    refine ⟨h.inv.step hs, told_of_step h.told hs, fun e' he' d hd => ?_⟩
    obtain hold | hnew := List.mem_append.mp he'
    · obtain ⟨hlt, hearly⟩ := h.begun e' hold d hd
      exact ⟨hlt.trans_le (next_le_of_step hs), early_of_step hs hlt hearly⟩
    · obtain rfl := List.mem_singleton.mp hnew
      exact begun_of_step hs hd

/-! ## The fence -/

def Event.endFails : Event ε → Bool
  | .commit _ err => err.isSome
  | .abort _ _ err => err.isSome
  | _ => false

/-- **An end that is not known shuts the producer.** -/
theorem shut_of_endFails (h : Inv s) (hs : Stepped value topics s e s')
    (he : e.endFails = true) : Shut s' := by
  cases hs with
  | commit c err hc hs | abort c cleanup err hc hs =>
    obtain ⟨err, rfl⟩ := Option.isSome_iff_exists.mp he
    exact h.shut_of_ended (by rw [hs]; rfl) rfl err
  | turn c e f hc ht =>
    have hd := decides_of_turned ht
    cases e with
    | commit | abort => cases hd
    | _ => cases he
  | _ => cases he

/-- **A fence shuts the producer** for everybody but its own call, and for
that too if it has begun. -/
theorem shut_of_fence (h : Inv s) (hs : Stepped value topics s (.fence c) s') :
    ShutBut (fun d => d = c ∧ s.stage c = .watched) s' := by
  have hinv := h.step hs
  cases hs with
  | turn c e f hc ht => exact nomatch decides_of_turned ht
  | fence c hc hw =>
    have hwatches : (s.stage c).watches = true := h.live c (by rw [hw]; rfl)
    have hpast : (s.stage c).past = true → s.stage c = .watched := by
      revert hwatches
      cases s.stage c
      all_goals decide
    have hstage : (s.fence c).stage c = s.stage c :=
      stage_self (f := fun x => { x with watch := .joined })
    refine hinv.shut_of_fenced (c := c) ?_ ?_ (fun hp => ?_)
    · exact Option.isSome_or.trans (Bool.or_true _)
    · rw [hstage]
      exact holds_of_watches hwatches
    · rw [hstage] at hp ⊢
      exact ⟨⟨rfl, hpast hp⟩, hpast hp⟩

/-- **The fence.** At any time at most one native transaction is open. Once
the end of a transaction has returned an error, no call begins any more, and
once a watch has fenced the producer, no other call does; its own call only
if it had not begun yet. A call says that it committed only if the native
commit succeeded, after every record had been acknowledged by the native
client and the identity checked, and that it aborted only after an abort that
succeeded. -/
theorem transaction_fenced (hr : (machine value topics).Run tr s) :
    s.opened.length ≤ 1
    ∧ (∀ pre post e, tr = pre ++ e :: post → e.endFails = true →
        ∀ e' ∈ post, e'.begins = none)
    ∧ (∀ pre post c, tr = pre ++ .fence c :: post →
        ∀ e ∈ post, ∀ d, e.begins = some d → d = c ∧ ∀ e' ∈ pre, e'.begins ≠ some c)
    ∧ ∀ c, ((s.calls.cell c).transaction = .committed → CommittedAfter tr c (s.calls.cell c))
      ∧ ((s.calls.cell c).transaction = .aborted → ∃ cleanup, .abort c cleanup none ∈ tr) := by
  have hist := history_of_run hr
  refine ⟨?_, ?_, ?_, fun c => ⟨(hist.told c).committed, (hist.told c).aborted⟩⟩
  · obtain hnil | ⟨c, -, heq, -⟩ := hist.inv.single
    · rw [hnil]
      exact Nat.zero_le 1
    · rw [heq]
      exact le_rfl
  · rintro pre post e rfl he e' he'
    obtain ⟨t, u, ht, hu, hexec⟩ := hr.split
    have hu' : Stepped value topics t e u := stepped hu
    have hshut := shut_of_endFails (history_of_run ht).inv hu' he
    refine Option.eq_none_iff_forall_ne_some.mpr (fun d hd => ?_)
    exact Machine.forall_mem_of_exec
      (fun hP hstep => hP.step (stepped hstep)) hshut hexec e' he' d hd
  · rintro pre post c rfl e he d hd
    obtain ⟨t, u, ht, hu, hexec⟩ := hr.split
    have hu' : Stepped value topics t (.fence c) u := stepped hu
    have hshut := shut_of_fence (history_of_run ht).inv hu'
    obtain ⟨rfl, hwatched⟩ := Machine.forall_mem_of_exec
      (fun hP hstep => hP.step (stepped hstep)) hshut hexec e he d hd
    refine ⟨rfl, fun e' he' hd' => ?_⟩
    have hearly := ((history_of_run ht).begun e' he' d hd').2
    rw [hwatched] at hearly
    cases hearly

namespace Sample

def through (c : ℕ) : List (Event Unit) :=
  [.acquire c, .checkPoison c, .checkFence c, .identify c none, .install c, .begin c none,
    .recheck c, .hold c none, .submit c, .reply c 0 (.ok (0, 5)), .verify c none]

def out (c : ℕ) : List (Event Unit) := [.stop c, .unwatch c, .join c, .release c]

def three : List (Event Unit) :=
  [.start [⟨"t", 0⟩], .start [⟨"t", 0⟩], .start [⟨"t", 0⟩]]
    ++ through 0 ++ [.commit 0 none] ++ out 0
    ++ through 1 ++ [.commit 1 (some (.other ()))] ++ out 1
    ++ [.acquire 2, .checkPoison 2, .release 2]

end Sample

/-- Of three calls the first commits and the second cannot, and the third
is turned away. -/
theorem transaction_fenced_three :
    ∃ s, (machine Consumer.Sample.settings (fun _ => some ⟨7, 1, [1]⟩)).Run Sample.three s
      ∧ CommittedAfter Sample.three 0 (s.calls.cell 0)
      ∧ (s.calls.cell 1).transaction = .unknown
      ∧ (s.calls.cell 2).primary = some (failure .state "transaction-fenced" [])
      ∧ s.opened.length ≤ 1 ∧ s.opened = [1] :=
  have hr := (machine Consumer.Sample.settings (fun _ => some ⟨7, 1, [1]⟩)).run_reached
    Sample.three rfl
  have hall := transaction_fenced hr
  ⟨_, hr, (hall.2.2.2 0).1 rfl, rfl, rfl, hall.1, rfl⟩

/-- **One call at a time, and no watch outlives its call.** Whoever is past
the gate has it, whoever has a watch at work has it, and so has the call
whose transaction is open, unless nobody begins one any more. -/
theorem gate_exclusive (hr : (machine value topics).Run tr s) :
    (∀ c, (s.stage c).holds = true ∨ (s.calls.cell c).watch.live = true → s.gate = some c)
    ∧ ∀ c ∈ s.opened, s.gate = some c ∨ Shut s := by
  have h := (history_of_run hr).inv
  refine ⟨fun c hc => h.held c (hc.elim id (fun hw => holds_of_watches (h.live c hw))),
    fun c hc => ?_⟩
  obtain hnil | ⟨d, -, hd, hopen⟩ := h.single
  · exact nomatch hnil ▸ hc
  · obtain rfl := List.mem_singleton.mp (hd ▸ hc)
    exact hopen.imp_left (fun ho => h.held c (holds_of_opens ho))

/-- The second call is at work. -/
theorem gate_exclusive_second :
    ∃ s, (machine Consumer.Sample.settings (fun _ => some ⟨7, 1, [1]⟩)).Run
        (Sample.three.take 33) s ∧ s.opened = [1] ∧ s.gate = some 1 :=
  have hr := (machine Consumer.Sample.settings (fun _ => some ⟨7, 1, [1]⟩)).run_reached
    (Sample.three.take 33) rfl
  ⟨_, hr, rfl, (gate_exclusive hr).1 1 (.inl rfl)⟩

end Producer

end Kafka
