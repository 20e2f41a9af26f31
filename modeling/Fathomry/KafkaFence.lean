import Fathomry.KafkaTransaction

/-!
# The fence of a transactional producer

What the gate is for is one native transaction at a time, and none after one
whose end is not known. The first needs the gate alone: whoever is past it
holds it. The second needs that the gate stays shut, and it is shut in two
ways that are seen at two different places – `poisoned` is asked for before
`failure` – so a call that is already past the first question must be stopped
by the second, and nobody may be past both.

`ShutBut` says that, with an exception. A watch may fence the producer while
its own call has not begun yet, and that call is then past both questions; it
will begin, find the fence and leave. Nobody else begins any more.
-/

namespace Kafka

variable {ε : Type}

/-! ## Stages -/

namespace Transact.Stage

def holds : Stage → Bool
  | .waiting | .returned => false
  | _ => true

/-- A call that has the gate and has not started its watch. -/
def checks : Stage → Bool
  | .gated | .unpoisoned | .unfenced | .identified => true
  | _ => false

/-- A call that is past both questions and has not begun. -/
def past : Stage → Bool
  | .unfenced | .identified | .watched => true
  | _ => false

/-- A call that has not begun. -/
def early : Stage → Bool
  | .waiting | .gated | .unpoisoned | .unfenced | .identified | .watched => true
  | _ => false

def opens : Stage → Bool
  | .begun | .holding | .delivering | .committing | .aborting => true
  | _ => false

/-- A call whose transaction has been ended, or was never begun. -/
def late : Stage → Bool
  | .stopping | .joining | .releasing | .returned => true
  | _ => false

def watches : Stage → Bool
  | .watched | .begun | .holding | .delivering | .committing | .aborting | .stopping
  | .joining => true
  | _ => false

end Transact.Stage

def Watch.live : Watch → Bool
  | .running | .grace => true
  | _ => false

/-! ## One call -/

namespace Producer

variable (value : Settings) (topics : Topics) (s : Producer ε)

def Event.begins : Event ε → Option ℕ
  | .begin c _ => some c
  | _ => none

def Event.decides : Event ε → Bool
  | .begin .. | .commit .. | .abort .. | .fence .. => true
  | _ => false

/-- **What an event makes of the call it belongs to**, when nothing is
changed that calls share. -/
inductive Turned (c : ℕ) : Event ε → Transact ε → Transact ε → Prop
  | cancel (x : Transact ε) (how : Cancellation Kind Unit (Native ε)) :
      Turned c (.cancel c how) x (x.cancel how)
  | giveUp (x : Transact ε) (err : Err ε) (hs : x.stage = .waiting) :
      Turned c (.giveUp c) x (x.fail err .returned)
  /-- One of the checks before the watch is started fails. -/
  | refuse (x : Transact ε) (e : Event ε) (err : Err ε) (he : e.decides = false)
      (hs : x.stage.checks = true) : Turned c e x (x.fail err .releasing)
  | unpoisoned (x : Transact ε) (hs : x.stage = .gated) (hp : s.poisoned = false) :
      Turned c (.checkPoison c) x (x.goto .unpoisoned)
  | unfenced (x : Transact ε) (hs : x.stage = .unpoisoned) (hf : s.fenced = none) :
      Turned c (.checkFence c) x (x.goto .unfenced)
  | identified (x : Transact ε) (hs : x.stage = .unfenced) :
      Turned c (.identify c none) x (x.goto .identified)
  | install (x : Transact ε) (hs : x.stage = .identified) : Turned c (.install c) x x.install
  | fenced (x : Transact ε) (err : Err ε) (hs : x.stage = .begun) (hf : s.fenced.isSome = true) :
      Turned c (.recheck c) x (x.fail err .stopping)
  | recheck (x : Transact ε) (hs : x.stage = .begun) : Turned c (.recheck c) x (x.goto .holding)
  | unheld (x : Transact ε) (err : Err ε) (hs : x.stage = .holding) :
      Turned c (.hold c (some err)) x (x.fail err .aborting)
  | hold (x : Transact ε) (hs : x.stage = .holding) :
      Turned c (.hold c none) x (x.goto .delivering)
  | submit (x : Transact ε) (hs : x.stage = .delivering) (hi : x.index < x.count) :
      Turned c (.submit c) x (x.submit s.fenced)
  | reply (x : Transact ε) (i : ℕ) (r : Ack ε) (hs : x.stage = .delivering) (hi : i < x.count)
      (hx : x.slots i = .sent) : Turned c (.reply c i r) x (x.collect value i r)
  /-- The answer for a record that was not handed over. -/
  | refusal (x : Transact ε) (i : ℕ) (r : Ack ε) (err : Err ε) (hs : x.stage = .delivering)
      (hi : i < x.count) (hx : x.slots i = .unsent err) :
      Turned c (.reply c i r) x (x.collect value i (.error err))
  | verify (x : Transact ε) (err : Option (Err ε)) (hs : x.stage = .delivering)
      (hc : x.collected = x.count) : Turned c (.verify c err) x (x.verify err)
  | stop (x : Transact ε) (hs : x.stage = .stopping) : Turned c (.stop c) x (x.goto .joining)
  | expire (x : Transact ε) (hw : x.watch = .running) :
      Turned c (.expire c) x { x with watch := .grace }
  | unwatch (x : Transact ε) (hs : x.stage = .joining) :
      Turned c (.unwatch c) x { x with watch := .joined }

/-- **What a step of a producer can do.** -/
inductive Stepped : Event ε → Producer ε → Prop
  | start (records : List Outgoing) :
      Stepped (.start records) { s with calls := s.calls.alloc (.new value topics records) }
  | turn (c : ℕ) (e : Event ε) (f : Transact ε → Transact ε) (hc : c < s.calls.next)
      (ht : Turned value s c e (s.calls.cell c) (f (s.calls.cell c))) : Stepped e (s.change c f)
  | acquire (c : ℕ) (hc : c < s.calls.next) (hg : s.gate = none) (hs : s.stage c = .waiting) :
      Stepped (.acquire c) (s.acquire c)
  | begin (c : ℕ) (err : Option (Native ε)) (hc : c < s.calls.next) (hs : s.stage c = .watched) :
      Stepped (.begin c err) (s.begin c err)
  | commit (c : ℕ) (err : Option (Native ε)) (hc : c < s.calls.next)
      (hs : s.stage c = .committing) :
      Stepped (.commit c err) (s.endTransaction c (·.committed err) err)
  | abort (c : ℕ) (cleanup : Ctx ε) (err : Option (Native ε)) (hc : c < s.calls.next)
      (hs : s.stage c = .aborting) :
      Stepped (.abort c cleanup err) (s.endTransaction c (·.aborted cleanup err) err)
  | join (c : ℕ) (hc : c < s.calls.next) (hs : s.stage c = .joining)
      (hw : (s.calls.cell c).watch = .joined) : Stepped (.join c) (s.join c)
  | release (c : ℕ) (hc : c < s.calls.next) (hs : s.stage c = .releasing) :
      Stepped (.release c) (s.release c)
  | fence (c : ℕ) (hc : c < s.calls.next) (hw : (s.calls.cell c).watch = .grace) :
      Stepped (.fence c) (s.fence c)

variable {value topics s} {s' : Producer ε} {c : ℕ} {e : Event ε}

variable {u : Producer ε}

theorem of_atStage {stage : Transact.Stage} (h : s.atStage c stage u = some s') :
    (c < s.calls.next ∧ s.stage c = stage) ∧ u = s' :=
  Option.ite_none_right_eq_some.mp h |>.imp_right Option.some.inj

theorem stepped (h : s.step value topics e = some s') : Stepped value topics s e s' := by
  revert h
  fun_cases step
  all_goals intro h
  any_goals cases h
  any_goals obtain ⟨⟨hc, hs⟩, rfl⟩ := of_atStage h
  · exact .start _
  · next how hc => exact .turn _ _ _ hc (.cancel _ how)
  · next hg => exact .acquire _ hc hg hs
  · exact .turn _ _ _ hc (.giveUp _ _ hs)
  · unfold checkPoison
    split_ifs with hp
    · exact .turn _ _ _ hc (.refuse _ _ _ rfl (congrArg Transact.Stage.checks hs))
    · exact .turn _ _ _ hc (.unpoisoned _ hs (eq_false_of_ne_true hp))
  · unfold checkFence
    split
    · exact .turn _ _ _ hc (.refuse _ _ _ rfl (congrArg Transact.Stage.checks hs))
    · exact .turn _ _ _ hc (.unfenced _ hs ‹_›)
  · unfold identify
    split
    · exact .turn _ _ _ hc (.refuse _ _ _ rfl (congrArg Transact.Stage.checks hs))
    · exact .turn _ _ _ hc (.identified _ hs)
  · unfold install
    split
    · exact .turn _ _ _ hc (.refuse _ _ _ rfl (congrArg Transact.Stage.checks hs))
    · exact .turn _ _ _ hc (.install _ hs)
  · exact .begin _ _ hc hs
  · unfold recheck
    split
    · exact .turn _ _ _ hc (.fenced _ _ hs (Option.isSome_of_eq_some ‹_›))
    · exact .turn _ _ _ hc (.recheck _ hs)
  · unfold hold
    split
    · exact .turn _ _ _ hc (.unheld _ _ hs)
    · exact .turn _ _ _ hc (.hold _ hs)
  · next hi => exact .turn _ _ _ hc (.submit _ hs hi)
  · next c i r =>
    obtain ⟨⟨hi, -⟩, hat⟩ := Option.ite_none_right_eq_some.mp h
    split at hat
    · obtain ⟨⟨hc, hs⟩, rfl⟩ := of_atStage hat
      exact .turn c _ _ hc (.reply _ i r hs hi ‹_›)
    · obtain ⟨⟨hc, hs⟩, rfl⟩ := of_atStage hat
      exact .turn c _ _ hc (.refusal _ i r _ hs hi ‹_›)
    · cases hat
  · next err hn => exact .turn _ _ _ hc (.verify _ err hs hn)
  · exact .commit _ _ hc hs
  · exact .abort _ _ _ hc hs
  · exact .turn _ _ _ hc (.stop _ hs)
  · next hw => exact .join _ hc hs hw
  · exact .release _ hc hs
  · next hw => exact .turn _ _ _ hw.1 (.expire _ hw.2.1)
  · next hw => exact .fence _ hw.1 hw.2
  · exact .turn _ _ _ hc (.unwatch _ hs)

/-! ## What calls share -/

variable {x x' : Transact ε}

/-- **What the shared state sees of a turn.** -/
structure Moved (s : Producer ε) (x x' : Transact ε) : Prop where
  held : x'.stage.holds = x.stage.holds
  unpoisoned : x'.stage = .unpoisoned → x.stage = .unpoisoned ∨ s.poisoned = false
  past : x'.stage.past = true →
    x.stage.past = true ∨ (x.stage = .unpoisoned ∧ s.fenced = none)
  watched : x.stage = .watched → x'.stage = .watched
  opens : x.stage.opens = true → x'.stage.opens = true ∨ s.fenced.isSome = true
  live : x'.watch.live = true → x.watch.live = true ∨ x'.stage.watches = true
  watches : x.stage.watches = true → x'.stage.watches = true
  early : x.stage.early = false → x'.stage.early = false

theorem Moved.of_same (hs : x'.stage = x.stage)
    (hw : x'.watch.live = true → x.watch.live = true) : Moved s x x' where
  held := congrArg _ hs
  unpoisoned h := .inl (hs ▸ h)
  past h := .inl (hs ▸ h)
  watched h := hs.trans h
  opens h := .inl (hs ▸ h)
  live h := .inl (hw h)
  watches h := hs ▸ h
  early h := hs ▸ h

theorem stage_submit (fenced : Option (Err ε)) :
    (x.submit fenced).stage = x.stage ∧ (x.submit fenced).watch = x.watch := by
  unfold Transact.submit
  split
  all_goals exact ⟨rfl, rfl⟩

theorem stage_settle (failures : List (Err ε)) :
    ((x.settle failures).stage = .committing ∧ failures = [] ∨
      (x.settle failures).stage = .aborting) ∧ (x.settle failures).watch = x.watch := by
  cases failures with
  | nil => exact ⟨.inl ⟨rfl, rfl⟩, rfl⟩
  | cons => exact ⟨.inr rfl, rfl⟩

variable {a : Transact.Stage}

theorem Moved.of_stage {b : Transact.Stage} (ha : x.stage = a) (hb : x'.stage = b)
    (hw : x'.watch = x.watch)
    (hab : b.holds = a.holds ∧ b ≠ .unpoisoned ∧ (b.past = true → a.past = true) ∧ a ≠ .watched
      ∧ (a.opens = true → b.opens = true) ∧ (a.watches = true → b.watches = true)
      ∧ (a.early = false → b.early = false)) :
    Moved s x x' := by
  subst ha hb
  obtain ⟨hheld, hun, hpast, hwa, hop, hws, hea⟩ := hab
  exact ⟨hheld, fun h => absurd h hun, fun h => .inl (hpast h), fun h => absurd h hwa,
    fun h => .inl (hop h), fun h => .inl (hw ▸ h), hws, hea⟩

section

attribute [local simp] Transact.Stage.holds Transact.Stage.past Transact.Stage.opens
  Transact.Stage.watches Transact.Stage.early

theorem moved (h : Turned value s c e x x') : Moved s x x' := by
  cases h with
  | cancel | reply | refusal => exact .of_same rfl id
  | giveUp _ err hs => exact .of_stage (b := .returned) hs rfl rfl (by decide)
  | refuse _ _ err _ hs =>
    have hcheck : ∀ {a}, x.stage = a → Transact.Stage.checks a = true →
        Moved s x (x.fail err .releasing) := by
      intro a ha hk
      refine .of_stage (b := .releasing) ha rfl rfl ?_
      revert hk
      cases a
      all_goals decide
    exact hcheck rfl hs
  | unpoisoned _ hs hp =>
    constructor
    all_goals simp [hs, hp, Transact.goto]
  | unfenced _ hs hf =>
    constructor
    all_goals simp [hs, hf, Transact.goto]
  | identified _ hs => exact .of_stage (b := .identified) hs rfl rfl (by decide)
  | install _ hs =>
    constructor
    all_goals simp [hs, Transact.install]
  | fenced _ err hs hf =>
    constructor
    all_goals simp [hs, hf, Transact.fail]
  | recheck _ hs => exact .of_stage (b := .holding) hs rfl rfl (by decide)
  | unheld _ err hs => exact .of_stage (b := .aborting) hs rfl rfl (by decide)
  | hold _ hs => exact .of_stage (b := .delivering) hs rfl rfl (by decide)
  | submit => exact .of_same (stage_submit _).1 (fun h => (stage_submit _).2 ▸ h)
  | verify _ err hs =>
    have hsettle : ∀ {y : Transact ε} {failures : List (Err ε)}, y.watch = x.watch →
        Moved s x (y.settle failures) := by
      intro y failures hw
      obtain ⟨⟨hst, -⟩ | hst, hwy⟩ := stage_settle failures
      all_goals exact .of_stage hs hst (hwy.trans hw) (by decide)
    cases err with
    | none | some => exact hsettle rfl
  | stop _ hs => exact .of_stage (b := .joining) hs rfl rfl (by decide)
  | expire _ hw => exact .of_same rfl (fun _ => by rw [hw]; rfl)
  | unwatch => exact .of_same rfl nofun

end

theorem decides_of_turned (h : Turned value s c e x x') : e.decides = false := by
  cases h with
  | refuse _ _ err he => exact he
  | _ => rfl

theorem begins_of_turned (h : Turned value s c e x x') : e.begins = none := by
  have he := decides_of_turned h
  cases e with
  | begin => cases he
  | _ => rfl

variable {f : Transact ε → Transact ε}

theorem forall_change {Q : ℕ → Transact ε → Prop} (hQ : ∀ d, d ≠ c → Q d (s.calls.cell d))
    (hf : Q c (f (s.calls.cell c))) (d : ℕ) : Q d ((s.change c f).calls.cell d) :=
  s.calls.forall_modify d (hQ d) hf

theorem stage_self : (s.change c f).stage c = (f (s.calls.cell c)).stage :=
  congrArg Transact.stage (Heap.cell_modify_self s.calls c f)

/-- **A producer on which nobody begins any more**, except for calls that
are about to. -/
structure ShutBut (P : ℕ → Prop) (s : Producer ε) : Prop where
  closed : s.fenced.isSome = true ∨ s.poisoned = true ∧ ∀ d, s.stage d ≠ .unpoisoned
  past : ∀ d, (s.stage d).past = true → P d ∧ s.stage d = .watched

variable {P : ℕ → Prop}

/-- The gate is not opened again by a change of one call that brings it
neither between the two questions nor past them. -/
theorem ShutBut.change (h : ShutBut P s) (c : ℕ) (f : Transact ε → Transact ε)
    (hu : u.calls = (s.change c f).calls) (hf : s.fenced.isSome = true → u.fenced.isSome = true)
    (hp : s.poisoned = true → u.poisoned = true)
    (hun : s.poisoned = true → (f (s.calls.cell c)).stage = .unpoisoned → s.stage c = .unpoisoned)
    (hpast : (f (s.calls.cell c)).stage.past = true → P c ∧ (f (s.calls.cell c)).stage = .watched) :
    ShutBut P u where
  closed := by
    refine h.closed.imp hf (fun hc => ⟨hp hc.1, ?_⟩)
    unfold stage
    rw [hu]
    exact forall_change (Q := fun _ x => x.stage ≠ .unpoisoned) (fun d _ => hc.2 d)
      (fun hx => hc.2 c (hun hc.1 hx))
  past := by
    unfold stage
    rw [hu]
    exact forall_change (Q := fun d x => x.stage.past = true → P d ∧ x.stage = .watched)
      (fun d _ => h.past d) hpast

/-- A change that brings a call to a stage outside that stretch. -/
theorem ShutBut.leave (h : ShutBut P s) (c : ℕ) (f : Transact ε → Transact ε)
    (hu : u.calls = (s.change c f).calls) (hf : s.fenced.isSome = true → u.fenced.isSome = true)
    (hp : s.poisoned = true → u.poisoned = true) {b : Transact.Stage}
    (hb : (f (s.calls.cell c)).stage = b) (hun : b ≠ .unpoisoned) (hpast : b.past = false) :
    ShutBut P u := by
  subst hb
  refine h.change c f hu hf hp (fun _ hx => absurd hx hun) (fun hx => ?_)
  rw [hpast] at hx
  cases hx

theorem begin_stage (err : Option (Native ε)) :
    (x.begin err).stage = if err.isSome then .stopping else .begun := by
  cases err with
  | none | some => rfl

theorem committed_stage (err : Option (Native ε)) : (x.committed err).stage = .stopping := by
  cases err with
  | none | some => rfl

theorem aborted_stage (cleanup : Ctx ε) (err : Option (Native ε)) :
    (x.aborted cleanup err).stage = .stopping := by
  cases err with
  | none | some => rfl

theorem join_stage (fenced : Option (Err ε)) :
    (x.join fenced).stage = .releasing ∧ (x.join fenced).watch = x.watch := by
  cases fenced with
  | none | some => exact ⟨rfl, rfl⟩

/-- **The gate stays shut**, and only who is excepted begins. -/
theorem ShutBut.step (h : ShutBut P s) (hs : Stepped value topics s e s') :
    ShutBut P s' ∧ ∀ d, e.begins = some d → P d := by
  cases hs with
  | start =>
    refine ⟨⟨h.closed.imp id (fun hc => ⟨hc.1, fun d => ?_⟩), fun d => ?_⟩, nofun⟩
    · exact s.calls.alloc_cases (Q := fun _ x => x.stage ≠ .unpoisoned) d (fun _ => hc.2 d) nofun
    · exact s.calls.alloc_cases (Q := fun d x => x.stage.past = true → P d ∧ x.stage = .watched) d
        (fun _ => h.past d) nofun
  | turn c e f hc ht =>
    have hm := moved ht
    have hpast : (f (s.calls.cell c)).stage.past = true →
        P c ∧ (f (s.calls.cell c)).stage = .watched := by
      intro hx
      obtain hx | ⟨hx, hf⟩ := hm.past hx
      · exact ⟨(h.past c hx).1, hm.watched (h.past c hx).2⟩
      · obtain hf' | hc := h.closed
        · rw [hf] at hf'
          cases hf'
        · exact absurd hx (hc.2 c)
    refine ⟨h.change c f rfl id id (fun hp hx => ?_) hpast, fun d hx => ?_⟩
    · exact (hm.unpoisoned hx).resolve_right (fun hp' => nomatch hp.symm.trans hp')
    · rw [begins_of_turned ht] at hx
      cases hx
  | acquire c =>
    exact ⟨h.leave c (·.goto .gated) rfl id id (b := .gated) rfl (by decide) rfl, nofun⟩
  | begin c err hc hs =>
    refine ⟨?_, fun d hx => ?_⟩
    · refine h.leave c (·.begin err) rfl id id (begin_stage err) ?_ ?_
      · split
        all_goals decide
      · split
        all_goals rfl
    · cases hx
      exact (h.past c (by rw [hs]; rfl)).1
  | commit c err =>
    exact ⟨h.leave c (·.committed err) rfl id Bool.or_inl (committed_stage err) (by decide) rfl,
      nofun⟩
  | abort c cleanup err =>
    exact ⟨h.leave c (·.aborted cleanup err) rfl id Bool.or_inl (aborted_stage cleanup err)
      (by decide) rfl, nofun⟩
  | join c =>
    exact ⟨h.leave c (·.join s.fenced) rfl id Bool.or_inl (join_stage _).1 (by decide) rfl,
      nofun⟩
  | release c =>
    exact ⟨h.leave c (·.goto .returned) rfl id id (b := .returned) rfl (by decide) rfl, nofun⟩
  | fence c =>
    refine ⟨h.change c (fun x => { x with watch := .joined }) rfl (fun hf => ?_) id
      (fun _ hx => hx) (h.past c), nofun⟩
    exact Option.isSome_or.trans (Bool.or_inl hf)

/-- A producer on which nobody begins any more. -/
abbrev Shut (s : Producer ε) : Prop := ShutBut (fun _ => False) s

/-- **What holds of a producer at any time.** -/
structure Inv (s : Producer ε) : Prop where
  held : ∀ c, (s.stage c).holds = true → s.gate = some c
  /-- A watch at work is that of a call that has not joined it. -/
  live : ∀ c, (s.calls.cell c).watch.live = true → (s.stage c).watches = true
  /-- The one transaction that is open belongs to a call that is going to
  end it, or is the last. -/
  single : s.opened = [] ∨
    ∃ c < s.calls.next, s.opened = [c] ∧ ((s.stage c).opens = true ∨ Shut s)

theorem inv_init : Inv (init (ε := ε) value topics) where
  held _ h := nomatch h
  live _ h := nomatch h
  single := .inl rfl

theorem holds_of_opens (h : a.opens = true) : a.holds = true := by
  revert h
  cases a
  all_goals decide

theorem holds_of_past (h : a.past = true) : a.holds = true := by
  revert h
  cases a
  all_goals decide

theorem holds_of_watches (h : a.watches = true) : a.holds = true := by
  revert h
  cases a
  all_goals decide

theorem Inv.gate_eq (h : Inv s) (hs : s.stage c = a) (ha : a.holds = true) : s.gate = some c :=
  h.held c (hs ▸ ha)

/-- Only one call is past the gate. -/
theorem Inv.unique (h : Inv s) {d : ℕ} (hc : (s.stage c).holds = true)
    (hd : (s.stage d).holds = true) : d = c :=
  Option.some.inj ((h.held d hd).symm.trans (h.held c hc))

/-- **A fence shuts the producer** for everybody but the call whose gate it
is. -/
theorem Inv.shut_of_fenced (h : Inv s) (hf : s.fenced.isSome = true) (hc : (s.stage c).holds = true)
    (hP : (s.stage c).past = true → P c ∧ s.stage c = .watched) : ShutBut P s where
  closed := .inl hf
  past := by
    intro d hd
    obtain rfl := h.unique hc (holds_of_past hd)
    exact hP hd

/-- A call that has ended, not knowing how, shuts the producer. -/
theorem Inv.shut_of_ended (h : Inv s) (hc : (s.stage c).holds = true)
    (hf : (f (s.calls.cell c)).stage = .stopping) (err : Native ε) :
    Shut (s.endTransaction c f (some err)) := by
  have hother : ∀ d, d ≠ c → (s.stage d).holds = false := by
    intro d hd
    exact eq_false_of_ne_true (fun hh => hd (h.unique hc hh))
  refine ⟨.inr ⟨Bool.or_true _, ?_⟩, ?_⟩
  · refine forall_change (Q := fun _ x => x.stage ≠ .unpoisoned) (fun d hd hx => ?_) ?_
    · have hh := hother d hd
      rw [show s.stage d = .unpoisoned from hx] at hh
      cases hh
    · rw [hf]
      decide
  · refine forall_change (Q := fun _ x => x.stage.past = true → False ∧ x.stage = .watched)
      (fun d hd hx => ?_) ?_
    · exact nomatch (hother d hd).symm.trans (holds_of_past hx)
    · rw [hf]
      exact nofun

/-- The transaction that is open stays the only one when none is begun or
ended. -/
theorem Inv.single_of_step (h : Inv s) (hs : Stepped value topics s e s')
    (ho : s'.opened = s.opened) (hn : s.calls.next ≤ s'.calls.next)
    (hop : ∀ d < s.calls.next, (s.stage d).opens = true →
      (s'.stage d).opens = true ∨ s.fenced.isSome = true) :
    s'.opened = [] ∨
      ∃ c < s'.calls.next, s'.opened = [c] ∧ ((s'.stage c).opens = true ∨ Shut s') := by
  rw [ho]
  refine h.single.imp id (fun ⟨c, hc, heq, hsingle⟩ => ⟨c, hc.trans_le hn, heq, ?_⟩)
  obtain hopens | hshut := hsingle
  · refine (hop c hc hopens).imp id (fun hf => ?_)
    refine ((h.shut_of_fenced hf (holds_of_opens hopens) (fun hp => ?_)).step hs).1
    generalize s.stage c = a at hopens hp
    revert hopens hp
    cases a
    all_goals decide
  · exact .inr (hshut.step hs).1

/-- A call is begun only when no transaction is open. -/
theorem Inv.opened_of_watched (h : Inv s) (hs : s.stage c = .watched) : s.opened = [] := by
  refine h.single.resolve_right (fun ⟨d, _, _, hd⟩ => ?_)
  have hc : (s.stage c).holds = true := by rw [hs]; rfl
  obtain hopens | hshut := hd
  · obtain rfl := h.unique hc (holds_of_opens hopens)
    rw [hs] at hopens
    cases hopens
  · exact (hshut.past c (by rw [hs]; rfl)).1

theorem Inv.single_of_end (h : Inv s) (hc : (s.stage c).opens = true)
    (hf : (f (s.calls.cell c)).stage = .stopping) (err : Option (Native ε))
    (hs : Stepped value topics s e (s.endTransaction c f err)) :
    (s.endTransaction c f err).opened = [] ∨
      ∃ d < s.calls.next, (s.endTransaction c f err).opened = [d]
        ∧ (((s.endTransaction c f err).stage d).opens = true
          ∨ Shut (s.endTransaction c f err)) := by
  have hhold := holds_of_opens hc
  cases err with
  | some err =>
    exact h.single.imp id (fun ⟨d, hd, heq, _⟩ => ⟨d, hd, heq, .inr (h.shut_of_ended hhold hf err)⟩)
  | none =>
    have hopened : (s.endTransaction c f none).opened = s.opened.erase c := rfl
    obtain hnil | ⟨d, hd, heq, hsingle⟩ := h.single
    · exact .inl (by rw [hopened, hnil, List.erase_nil])
    · rw [hopened, heq]
      obtain rfl | hne := eq_or_ne d c
      · exact .inl (List.erase_cons_head ..)
      · refine .inr ⟨d, hd, ?_, .inr ?_⟩
        · exact List.erase_of_not_mem (fun hm => hne (List.mem_singleton.mp hm).symm)
        · refine ((hsingle.resolve_left (fun hopens => ?_)).step hs).1
          exact hne (h.unique hhold (holds_of_opens hopens))

theorem Inv.of_change (h : Inv s) (c : ℕ) (f : Transact ε → Transact ε)
    (hu : u.calls = (s.change c f).calls) (hother : ∀ d, d ≠ c → s.gate = some d → u.gate = some d)
    (hheld : (f (s.calls.cell c)).stage.holds = true → u.gate = some c)
    (hlive : (f (s.calls.cell c)).watch.live = true → (f (s.calls.cell c)).stage.watches = true)
    (hsingle : u.opened = [] ∨ ∃ c < u.calls.next,
      u.opened = [c] ∧ ((u.stage c).opens = true ∨ Shut u)) :
    Inv u where
  held := by
    unfold stage
    rw [hu]
    exact forall_change (Q := fun d x => x.stage.holds = true → u.gate = some d)
      (fun d hd hx => hother d hd (h.held d hx)) hheld
  live := by
    unfold stage
    rw [hu]
    exact forall_change (Q := fun _ x => x.watch.live = true → x.stage.watches = true)
      (fun d _ => h.live d) hlive
  single := hsingle

theorem opens_of_change (c : ℕ) (f : Transact ε → Transact ε) (hu : u.calls = (s.change c f).calls)
    {F : Prop} (hf : (s.stage c).opens = true → (f (s.calls.cell c)).stage.opens = true ∨ F) :
    ∀ d, (s.stage d).opens = true → (u.stage d).opens = true ∨ F := by
  intro d hd
  unfold stage
  rw [hu]
  revert hd
  exact forall_change (Q := fun d x => (s.stage d).opens = true → x.stage.opens = true ∨ F)
    (fun _ _ => .inl) hf d

theorem Inv.step (h : Inv s) (hs : Stepped value topics s e s') : Inv s' := by
  have hs₀ := hs
  cases hs with
  | start records =>
    refine ⟨fun d => ?_, fun d => ?_, h.single_of_step hs₀ rfl (Nat.le_succ _) fun d hd ho => ?_⟩
    · exact s.calls.alloc_cases (Q := fun d x => x.stage.holds = true → s.gate = some d) d
        (fun _ => h.held d) nofun
    · exact s.calls.alloc_cases (Q := fun _ x => x.watch.live = true → x.stage.watches = true) d
        (fun _ => h.live d) nofun
    · unfold stage
      rw [show (s.calls.alloc _).cell d = _ from Heap.cell_alloc_of_lt _ _ hd]
      exact .inl ho
  | turn c e f hc ht =>
    have hm := moved ht
    refine h.of_change c f rfl (fun _ _ => id) (fun hx => h.held c (hm.held ▸ hx))
      (fun hx => ?_) ?_
    · exact (hm.live hx).elim (fun hw => hm.watches (h.live c hw)) id
    · exact h.single_of_step hs₀ rfl le_rfl (fun d _ => opens_of_change c f rfl hm.opens d)
  | acquire c hc hg =>
    have hnone : ∀ d, (s.stage d).holds = false := by
      intro d
      refine eq_false_of_ne_true (fun hd => ?_)
      exact nomatch hg.symm.trans (h.held d hd)
    refine h.of_change c (·.goto .gated) rfl (fun d _ hd => ?_) (fun _ => rfl) (fun hx => ?_) ?_
    · exact nomatch hg.symm.trans hd
    · exact nomatch (hnone c).symm.trans (holds_of_watches (h.live c hx))
    · refine h.single_of_step hs₀ rfl le_rfl (fun d _ hd => ?_)
      exact nomatch (hnone d).symm.trans (holds_of_opens hd)
  | begin c err hc hs =>
    have hopened := h.opened_of_watched hs
    refine h.of_change c (·.begin err) rfl (fun _ _ => id) (fun _ => h.gate_eq hs rfl)
      (fun _ => ?_) ?_
    · rw [begin_stage]
      split
      all_goals rfl
    · cases err with
      | some => exact .inl hopened
      | none =>
        refine .inr ⟨c, hc, ?_, .inl ?_⟩
        · show s.opened ++ [c] = [c]
          rw [hopened, List.nil_append]
        · show ((s.change c (·.begin none)).stage c).opens = true
          rw [stage_self]
          rfl
  | commit c err hc hs =>
    refine h.of_change c (·.committed err) rfl (fun _ _ => id) (fun _ => h.gate_eq hs rfl)
      (fun _ => ?_) ?_
    · rw [committed_stage]
      rfl
    · exact h.single_of_end (by rw [hs]; rfl) (committed_stage err) err hs₀
  | abort c cleanup err hc hs =>
    refine h.of_change c (·.aborted cleanup err) rfl (fun _ _ => id) (fun _ => h.gate_eq hs rfl)
      (fun _ => ?_) ?_
    · rw [aborted_stage]
      rfl
    · exact h.single_of_end (by rw [hs]; rfl) (aborted_stage cleanup err) err hs₀
  | join c hc hs hw =>
    refine h.of_change c (·.join s.fenced) rfl (fun _ _ => id) (fun _ => h.gate_eq hs rfl)
      (fun hx => ?_) ?_
    · rw [(join_stage _).2, hw] at hx
      cases hx
    · refine h.single_of_step hs₀ rfl le_rfl (fun d _ => ?_)
      refine opens_of_change c (·.join s.fenced) rfl (fun hx => ?_) d
      rw [hs] at hx
      cases hx
  | release c hc hs =>
    refine h.of_change c (·.goto .returned) rfl (fun d hd hx => ?_) nofun
      (fun hx => ?_) ?_
    · exact absurd (Option.some.inj (hx.symm.trans (h.gate_eq hs rfl))) hd
    · have hw : (s.stage c).watches = true := h.live c hx
      rw [hs] at hw
      cases hw
    · refine h.single_of_step hs₀ rfl le_rfl (fun d _ => ?_)
      refine opens_of_change c (·.goto .returned) rfl (fun hx => ?_) d
      rw [hs] at hx
      cases hx
  | fence c =>
    refine h.of_change c (fun x => { x with watch := .joined }) rfl (fun _ _ => id) (h.held c)
      nofun ?_
    refine h.single_of_step hs₀ rfl le_rfl (fun d _ => ?_)
    exact opens_of_change c (fun x => { x with watch := .joined }) rfl .inl d

end Producer

end Kafka
