import Fathomry.Heap
import Fathomry.Machine

/-!
# The acknowledgement queue of a socket run

An event that arrives on the socket is handed out with a one-shot decision.
The caller's `Acknowledge` or `Reject` puts the event into a channel, and the
one goroutine that serves the connection takes it from there and writes the
frame. The channel has as many slots as there may be events without an
acknowledgement, so it looks as if there were always room.

There is not. The loop answers an event whose deadline has passed by itself, and
the event leaves the set of pending ones while **its entry stays in the
channel**. A new event may arrive before the loop takes it out, and its first
decision then finds the channel full (`SocketRun.refused_by_leftover`). Nothing
else fills it: when a decision is refused for want of room, the channel holds an
entry of an expired event, and the refused event is left undecided
(`SocketRun.room_but_for_expired`).

The instants are numbers and the clock is read where the code reads it. What the
connection does is decided by the labels; a failure of any kind ends the
service, which abandons what is pending and empties the channel.
-/

namespace Lark

/-- The kinds of failure a decision meets. -/
inductive Kind
  | input | acknowledgement | limit
deriving DecidableEq

structure Fault where
  kind : Kind
  operation : String
deriving DecidableEq

/-- The options that matter, and the check that a reply is a JSON object. -/
structure Options where
  maxPending : ℕ
  ackTimeout : ℕ
  object : String → Bool

/-- What a caller decides: 200 with a reply, or 500 with none. -/
structure Decision where
  code : ℕ
  reply : String
  canceled : Bool

def socketReplyLimit : ℕ := 30 * 1024

/-- **An event that awaits its acknowledgement.** -/
structure SocketPending where
  generation : ℕ
  deadline : ℕ
  claimed : Bool
  closed : Bool
  code : ℕ
  response : String
deriving DecidableEq

/-- Where the serving goroutine is: between connections, at the head of its
loop, among the expired events as of an instant, at its `select`, or on its
way out with an error. -/
inductive Loop
  | idle
  | top
  | sweeping (now : ℕ)
  | select
  | leaving
deriving DecidableEq

structure SocketRun where
  clock : ℕ
  done : Bool
  active : Bool
  generation : ℕ
  /-- Every event handed out, by its address. -/
  events : Heap SocketPending
  pending : List ℕ
  acknowledgements : List ℕ
  loop : Loop

structure Ack where
  generation : ℕ
  code : ℕ
  response : String
  primary : Option Fault

namespace SocketPending

def claim (d : Decision) (p : SocketPending) : SocketPending :=
  { p with claimed := true, code := d.code, response := d.reply }

/-- A decision that found no room is taken back, but for its code. -/
def unclaim (d : Decision) (p : SocketPending) : SocketPending :=
  { p with claimed := false, code := d.code, response := "" }

def close (p : SocketPending) : SocketPending := { p with closed := true, response := "" }

end SocketPending

namespace SocketRun

def start : SocketRun :=
  ⟨0, false, false, 0, .empty ⟨0, 0, false, false, 0, ""⟩, [], [], .idle⟩

/-- **A decision about an event.** -/
def submit (o : Options) (run : SocketRun) (e : ℕ) (d : Decision) : SocketRun × Except Fault Unit :=
  if socketReplyLimit < d.reply.utf8ByteSize ∨ d.reply ≠ "" ∧ o.object d.reply = false then
    (run, .error ⟨.input, "websocket-ack"⟩)
  else if d.canceled then (run, .error ⟨.acknowledgement, "websocket-ack"⟩)
  else if run.active = false ∨ (run.events.cell e).closed ∨ (run.events.cell e).claimed
      ∨ (run.events.cell e).generation ≠ run.generation
      ∨ (run.events.cell e).deadline ≤ run.clock ∨ run.done then
    (run, .error ⟨.acknowledgement, "websocket-ack-state"⟩)
  else if run.acknowledgements.length < o.maxPending then
    ({ run with
        events := run.events.modify e (SocketPending.claim d)
        acknowledgements := run.acknowledgements ++ [e] }, .ok ())
  else
    ({ run with events := run.events.modify e (SocketPending.unclaim d) },
      .error ⟨.limit, "websocket-ack-queue"⟩)

/-- What is written for an event: what was decided, unless it is too late or
the caller has gone. -/
def verdict (run : SocketRun) (e : ℕ) (expired canceled : Bool) : Ack :=
  let p := run.events.cell e
  if p.claimed ∧ canceled then
    ⟨p.generation, 500, "", some ⟨.acknowledgement, "websocket-ack-canceled"⟩⟩
  else if expired ∨ p.deadline ≤ run.clock then
    ⟨p.generation, 500, "", some ⟨.acknowledgement, "websocket-ack-expired"⟩⟩
  else ⟨p.generation, p.code, p.response, none⟩

/-- **An event is acknowledged**, at most once. -/
def writeAcknowledgement (run : SocketRun) (e : ℕ) (expired canceled : Bool) :
    SocketRun × Option Ack :=
  if (run.events.cell e).closed then (run, none)
  else
    ({ run with
        events := run.events.modify e SocketPending.close
        pending := run.pending.filter (· ≠ e) }, some (run.verdict e expired canceled))

/-- **An event arrives**; `admitted` says that it is well formed and that
there was room for its evidence. -/
def deliver (o : Options) (run : SocketRun) (admitted : Bool) : SocketRun :=
  if o.maxPending ≤ run.pending.length ∨ admitted = false then { run with loop := .leaving }
  else
    { run with
      events := run.events.alloc ⟨run.generation, run.clock + o.ackTimeout, false, false, 0, ""⟩
      pending := run.events.next :: run.pending
      loop := .top }

/-- The connection has ended: nothing is accepted any more, what is pending
is abandoned and the channel emptied. -/
def abandonPending (run : SocketRun) : SocketRun :=
  { run with
    active := false
    events := run.events.mapCells (fun p x => if p ∈ run.pending then x.close else x)
    pending := []
    acknowledgements := []
    loop := .idle }

def proceed (run : SocketRun) (next : Loop) (fails : Bool) : SocketRun :=
  { run with loop := if fails then .leaving else next }

end SocketRun

/-- Who moves. -/
inductive Event
  | tick (n : ℕ)
  | cancel
  | submit (e : ℕ) (d : Decision)
  | connect
  /-- The head of the loop: the clock is read. -/
  | look
  | expire (e : ℕ) (canceled fails : Bool)
  /-- No expired event is left. -/
  | wait
  /-- The `select` takes a frame that completes an event. -/
  | deliver (admitted : Bool)
  | take (canceled fails : Bool)
  /-- It takes a frame that completes none, or the timer fires. -/
  | frame
  | stop

namespace SocketRun

/-- **One step of a run.** -/
def step (o : Options) (run : SocketRun) : Event → Option SocketRun
  | .tick n => some { run with clock := run.clock + n }
  | .cancel => some { run with done := true }
  | .submit e d => if e < run.events.next then some (run.submit o e d).1 else none
  | .connect =>
    if run.loop = .idle then
      some { run with generation := run.generation + 1, active := true, loop := .top }
    else none
  | .look => if run.loop = .top then some { run with loop := .sweeping run.clock } else none
  | .expire e canceled fails =>
    match run.loop with
    | .sweeping now =>
      if e ∈ run.pending ∧ (run.events.cell e).deadline ≤ now then
        some ((run.writeAcknowledgement e true canceled).1.proceed (.sweeping now) fails)
      else none
    | _ => none
  | .wait =>
    match run.loop with
    | .sweeping now =>
      if ∀ e ∈ run.pending, now < (run.events.cell e).deadline then
        some { run with loop := .select }
      else none
    | _ => none
  | .deliver admitted => if run.loop = .select then some (run.deliver o admitted) else none
  | .take canceled fails =>
    match run.loop, run.acknowledgements with
    | .select, e :: rest =>
      let taken := { run with acknowledgements := rest, loop := .top }
      -- an entry whose event is no longer pending is dropped
      if e ∈ run.pending then
        some ((taken.writeAcknowledgement e false canceled).1.proceed .top fails)
      else some taken
    | _, _ => none
  | .frame => if run.loop = .select then some { run with loop := .top } else none
  | .stop => if run.loop = .idle then none else some run.abandonPending

/-- **The runs of a receiver**, any number of connections long. -/
def machine (o : Options) : Machine SocketRun Event := ⟨start, step o⟩

/-! ## What the channel holds -/

/-- An entry is of a pending event, or of one that has expired since. -/
structure Inv (o : Options) (run : SocketRun) : Prop where
  room : run.pending.length ≤ o.maxPending
  known : ∀ e, e ∈ run.pending ↔ e < run.events.next ∧ (run.events.cell e).closed = false
  current : ∀ e ∈ run.pending, (run.events.cell e).generation = run.generation
  nodup : run.acknowledgements.Nodup
  queued : ∀ e ∈ run.acknowledgements, e < run.events.next ∧ (run.events.cell e).claimed = true
    ∧ (run.events.cell e).generation = run.generation
  expired : ∀ e ∈ run.acknowledgements, (run.events.cell e).closed = true →
    (run.events.cell e).deadline ≤ run.clock
  swept : ∀ now, run.loop = .sweeping now → now ≤ run.clock
  between : run.loop = .idle →
    run.active = false ∧ run.pending = [] ∧ run.acknowledgements = []

variable {o : Options} {run run' : SocketRun} {e : ℕ}

namespace Inv

theorem mark (h : run.Inv o) (hactive : run.active = true) {f : SocketPending → SocketPending}
    {queue : List ℕ}
    (hf : ∀ p, (f p).closed = p.closed ∧ (f p).generation = p.generation
      ∧ (f p).deadline = p.deadline) (hnodup : queue.Nodup)
    (hqueue : ∀ q ∈ queue, (q ∈ run.acknowledgements ∨ q ∈ run.pending)
      ∧ ((run.events.modify e f).cell q).claimed = true) :
    Inv o { run with events := run.events.modify e f, acknowledgements := queue } := by
  have hclosed (q) : ((run.events.modify e f).cell q).closed = (run.events.cell q).closed :=
    run.events.cell_modify_proj e q (fun p => (hf p).1)
  have hgen (q) : ((run.events.modify e f).cell q).generation = (run.events.cell q).generation :=
    run.events.cell_modify_proj e q (fun p => (hf p).2.1)
  have hdead (q) : ((run.events.modify e f).cell q).deadline = (run.events.cell q).deadline :=
    run.events.cell_modify_proj e q (fun p => (hf p).2.2)
  refine ⟨h.room, fun q => ?_, fun q hq => ?_, hnodup, fun q hq => ?_, fun q hq hc => ?_, h.swept,
    fun hl => nomatch hactive.symm.trans (h.between hl).1⟩
  · rw [hclosed]
    exact h.known q
  · rw [hgen]
    exact h.current q hq
  · rw [hgen]
    obtain ⟨hin | hin, hclaimed⟩ := hqueue q hq
    · exact ⟨(h.queued q hin).1, hclaimed, (h.queued q hin).2.2⟩
    · exact ⟨((h.known q).mp hin).1, hclaimed, h.current q hin⟩
  · rw [hclosed] at hc
    rw [hdead]
    obtain ⟨hin | hin, -⟩ := hqueue q hq
    · exact h.expired q hin hc
    · exact nomatch ((h.known q).mp hin).2.symm.trans hc

/-- An event that is answered is not in the channel, or has expired. -/
theorem close (h : run.Inv o)
    (he : e ∈ run.acknowledgements → (run.events.cell e).deadline ≤ run.clock) :
    Inv o { run with
      events := run.events.modify e SocketPending.close
      pending := run.pending.filter (· ≠ e) } := by
  have hgen (q) : ((run.events.modify e SocketPending.close).cell q).generation
      = (run.events.cell q).generation := run.events.cell_modify_proj e q (fun _ => rfl)
  refine ⟨(List.length_filter_le _ _).trans h.room, fun q => ?_, fun q hq => ?_, h.nodup,
    fun q hq => ?_, fun q hq hc => ?_, h.swept, fun hl => ?_⟩
  · rw [List.mem_filter, h.known q, Heap.cell_modify]
    by_cases hqe : q = e
    · simp [hqe, SocketPending.close]
    · simp [hqe]
  · rw [hgen]
    exact h.current q (List.mem_of_mem_filter hq)
  · rw [hgen,
      run.events.cell_modify_proj (f := SocketPending.close) (π := SocketPending.claimed) e q
      (fun _ => rfl)]
    exact h.queued q hq
  · by_cases hqe : q = e
    · subst hqe
      rw [Heap.cell_modify_self]
      exact he hq
    · rw [Heap.cell_modify_of_ne _ _ hqe] at hc ⊢
      exact h.expired q hq hc
  · obtain ⟨hactive, hnone, hqueue⟩ := h.between hl
    exact ⟨hactive, by dsimp only; rw [hnone]; rfl, hqueue⟩

theorem not_queued (h : run.Inv o) (he : (run.events.cell e).claimed = false) :
    e ∉ run.acknowledgements :=
  fun hq => nomatch he.symm.trans (h.queued e hq).2.1

theorem submit (h : run.Inv o) (he : e < run.events.next) (d : Decision) :
    (run.submit o e d).1.Inv o := by
  unfold SocketRun.submit
  split_ifs with hinput hctx hstate hroom
  iterate 3 exact h
  · simp only [not_or, Bool.not_eq_true, Bool.not_eq_false] at hstate
    have hpending : e ∈ run.pending := (h.known e).mpr ⟨he, hstate.2.1⟩
    refine h.mark hstate.1 (fun _ => ⟨rfl, rfl, rfl⟩) ?_ (fun q hq => ?_)
    · exact h.nodup.append (List.nodup_singleton e)
        (List.disjoint_singleton.mpr (h.not_queued hstate.2.2.1))
    · rw [Heap.cell_modify]
      obtain hin | hin := List.mem_append.mp hq
      · refine ⟨.inl hin, ?_⟩
        split_ifs
        · rfl
        · exact (h.queued q hin).2.1
      · obtain rfl := List.mem_singleton.mp hin
        exact ⟨.inr hpending, by rw [if_pos rfl]; rfl⟩
  · simp only [not_or, Bool.not_eq_true, Bool.not_eq_false] at hstate
    refine h.mark hstate.1 (fun _ => ⟨rfl, rfl, rfl⟩) h.nodup (fun q hq => ⟨.inl hq, ?_⟩)
    have hqe : q ≠ e := fun hqe => h.not_queued hstate.2.2.1 (hqe ▸ hq)
    rw [Heap.cell_modify_of_ne _ _ hqe]
    exact (h.queued q hq).2.1

/-- The loop may go on anywhere but back to an instant that has not been. -/
theorem goto (h : run.Inv o) {l : Loop} (hne : l ≠ .idle)
    (hl : ∀ now, l = .sweeping now → now ≤ run.clock) : Inv o { run with loop := l } :=
  { h with
    swept := hl
    between := fun heq => absurd heq hne }

theorem written (h : run.Inv o) {l : Loop} (expired canceled fails : Bool) (hne : l ≠ .idle)
    (he : e ∈ run.acknowledgements → (run.events.cell e).deadline ≤ run.clock)
    (hl : ∀ now, l = .sweeping now → now ≤ run.clock) :
    Inv o ((run.writeAcknowledgement e expired canceled).1.proceed l fails) := by
  have hnext : ∀ now, (if fails then Loop.leaving else l) = .sweeping now → now ≤ run.clock := by
    intro now heq
    split_ifs at heq
    exact hl now heq
  have hgone : (if fails then Loop.leaving else l) ≠ .idle := by
    split_ifs
    · nofun
    · exact hne
  unfold writeAcknowledgement
  split_ifs with hclosed
  · exact h.goto hgone hnext
  · exact (h.close he).goto hgone hnext

theorem deliver (h : run.Inv o) (admitted : Bool) : (run.deliver o admitted).Inv o := by
  unfold SocketRun.deliver
  split_ifs with hfull
  · exact h.goto nofun nofun
  · have hlt : run.pending.length < o.maxPending := not_le.mp (fun hn => hfull (.inl hn))
    have hold {q} (hq : q < run.events.next) (p) :
        (run.events.alloc p).cell q = run.events.cell q :=
      run.events.cell_alloc_of_lt p hq
    refine ⟨hlt, fun q => ?_, fun q hq => ?_, h.nodup, fun q hq => ?_, fun q hq hc => ?_, nofun,
      nofun⟩
    · refine List.mem_cons.trans ?_
      rw [h.known q, or_comm]
      simpa using (run.events.alloc_iff (P := fun p => p.closed = false)
        (a := ⟨run.generation, run.clock + o.ackTimeout, false, false, 0, ""⟩) q).symm
    · obtain rfl | hin := List.mem_cons.mp hq
      · rw [Heap.cell_alloc_self]
      · rw [hold ((h.known q).mp hin).1]
        exact h.current q hin
    · obtain ⟨hlt, hq⟩ := h.queued q hq
      rw [hold hlt]
      exact ⟨hlt.trans (Nat.lt_add_one _), hq⟩
    · rw [hold (h.queued q hq).1] at hc ⊢
      exact h.expired q hq hc

theorem abandonPending (h : run.Inv o) : run.abandonPending.Inv o := by
  refine ⟨Nat.zero_le _, fun q => ⟨nofun, fun ⟨hq, hc⟩ => ?_⟩, nofun, List.nodup_nil, nofun, nofun,
    nofun, fun _ => ⟨rfl, rfl, rfl⟩⟩
  dsimp only [SocketRun.abandonPending, Heap.cell_mapCells] at hc
  split_ifs at hc with hin
  · cases hc
  · exact absurd ((h.known q).mpr ⟨hq, hc⟩) hin

/-- **Every step keeps the channel in order.** -/
theorem step {l : Event} (h : run.Inv o) (hs : run.step o l = some run') : run'.Inv o := by
  have htaken {e rest} (hqueue : run.acknowledgements = e :: rest) : e ∉ rest
      ∧ Inv o { run with acknowledgements := rest, loop := .top } := by
    have hnodup := h.nodup
    rw [hqueue, List.nodup_cons] at hnodup
    exact ⟨hnodup.1, { h with
      nodup := hnodup.2
      queued := fun q hq => h.queued q (hqueue ▸ List.mem_cons_of_mem e hq)
      expired := fun q hq => h.expired q (hqueue ▸ List.mem_cons_of_mem e hq)
      swept := nofun
      between := nofun }⟩
  revert hs
  fun_cases SocketRun.step
  all_goals intro hs
  all_goals try cases hs
  · next n => exact { h with
      expired := fun q hq hc => (h.expired q hq hc).trans (Nat.le_add_right _ n)
      swept := fun now hl => (h.swept now hl).trans (Nat.le_add_right _ n) }
  · exact { h with }
  · next e d he => exact h.submit he d
  · next hl =>
    obtain ⟨-, hnone, hqueue⟩ := h.between hl
    exact { h with
      current := fun q hq => nomatch hnone ▸ hq
      queued := fun q hq => nomatch hqueue ▸ hq
      swept := nofun
      between := nofun }
  · exact h.goto nofun (fun now hl => (Loop.sweeping.inj hl).ge)
  · next e canceled fails now hnow hdue =>
    have hclock := h.swept now hnow
    exact h.written true canceled fails nofun (fun _ => hdue.2.trans hclock)
      (fun _ hl => Loop.sweeping.inj hl ▸ hclock)
  · exact h.goto nofun nofun
  · exact h.deliver _
  · next canceled fails e rest hqueue _ _ _ =>
    exact (htaken hqueue).2.written false canceled fails nofun
      (fun hin => absurd hin (htaken hqueue).1) nofun
  · next hqueue _ _ _ => exact Option.some.inj hs ▸ (htaken hqueue).2
  · exact h.goto nofun nofun
  · exact h.abandonPending

end Inv

theorem inv_of_run {tr : List Event} (hr : (machine o).Run tr run) : run.Inv o := by
  refine hr.invariant (I := fun _ run => run.Inv o) ?_ (fun _ h => h.step)
  exact ⟨Nat.zero_le _, fun q => ⟨nofun, fun hq => nomatch hq.1⟩, nofun,
    List.nodup_nil, nofun, nofun, nofun, fun _ => ⟨rfl, rfl, rfl⟩⟩

/-- What a decision that finds no room has found before. -/
theorem submit_full {d : Decision}
    (hfull : (run.submit o e d).2 = .error ⟨.limit, "websocket-ack-queue"⟩) :
    (run.events.cell e).closed = false ∧ (run.events.cell e).claimed = false
      ∧ o.maxPending ≤ run.acknowledgements.length
      ∧ (run.submit o e d).1
        = { run with events := run.events.modify e (SocketPending.unclaim d) } := by
  unfold submit at hfull ⊢
  split_ifs at hfull ⊢ with hinput hctx hstate hroom
  iterate 3 simp at hfull
  · simp only [not_or, Bool.not_eq_true] at hstate
    exact ⟨hstate.2.1, hstate.2.2.1, not_lt.mp hroom, rfl⟩

/-- **Only expired events take up room.** In every state of every run, a
decision that is refused because the channel is full finds in it an entry
whose event was decided, has expired and is no longer pending; the refused
event stays pending and undecided, and the channel as it is. -/
theorem room_but_for_expired {tr : List Event} (hr : (machine o).Run tr run)
    (he : e < run.events.next) {d : Decision}
    (hfull : (run.submit o e d).2 = .error ⟨.limit, "websocket-ack-queue"⟩) :
    (∃ q ∈ run.acknowledgements, q ∉ run.pending ∧ (run.events.cell q).claimed = true
      ∧ (run.events.cell q).closed = true ∧ (run.events.cell q).deadline ≤ run.clock
      ∧ (run.events.cell q).generation = run.generation)
    ∧ e ∈ (run.submit o e d).1.pending
    ∧ ((run.submit o e d).1.events.cell e).claimed = false
    ∧ (run.submit o e d).1.acknowledgements = run.acknowledgements := by
  have h := inv_of_run hr
  obtain ⟨hopen, hfree, hlen, hstate⟩ := submit_full hfull
  have hpending : e ∈ run.pending := (h.known e).mpr ⟨he, hopen⟩
  rw [hstate]
  refine ⟨?_, hpending, by rw [Heap.cell_modify_self]; rfl, rfl⟩
  by_contra hnone
  -- were every entry pending, the entries and this event would be too many
  have hsub : e :: run.acknowledgements ⊆ run.pending := by
    refine List.cons_subset.mpr ⟨hpending, fun q hq => ?_⟩
    obtain ⟨hlt, hclaimed, hgen⟩ := h.queued q hq
    by_contra hq'
    have hclosed : (run.events.cell q).closed = true :=
      Bool.not_eq_false _ ▸ fun hc => hq' ((h.known q).mpr ⟨hlt, hc⟩)
    exact hnone ⟨q, hq, hq', hclaimed, hclosed, h.expired q hq hclosed, hgen⟩
  have hnodup : (e :: run.acknowledgements).Nodup :=
    List.nodup_cons.mpr ⟨h.not_queued hfree, h.nodup⟩
  have hle := (hnodup.subperm hsub).length_le
  exact absurd (hle.trans h.room) (Nat.not_le.mpr (Nat.lt_succ_of_le hlen))

def sample : Options := ⟨1, 2000, fun _ => true⟩

/-- Two frames are read one after the other while a decision waits in the
channel: the first event expires, and the second arrives. -/
def leftover : List Event :=
  [.connect, .look, .wait, .deliver true, .submit 0 ⟨200, "", false⟩, .look, .wait, .frame,
    .tick 2000, .look, .expire 0 false false, .wait, .deliver true]

/-- **A decision can be refused for want of room**: the event is pending in
the active generation, before its deadline and undecided. -/
theorem refused_by_leftover : ∃ run, (machine sample).Run leftover run ∧ 1 ∈ run.pending
    ∧ run.active = true ∧ run.done = false ∧ (run.events.cell 1).generation = run.generation
    ∧ (run.events.cell 1).claimed = false ∧ run.clock < (run.events.cell 1).deadline
    ∧ (run.submit sample 1 ⟨200, "", false⟩).2 = .error ⟨.limit, "websocket-ack-queue"⟩ :=
  ⟨_, Machine.run_reached _ leftover (by decide +kernel), by decide +kernel⟩

/-- The entry that takes the room is that of the first event. -/
theorem room_but_for_expired_leftover : ∃ run, (machine sample).Run leftover run
    ∧ ∃ q ∈ run.acknowledgements, q ∉ run.pending := by
  have hr := Machine.run_reached (machine sample) leftover (by decide +kernel)
  obtain ⟨⟨q, hq, hnot, -⟩, -⟩ :=
    room_but_for_expired hr (e := 1) (d := ⟨200, "", false⟩) (by decide +kernel) (by decide +kernel)
  exact ⟨_, hr, q, hq, hnot⟩

end SocketRun

end Lark
