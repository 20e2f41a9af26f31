import Fathomry.AdapterRuntime

/-!
# An evidence inbox

Every accepted call leaves a record in an inbox, and somebody has to take it
out: a record is reserved before the call is admitted, queued when it is,
claimed by a consumer, and given up when the consumer acknowledges it. The
inbox counts what it has in custody and refuses a reservation past its
limits.

This module is `adapters/v1/evidence.go`. What the mutex of the inbox
protects, with the records and the claims on them, is the `Ledger`; each
critical section is a function on it. `Next`, `NextReleased`, `DeliverOne`,
`Ack` and `Retry` are *consumers*: a consumer holds where its call stands,
and each of its steps is one section or one event it waits for.

A consumer reads some things of operations without the lock of the inbox:
whether `done` is closed, and what an error says. They are a parameter here
(`Reading`).
-/

namespace Adapter

variable {ε : Type}

/-! ## Options -/

/-- `EvidenceOptions` as they are given. -/
structure EvidenceLimits where
  capacity : ℤ
  maxBytes : ℤ

def EvidenceLimits.defaults (l : EvidenceLimits) : EvidenceLimits where
  capacity := if l.capacity = 0 then 64 else l.capacity
  maxBytes := if l.maxBytes = 0 then 16 * 2 ^ 20 else l.maxBytes

/-- **The options of an inbox**: limits that `NewInbox` accepted. -/
structure EvidenceOptions extends EvidenceLimits where
  capacity_bound : 1 ≤ capacity ∧ capacity ≤ 65536
  bytes_bound : 1 ≤ maxBytes ∧ maxBytes ≤ 2 ^ 40

def newInbox (l : EvidenceLimits) : Except (Err ε) EvidenceOptions :=
  if h : (1 ≤ l.defaults.capacity ∧ l.defaults.capacity ≤ 65536)
      ∧ (1 ≤ l.defaults.maxBytes ∧ l.defaults.maxBytes ≤ 2 ^ 40) then
    .ok ⟨l.defaults, h.1, h.2⟩
  else .error (failureOf .options "inbox" "" {} [])

/-! ## Records and claims -/

/-- `resultState`: the operation a record is about, and the runtime it
belongs to. -/
structure Result where
  runtime : ℕ
  node : ℕ
deriving DecidableEq

/-- What a consumer reads of an operation. -/
structure Reading where
  name : String
  sequence : ℕ
  released : Bool
  done : Bool

structure Entry where
  bytes : ℤ
  result : Option Result
  claim : Option ℕ
  reserved : Bool

namespace Entry

variable (x : Entry)

def new (bytes : ℤ) : Entry := ⟨bytes, none, none, true⟩

def abort : Entry := { x with reserved := false }

def commit (result : Result) : Entry := { x with result := some result, reserved := false }

def take (d : ℕ) : Entry := { x with claim := some d }

def giveBack : Entry := { x with claim := none }

def drop : Entry := { x with claim := none, result := none }

instance : Inhabited Entry := ⟨new 0⟩

end Entry

/-- **The lock of a claim**, with what is left to run of the `end` that
holds it. -/
inductive Lock where
  | free
  /-- The consumer `r` is past the checks of the claim. -/
  | holding (r : ℕ) (retry : Bool)
  /-- It is through with the inbox, and the claim is about to be cleared. -/
  | leaving (r : ℕ)
deriving DecidableEq

/-- `deliveryState`. A claim of `DeliverOne` is not `shared`: nobody else
can name it. -/
structure Delivery where
  entry : Option ℕ
  result : Option Result
  lock : Lock
  shared : Bool

namespace Delivery

variable (x : Delivery)

def setLock (l : Lock) : Delivery := { x with lock := l }

def clear : Delivery := { x with entry := none, result := none, lock := .free }

def receipt : Option Result := if x.entry.isSome then x.result else none

instance : Inhabited Delivery := ⟨⟨none, none, .free, false⟩⟩

end Delivery

/-! ## The ledger -/

/-- **What an inbox has in custody.** `changed` is how often the channel of
that name has been closed and replaced. -/
structure Ledger where
  closed : Bool
  outstanding : ℤ
  bytes : ℤ
  pending : ℤ
  queue : List ℕ
  entries : Finset ℕ
  changed : ℕ
  records : Heap Entry
  deliveries : Heap Delivery

structure EvidenceStatus where
  outstanding : ℤ
  queued : ℤ
  claimed : ℤ
  reserved : ℤ
  bytes : ℤ
  closed : Bool
deriving DecidableEq

namespace Ledger

variable (y : EvidenceOptions) (b : Ledger)

/-- What `NewInbox` returns. -/
def init : Ledger := ⟨false, 0, 0, 0, [], ∅, 0, Heap.empty default, Heap.empty default⟩

def notifyLocked : Ledger := { b with changed := b.changed + 1 }

/-- What `reserve` refuses. -/
def refuse (bytes : ℤ) : Option (Err ε) :=
  if b.closed then some (failureOf .closed "reserve" "" {} [])
  else if bytes < 1 ∨ y.capacity ≤ b.outstanding ∨ y.maxBytes - b.bytes < bytes then
    some (failureOf .evidence "reserve" "" {} [])
  else none

def reserve (bytes : ℤ) : Ledger :=
  notifyLocked
    { b with
      outstanding := b.outstanding + 1
      pending := b.pending + 1
      bytes := b.bytes + bytes
      entries := insert b.records.next b.entries
      records := b.records.alloc (.new bytes) }

def abort (e : ℕ) : Ledger :=
  if (b.records.cell e).reserved then
    notifyLocked
      { b with
        pending := b.pending - 1
        outstanding := b.outstanding - 1
        bytes := b.bytes - (b.records.cell e).bytes
        entries := b.entries.erase e
        records := b.records.modify e Entry.abort }
  else b

def commit (e : ℕ) (result : Result) : Ledger :=
  notifyLocked
    { b with
      pending := b.pending - 1
      queue := b.queue ++ [e]
      records := b.records.modify e (·.commit result) }

def sealInbox : Ledger := notifyLocked { b with closed := true }

def take (e : ℕ) (shared : Bool) : Ledger :=
  { b with
    queue := b.queue.erase e
    records := b.records.modify e (·.take b.deliveries.next)
    deliveries := b.deliveries.alloc ⟨some e, (b.records.cell e).result, .free, shared⟩ }

def setLock (d : ℕ) (l : Lock) : Ledger :=
  { b with deliveries := b.deliveries.modify d (·.setLock l) }

def requeue (d e r : ℕ) : Ledger :=
  notifyLocked
    { b.setLock d (.leaving r) with
      queue := b.queue ++ [e]
      records := b.records.modify e Entry.giveBack }

def drop (d e r : ℕ) : Ledger :=
  notifyLocked
    { b.setLock d (.leaving r) with
      entries := b.entries.erase e
      outstanding := b.outstanding - 1
      bytes := b.bytes - (b.records.cell e).bytes
      records := b.records.modify e Entry.drop }

def clear (d : ℕ) : Ledger := { b with deliveries := b.deliveries.modify d Delivery.clear }

def inspect : EvidenceStatus where
  outstanding := b.outstanding
  queued := b.queue.length
  claimed := b.outstanding - b.pending - b.queue.length
  reserved := b.pending
  bytes := b.bytes
  closed := b.closed

end Ledger

/-! ## Consumers -/

/-- What a consumer takes records for. -/
inductive Want where
  | next
  | nextReleased
  | deliver
deriving DecidableEq

/-- **Where a consumer is.** -/
inductive Stage (ε : Type) where
  /-- At the head of the loop of `next`. -/
  | looking (w : Want)
  /-- In the `select` of `next`, on the channel it found in `changed`. -/
  | blocked (w : Want) (changed : ℕ)
  /-- `DeliverOne`, in `WaitReleased`. -/
  | waiting (d : ℕ)
  | sinking (d : ℕ)
  /-- In `end`. `DeliverOne` knows already what it returns `after` that. -/
  | ending (d : ℕ) (retry : Bool) (after : Option (Err ε))
  | returned (delivery : Option ℕ) (err : Option (Err ε))

def Want.taken (w : Want) (d : ℕ) : Stage ε :=
  match w with
  | .deliver => .waiting d
  | _ => .returned (some d) none

/-- **A consumer**: a call of `Next`, `NextReleased`, `DeliverOne`, `Ack`
or `Retry`. -/
structure Consumer (ε : Type) where
  ctx : Ctx ε
  stage : Stage ε

namespace Consumer

instance : Inhabited (Consumer ε) := ⟨⟨none, .looking .next⟩⟩

variable (x : Consumer ε)

def goto (p : Stage ε) : Consumer ε := { x with stage := p }

def cancel (how : Cancellation Code Details ε) : Consumer ε :=
  { x with ctx := x.ctx.or (some how) }

def finish (err : Option (Err ε)) : Consumer ε :=
  match x.stage with
  | .ending _ _ (some after) => x.goto (.returned none (some after))
  | _ => x.goto (.returned none err)

def waitError (operation : String) : Err ε :=
  failureOf .wait operation "" {} [x.ctx.err, x.ctx.cause]

/-- The first checks of `Next`, `NextReleased` and `DeliverOne`. -/
def enter (w : Want) (ctx : Option (Ctx ε)) (sink : Bool) : Consumer ε :=
  if w = .deliver ∧ sink = false then
    ⟨none, .returned none (some (failureOf .options "deliver" "" {} []))⟩
  else
    match ctx with
    | none => ⟨none, .returned none (some (failureOf .options "next" "" {} []))⟩
    | some ctx => ⟨ctx, .looking w⟩

/-- The first check of `end`. -/
def enterEnd (d : Option ℕ) (retry : Bool) : Consumer ε :=
  match d with
  | none => ⟨none, .returned none (some (failureOf .handle "delivery" "" {} []))⟩
  | some d => ⟨none, .ending d retry none⟩

end Consumer

/-- **An inbox.** -/
structure Inbox (ε : Type) extends Ledger where
  consumers : Heap (Consumer ε)

namespace Inbox

variable (read : Result → Reading) (b : Inbox ε)

/-- What `NewInbox` returns. -/
def init : Inbox ε := ⟨Ledger.init, Heap.empty default⟩

def setLedger (l : Ledger) : Inbox ε := ⟨l, b.consumers⟩

def change (r : ℕ) (f : Consumer ε → Consumer ε) : Inbox ε :=
  { b with consumers := b.consumers.modify r f }

def goto (r : ℕ) (p : Stage ε) : Inbox ε := b.change r (·.goto p)

def arrive (x : Consumer ε) : Inbox ε := { b with consumers := b.consumers.alloc x }

def ready (result : Option Result) : Bool := result.any (fun v => (read v).done)

/-- The record `next` takes: the first of the queue, or the first of a
released operation. -/
def selected (w : Want) : Option ℕ :=
  b.queue.find? (fun e => w ≠ .nextReleased || ready read (b.records.cell e).result)

/-- One turn of the loop of `next`, up to its `select`. -/
def look (r : ℕ) (w : Want) : Inbox ε :=
  if (b.consumers.cell r).ctx.isSome then
    b.goto r (.returned none (some ((b.consumers.cell r).waitError "next")))
  else
    match b.selected read w with
    | some e =>
      (b.setLedger (b.take e (w ≠ .deliver))).goto r (w.taken b.deliveries.next)
    | none =>
      if b.closed = true ∧ b.pending = 0 ∧ b.queue = [] then
        b.goto r (.returned none (some (failureOf .closed "next" "" {} [some .eof])))
      else b.goto r (.blocked w b.changed)

def waitError (ctx : Ctx ε) (v : Reading) : Err ε :=
  failureOf .wait "wait" v.name { sequence := v.sequence, pending := !v.released }
    [ctx.err, ctx.cause]

/-- `WaitReleased` ends, with the operation or with the context. When both
have ended either may be seen. -/
def wait (r d : ℕ) (done : Bool) : Option (Inbox ε) :=
  match (b.deliveries.cell d).receipt with
  | none => some (b.goto r (.ending d true (some (failureOf .handle "wait" "" {} []))))
  | some v =>
    if done then
      if (read v).done = false then none
      else if (b.consumers.cell r).ctx.isSome then
        some (b.goto r (.ending d true (some ((b.consumers.cell r).waitError "deliver"))))
      else some (b.goto r (.sinking d))
    else if (b.consumers.cell r).ctx.isSome then
      some (b.goto r (.ending d true (some (waitError (b.consumers.cell r).ctx (read v)))))
    else none

def sunk (r d : ℕ) (err : Option (Err ε)) : Inbox ε :=
  match err with
  | none => b.goto r (.ending d false none)
  | some err => b.goto r (.ending d true (some (failureOf .evidence "deliver" "" {} [some err])))

def hold (r d : ℕ) (retry : Bool) : Inbox ε :=
  if (b.deliveries.cell d).entry.isNone then
    b.change r (·.finish (some (failureOf .released "delivery" "" {} [])))
  else if retry = false ∧ ready read (b.deliveries.cell d).result = false then
    b.change r (·.finish (some (failureOf .pending "ack" "" { pending := true } [])))
  else b.setLedger (b.setLock d (.holding r retry))

def move (d r e : ℕ) (retry : Bool) : Inbox ε :=
  if (b.records.cell e).claim ≠ some d then
    (b.setLedger (b.setLock d .free)).change r
      (·.finish (some (failureOf .released "delivery" "" {} [])))
  else b.setLedger (if retry then b.requeue d e r else b.drop d e r)

def leave (d r : ℕ) : Inbox ε := (b.setLedger (b.clear d)).change r (·.finish none)

/-- **What happens to an inbox** on the side of its consumers. -/
inductive Event (ε : Type) where
  | sealInbox
  /-- `Next`, `NextReleased` or `DeliverOne` is called. -/
  | enter (w : Want) (ctx : Option (Ctx ε)) (sink : Bool)
  | enterEnd (d : Option ℕ) (retry : Bool)
  | cancel (r : ℕ) (how : Cancellation Code Details ε)
  | look (r : ℕ)
  /-- `changed` has been closed. -/
  | wake (r : ℕ)
  | giveUp (r : ℕ)
  | wait (r : ℕ) (done : Bool)
  | sunk (r : ℕ) (err : Option (Err ε))
  | hold (r : ℕ)
  | move (d : ℕ)
  | leave (d : ℕ)

def onConsumer (r : ℕ) (f : Stage ε → Option (Inbox ε)) : Option (Inbox ε) :=
  if r < b.consumers.next then f (b.consumers.cell r).stage else none

def onDelivery (d : ℕ) (f : Lock → Option (Inbox ε)) : Option (Inbox ε) :=
  if d < b.deliveries.next then f (b.deliveries.cell d).lock else none

/-- **The step of an inbox** on the side of its consumers. -/
def step : Event ε → Option (Inbox ε)
  | .sealInbox => some (b.setLedger b.sealInbox)
  | .enter w ctx sink => some (b.arrive (.enter w ctx sink))
  | .enterEnd d retry =>
    if ∀ d' ∈ d, d' < b.deliveries.next ∧ (b.deliveries.cell d').shared = true then
      some (b.arrive (.enterEnd d retry))
    else none
  | .cancel r how => b.onConsumer r (fun _ => some (b.change r (·.cancel how)))
  | .look r =>
    b.onConsumer r (fun
      | .looking w => some (b.look read r w)
      | _ => none)
  | .wake r =>
    b.onConsumer r (fun
      | .blocked w changed => if changed < b.changed then some (b.goto r (.looking w)) else none
      | _ => none)
  | .giveUp r =>
    b.onConsumer r (fun
      | .blocked _ _ => if (b.consumers.cell r).ctx.isSome then
          some (b.goto r (.returned none (some ((b.consumers.cell r).waitError "next"))))
        else none
      | _ => none)
  | .wait r done =>
    b.onConsumer r (fun
      | .waiting d => b.wait read r d done
      | _ => none)
  | .sunk r err =>
    b.onConsumer r (fun
      | .sinking d => some (b.sunk r d err)
      | _ => none)
  | .hold r =>
    b.onConsumer r (fun
      | .ending d retry _ => b.onDelivery d (fun
          | .free => some (b.hold read r d retry)
          | _ => none)
      | _ => none)
  | .move d =>
    b.onDelivery d (fun
      | .holding r retry => (b.deliveries.cell d).entry.map (fun e => b.move d r e retry)
      | _ => none)
  | .leave d =>
    b.onDelivery d (fun
      | .leaving r => some (b.leave d r)
      | _ => none)

/-! ### What a step can do -/

/-- **What a step of an inbox can do** to what is in custody. -/
inductive Stepped : Event ε → Ledger → Prop
  /-- Nothing: only a consumer moves. -/
  | idle (e : Event ε) (he : ∀ d, e ≠ .move d) : Stepped e b.toLedger
  | sealInbox : Stepped .sealInbox b.sealInbox
  | take (r e : ℕ) (shared : Bool) (hq : e ∈ b.queue) : Stepped (.look r) (b.take e shared)
  | hold (r d e : ℕ) (retry : Bool) (hd : d < b.deliveries.next)
      (hl : (b.deliveries.cell d).lock = .free) (he : (b.deliveries.cell d).entry = some e)
      (hr : retry = false → ready read (b.deliveries.cell d).result = true) :
      Stepped (.hold r) (b.setLock d (.holding r retry))
  | moveRefused (d r e : ℕ) (retry : Bool) (hd : d < b.deliveries.next)
      (hl : (b.deliveries.cell d).lock = .holding r retry)
      (he : (b.deliveries.cell d).entry = some e) (hc : (b.records.cell e).claim ≠ some d) :
      Stepped (.move d) (b.setLock d .free)
  | requeue (d r e : ℕ) (hd : d < b.deliveries.next)
      (hl : (b.deliveries.cell d).lock = .holding r true)
      (he : (b.deliveries.cell d).entry = some e) (hc : (b.records.cell e).claim = some d) :
      Stepped (.move d) (b.requeue d e r)
  | drop (d r e : ℕ) (hd : d < b.deliveries.next)
      (hl : (b.deliveries.cell d).lock = .holding r false)
      (he : (b.deliveries.cell d).entry = some e) (hc : (b.records.cell e).claim = some d) :
      Stepped (.move d) (b.drop d e r)
  | clear (d r : ℕ) (hd : d < b.deliveries.next) (hl : (b.deliveries.cell d).lock = .leaving r) :
      Stepped (.leave d) (b.clear d)

variable {read b}

theorem stepped_look {r : ℕ} {w : Want} : Stepped read b (.look r) (b.look read r w).toLedger := by
  have hidle {p : Stage ε} : Stepped read b (.look r) (b.goto r p).toLedger :=
    .idle _ nofun
  unfold look
  split
  · exact hidle
  cases hsel : b.selected read w with
  | some e => exact .take r e _ (List.mem_of_find?_eq_some hsel)
  | none =>
    split_ifs
    all_goals exact hidle

theorem stepped_wait {r d : ℕ} {done : Bool} {b' : Inbox ε} (h : b.wait read r d done = some b') :
    Stepped read b (.wait r done) b'.toLedger := by
  have hledger : b'.toLedger = b.toLedger := by
    revert h
    fun_cases wait
    all_goals rintro ⟨⟩
    all_goals rfl
  exact hledger ▸ .idle _ nofun

theorem stepped_move {d r e : ℕ} {retry : Bool} (hd : d < b.deliveries.next)
    (hl : (b.deliveries.cell d).lock = .holding r retry)
    (he : (b.deliveries.cell d).entry = some e) :
    Stepped read b (.move d) (b.move d r e retry).toLedger := by
  unfold move
  split
  · next hc => exact .moveRefused d r e retry hd hl he hc
  · next hc =>
    rw [not_not] at hc
    cases retry with
    | true => exact .requeue d r e hd hl he hc
    | false => exact .drop d r e hd hl he hc

theorem stepped_hold {d r : ℕ} {retry : Bool} (hd : d < b.deliveries.next)
    (hl : (b.deliveries.cell d).lock = .free) :
    Stepped read b (.hold r) (b.hold read r d retry).toLedger := by
  unfold hold
  split_ifs with he hr
  iterate 2 exact .idle _ nofun
  obtain ⟨e, he⟩ := Option.ne_none_iff_exists'.mp (fun hn => he (Option.isNone_iff_eq_none.mpr hn))
  exact .hold r d e retry hd hl he
    (fun hf => eq_true_of_ne_false (fun hn => hr ⟨hf, hn⟩))

theorem stepped {e : Event ε} {b' : Inbox ε} (h : b.step read e = some b') :
    Stepped read b e b'.toLedger := by
  have hidle (he : ∀ d, e ≠ .move d) (hl : b'.toLedger = b.toLedger) :
      Stepped read b e b'.toLedger := hl ▸ .idle e he
  unfold step onConsumer onDelivery at h
  beta_reduce at h
  repeat' split at h
  any_goals cases h
  · exact .sealInbox
  iterate 3 exact hidle nofun rfl
  · exact stepped_look
  iterate 2 exact hidle nofun rfl
  · exact stepped_wait h
  · refine hidle nofun ?_
    unfold sunk
    split
    · rfl
    · rfl
  · next hd _ hl => exact stepped_hold hd hl
  · next hd _ _ _ hl =>
    obtain ⟨e, he, rfl⟩ := Option.map_eq_some_iff.mp h
    exact stepped_move hd hl he
  · next hd _ _ hl => exact .clear _ _ hd hl

end Inbox

end Adapter
