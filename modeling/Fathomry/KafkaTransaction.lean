import Fathomry.Heap
import Fathomry.KafkaPage
import Fathomry.Machine

/-!
# Transactions of a producer

A source has one transactional producer, and any number of calls of
`ProduceTransaction` share it. A call takes the gate, looks whether the
producer has been poisoned or fenced, begins a native transaction, delivers
its records, and ends the transaction by a commit or by an abort. Beside it
runs a watch that fences the producer when the context of the call has ended
and the call is not through within a grace period.

Each of these can fail on its own, and a call leaves by a different door
each time. On its way out it joins its watch and, if the producer has been
fenced, poisons the gate; only then does it let go of the gate. A step of
the machine is what a call does between two things others can see.
-/

namespace Kafka

variable {ε : Type}

/-! ## Calls -/

inductive WriteState where
  | unobserved
  | notSubmitted
  | unknown
  | acknowledged
deriving DecidableEq

/-- `Write`: what is known of one record. -/
structure Write (ε : Type) where
  state : WriteState
  position : Position
  positionKnown : Bool
  identityChecked : Bool
  err : Option (Err ε)

/-- A record to be written, as far as its place is concerned. -/
structure Outgoing where
  topic : String
  partition : ℤ

/-- What is known of a record before it is handed over. A topic that the
source has not resolved has no identity. -/
def Write.new (value : Settings) (topics : Topics) (r : Outgoing) : Write ε where
  state := .notSubmitted
  position := ⟨value.clusterID, r.topic, ((topics r.topic).getD default).id, r.partition, -1⟩
  positionKnown := false
  identityChecked := false
  err := none

instance : Inhabited (Write ε) := ⟨⟨.unobserved, default, false, false, none⟩⟩

inductive TransactionState where
  | unobserved
  | notStarted
  | committed
  | aborted
  | unknown
deriving DecidableEq

/-- Where a record is on its way: not looked at, refused before it was
handed over, handed over, or answered for. -/
inductive Slot (ε : Type) where
  | idle
  | unsent (err : Err ε)
  | sent
  | received

/-- The goroutine of `watch`. -/
inductive Watch where
  | idle
  | running
  | grace
  | joined
deriving DecidableEq

/-- **Where a call of `transact` is.** -/
inductive Transact.Stage where
  | waiting
  | gated
  | unpoisoned
  | unfenced
  /-- About to look at the context and to start the watch. -/
  | identified
  | watched
  | begun
  /-- `deliver`, about to hold its call. -/
  | holding
  /-- `deliver`, handing over records and collecting answers. -/
  | delivering
  | committing
  | aborting
  | stopping
  | joining
  | releasing
  | returned
deriving DecidableEq

/-- **A call of `transact`.** -/
structure Transact (ε : Type) where
  ctx : Ctx ε
  count : ℕ
  writes : ℕ → Write ε
  slots : ℕ → Slot ε
  index : ℕ
  collected : ℕ
  failures : List (Err ε)
  transaction : TransactionState
  primary : Option (Err ε)
  cleanup : Option (Err ε)
  watch : Watch
  stage : Transact.Stage

/-- The answer of the native client to a record: its partition and its
offset. -/
abbrev Ack (ε : Type) := Except (Err ε) (ℤ × ℤ)

namespace Transact

variable (value : Settings) (x : Transact ε)

def new (topics : Topics) (records : List Outgoing) : Transact ε where
  ctx := none
  count := records.length
  writes := fun i => (records.map (Write.new value topics)).getD i default
  slots := fun _ => .idle
  index := 0
  collected := 0
  failures := []
  transaction := .notStarted
  primary := none
  cleanup := none
  watch := .idle
  stage := .waiting

def goto (stage : Stage) : Transact ε := { x with stage := stage }

def fail (err : Err ε) (stage : Stage) : Transact ε :=
  { x with primary := some err, stage := stage }

def cancel (how : Cancellation Kind Unit (Native ε)) : Transact ε :=
  { x with ctx := x.ctx.or (some how) }

def install : Transact ε := { x with watch := .running, stage := .watched }

def begin (err : Option (Native ε)) : Transact ε :=
  match err with
  | some err =>
    { x with transaction := .unknown }.fail
      (nativeFailure .transaction "begin" x.ctx (.native err)) .stopping
  | none => { x with transaction := .unknown, stage := .begun }

def submit (fenced : Option (Err ε)) : Transact ε :=
  if x.ctx.isSome ∨ fenced.isSome then
    { x with
      slots := Function.update x.slots x.index
        (.unsent (failure .produce "not-submitted" [x.ctx.err, x.ctx.cause, fenced]))
      index := x.index + 1 }
  else
    { x with
      writes := Function.update x.writes x.index
        { x.writes x.index with state := .unknown }
      slots := Function.update x.slots x.index .sent
      index := x.index + 1 }

def acknowledge (w : Write ε) (partition offset : ℤ) : Write ε :=
  if 0 ≤ offset ∧ 0 ≤ partition ∧ (value.keyed = true ∨ partition = w.position.partition) then
    ⟨.acknowledged, { w.position with partition := partition, offset := offset }, true,
      w.identityChecked, w.err⟩
  else
    ⟨.acknowledged, { w.position with partition := partition, offset := offset }, false,
      w.identityChecked, some (failure .produce "position-unobserved" [])⟩

def answered (w : Write ε) : Ack ε → Write ε
  | .error err => { w with err := some (nativeFailure .produce "delivery" x.ctx err) }
  | .ok (partition, offset) => acknowledge value w partition offset

def failureOf (w : Write ε) : Ack ε → List (Err ε)
  | .error err => [nativeFailure .produce "delivery" x.ctx err]
  | .ok (partition, offset) =>
    if (acknowledge value w partition offset).positionKnown then []
    else [failure .produce "position-unobserved" []]

def collect (i : ℕ) (r : Ack ε) : Transact ε :=
  { x with
    writes := Function.update x.writes i (x.answered value (x.writes i) r)
    slots := Function.update x.slots i .received
    collected := x.collected + 1
    failures := x.failures ++ x.failureOf value (x.writes i) r }

def check (w : Write ε) : Write ε :=
  { w with identityChecked := decide (w.state = .acknowledged) && w.positionKnown }

/-- The end of `deliver`. -/
def settle (failures : List (Err ε)) : Transact ε :=
  match failures with
  | [] => x.goto .committing
  | _ => x.fail (failure .produce "batch" [some (.join failures)]) .aborting

def verify (err : Option (Err ε)) : Transact ε :=
  match err with
  | some err => x.settle (x.failures ++ [err])
  | none => { x with writes := fun i => check (x.writes i) }.settle x.failures

def committed (err : Option (Native ε)) : Transact ε :=
  match err with
  | some err => x.fail (nativeFailure .transaction "commit" x.ctx (.native err)) .stopping
  | none => { x with transaction := .committed, stage := .stopping }

/-- The abort has returned. The context it ran in is not that of the call. -/
def aborted (cleanup : Ctx ε) (err : Option (Native ε)) : Transact ε :=
  match err with
  | some err =>
    { x with
      cleanup := some (nativeFailure .cleanup "abort" cleanup (.native err))
      stage := .stopping }
  | none => { x with transaction := .aborted, stage := .stopping }

def join (fenced : Option (Err ε)) : Transact ε :=
  match fenced with
  | some err =>
    x.fail (failure .transaction "producer-fenced" [x.primary, some err]) .releasing
  | none => x.goto .releasing

end Transact

/-! ## The producer -/

/-- **The transactional producer.** `opened` are the calls whose native
transaction has been begun and not been ended with success. -/
structure Producer (ε : Type) where
  gate : Option ℕ
  poisoned : Bool
  fenced : Option (Err ε)
  opened : List ℕ
  calls : Heap (Transact ε)

namespace Producer

variable (value : Settings) (s : Producer ε)

def init (topics : Topics) : Producer ε :=
  ⟨none, false, none, [], Heap.empty (.new value topics [])⟩

def change (c : ℕ) (f : Transact ε → Transact ε) : Producer ε :=
  { s with calls := s.calls.modify c f }

def stage (c : ℕ) : Transact.Stage := (s.calls.cell c).stage

def acquire (c : ℕ) : Producer ε := { s.change c (·.goto .gated) with gate := some c }

def checkPoison (c : ℕ) : Producer ε :=
  if s.poisoned then s.change c (·.fail (failure .state "transaction-fenced" []) .releasing)
  else s.change c (·.goto .unpoisoned)

def checkFence (c : ℕ) : Producer ε :=
  match s.fenced with
  | some err => s.change c (·.fail err .releasing)
  | none => s.change c (·.goto .unfenced)

/-- `checkIdentityWith` returns. -/
def identify (c : ℕ) (err : Option (Err ε)) : Producer ε :=
  match err with
  | some err => s.change c (·.fail err .releasing)
  | none => s.change c (·.goto .identified)

def install (c : ℕ) : Producer ε :=
  if (s.calls.cell c).ctx.isSome then
    s.change c (·.fail (contextFailure .transaction "begin" (s.calls.cell c).ctx) .releasing)
  else s.change c (·.install)

def begin (c : ℕ) (err : Option (Native ε)) : Producer ε :=
  { s.change c (·.begin err) with
    opened := if err.isSome then s.opened else s.opened ++ [c] }

def recheck (c : ℕ) : Producer ε :=
  match s.fenced with
  | some err => s.change c (·.fail err .stopping)
  | none => s.change c (·.goto .holding)

def hold (c : ℕ) (err : Option (Err ε)) : Producer ε :=
  match err with
  | some err => s.change c (·.fail err .aborting)
  | none => s.change c (·.goto .delivering)

def endTransaction (c : ℕ) (f : Transact ε → Transact ε) (err : Option (Native ε)) : Producer ε :=
  { s.change c f with
    poisoned := s.poisoned || err.isSome
    opened := if err.isSome then s.opened else s.opened.erase c }

def fence (c : ℕ) : Producer ε :=
  { s.change c (fun x => { x with watch := .joined }) with
    fenced := s.fenced.or
      (some (contextFailure .state "producer-fenced" (s.calls.cell c).ctx)) }

def join (c : ℕ) : Producer ε :=
  { s.change c (·.join s.fenced) with poisoned := s.poisoned || s.fenced.isSome }

def release (c : ℕ) : Producer ε := { s.change c (·.goto .returned) with gate := none }

/-- **What happens to a producer.** -/
inductive Event (ε : Type) where
  | start (records : List Outgoing)
  | cancel (c : ℕ) (how : Cancellation Kind Unit (Native ε))
  | acquire (c : ℕ)
  /-- A call in front of the gate sees its context ended. -/
  | giveUp (c : ℕ)
  | checkPoison (c : ℕ)
  | checkFence (c : ℕ)
  | identify (c : ℕ) (err : Option (Err ε))
  | install (c : ℕ)
  | begin (c : ℕ) (err : Option (Native ε))
  | recheck (c : ℕ)
  | hold (c : ℕ) (err : Option (Err ε))
  | submit (c : ℕ)
  | reply (c i : ℕ) (r : Ack ε)
  | verify (c : ℕ) (err : Option (Err ε))
  | commit (c : ℕ) (err : Option (Native ε))
  | abort (c : ℕ) (cleanup : Ctx ε) (err : Option (Native ε))
  | stop (c : ℕ)
  | join (c : ℕ)
  | release (c : ℕ)
  /-- The watch of a call sees the context ended. -/
  | expire (c : ℕ)
  /-- The grace period of a watch is over. -/
  | fence (c : ℕ)
  /-- The watch of a call sees that it is stopped. -/
  | unwatch (c : ℕ)

def atStage (c : ℕ) (stage : Transact.Stage) (s' : Producer ε) : Option (Producer ε) :=
  if c < s.calls.next ∧ s.stage c = stage then some s' else none

/-- `deliver` takes an answer: one of the native client, or the refusal that
was noted. -/
def reply (c i : ℕ) (r : Ack ε) : Option (Producer ε) :=
  if i < (s.calls.cell c).count ∧ (s.calls.cell c).index = (s.calls.cell c).count then
    match (s.calls.cell c).slots i with
    | .sent => s.atStage c .delivering (s.change c (·.collect value i r))
    | .unsent err => s.atStage c .delivering (s.change c (·.collect value i (.error err)))
    | _ => none
  else none

/-- **The step of a producer.** -/
def step (topics : Topics) : Event ε → Option (Producer ε)
  | .start records => some { s with calls := s.calls.alloc (.new value topics records) }
  | .cancel c how => if c < s.calls.next then some (s.change c (·.cancel how)) else none
  | .acquire c => if s.gate = none then s.atStage c .waiting (s.acquire c) else none
  | .giveUp c =>
    if (s.calls.cell c).ctx.isSome then
      s.atStage c .waiting (s.change c
        (·.fail (contextFailure .transaction "waiting" (s.calls.cell c).ctx) .returned))
    else none
  | .checkPoison c => s.atStage c .gated (s.checkPoison c)
  | .checkFence c => s.atStage c .unpoisoned (s.checkFence c)
  | .identify c err => s.atStage c .unfenced (s.identify c err)
  | .install c => s.atStage c .identified (s.install c)
  | .begin c err => s.atStage c .watched (s.begin c err)
  | .recheck c => s.atStage c .begun (s.recheck c)
  | .hold c err => s.atStage c .holding (s.hold c err)
  | .submit c =>
    if (s.calls.cell c).index < (s.calls.cell c).count then
      s.atStage c .delivering (s.change c (·.submit s.fenced))
    else none
  | .reply c i r => s.reply value c i r
  | .verify c err =>
    if (s.calls.cell c).collected = (s.calls.cell c).count then
      s.atStage c .delivering (s.change c (·.verify err))
    else none
  | .commit c err => s.atStage c .committing (s.endTransaction c (·.committed err) err)
  | .abort c cleanup err => s.atStage c .aborting (s.endTransaction c (·.aborted cleanup err) err)
  | .stop c => s.atStage c .stopping (s.change c (·.goto .joining))
  | .join c =>
    if (s.calls.cell c).watch = .joined then s.atStage c .joining (s.join c) else none
  | .release c => s.atStage c .releasing (s.release c)
  | .expire c =>
    if c < s.calls.next ∧ (s.calls.cell c).watch = .running ∧ (s.calls.cell c).ctx.isSome then
      some (s.change c (fun x => { x with watch := .grace }))
    else none
  | .fence c =>
    if c < s.calls.next ∧ (s.calls.cell c).watch = .grace then some (s.fence c) else none
  | .unwatch c =>
    if (s.calls.cell c).watch = .running ∨ (s.calls.cell c).watch = .grace then
      s.atStage c .joining (s.change c (fun x => { x with watch := .joined }))
    else none

/-- **A producer as a machine.** -/
def machine (topics : Topics) : Machine (Producer ε) (Event ε) :=
  ⟨init value topics, fun s e => s.step value topics e⟩

end Producer

end Kafka
