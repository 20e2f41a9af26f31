import Fathomry.Failure
import Fathomry.Heap
import Fathomry.Machine
import Mathlib.Data.Option.Basic

/-!
# An operation runtime

`adapters.Runtime` admits operations and owns their work. A root operation
takes a permit – one active slot and its declared bytes – at once or from a
queue; its descendants share it. An operation is over when its producer has
returned, every guard has been released and every child is over, and only
then is what it borrowed given back and, for a root, the permit.

This module is the code of `adapters/v1/runtime.go`, `call.go` and
`ownership.go` as functions on the state the runtime's mutex protects, one
function for each critical section, and the machine whose labels are those
sections (`Runtime.step`). Calls, operations and guards are cells of heaps.
The waiter of a queued call is part of its call.

A channel that is only ever closed is the number of times it has been
closed: a second `close` would be a crash, and that there is none is a
theorem. Of the observer nothing is modelled: it is told what happened and
nothing depends on it.
-/

namespace Adapter

variable {ε T : Type}

/-! ## Errors -/

inductive Code where
  | options | handle | closed | limit | wait | request | outcome | settled | released | pending
  | evidence | operation | source | serialization
deriving DecidableEq, Repr

structure Details where
  sequence : ℕ := 0
  parent : ℕ := 0
  pending : Bool := false
deriving DecidableEq, Repr

/-- An error of the package, over the errors `ε` of its callbacks. -/
abbrev Err (ε : Type) := Fault Code Details ε

abbrev Ctx (ε : Type) := Context Code Details ε

def failureOf (code : Code) (operation scope : String) (details : Details)
    (causes : List (Option (Err ε))) : Err ε :=
  Fault.new code operation scope details causes

/-! ## Options and requests -/

def dottedChar (c : Char) : Bool :=
  ('a' ≤ c && c ≤ 'z') || ('0' ≤ c && c ≤ '9') || c == '_' || c == '-'

def plainChar (c : Char) : Bool :=
  ('a' ≤ c && c ≤ 'z') || ('A' ≤ c && c ≤ 'Z') || ('0' ≤ c && c ≤ '9') || c == '_' ||
    c == '-' || c == '.'

def dottedPart (part : List Char) : Bool :=
  part.head?.any (fun c => 'a' ≤ c && c ≤ 'z') && part.all dottedChar

def label (value : String) (maximum : ℕ) (dotted : Bool) : Bool :=
  value != "" && value.utf8ByteSize ≤ maximum &&
    if dotted then (value.toList.splitOn '.').all dottedPart else value.toList.all plainChar

/-- `adapters.Options` as they are given. -/
structure Limits where
  name : String
  maxActive : ℤ
  maxQueued : ℤ
  maxWorkBytes : ℤ
  maxQueuedBytes : ℤ
  maxTasks : ℤ
  maxDepth : ℤ
  maxHolds : ℤ

def Limits.defaults (l : Limits) : Limits where
  name := l.name
  maxActive := if l.maxActive = 0 then 16 else l.maxActive
  maxQueued := l.maxQueued
  maxWorkBytes := if l.maxWorkBytes = 0 then 64 * 2 ^ 20 else l.maxWorkBytes
  maxQueuedBytes := if l.maxQueuedBytes = 0 ∧ 0 < l.maxQueued then
      (if l.maxWorkBytes = 0 then 64 * 2 ^ 20 else l.maxWorkBytes)
    else l.maxQueuedBytes
  maxTasks := if l.maxTasks = 0 then 64 else l.maxTasks
  maxDepth := if l.maxDepth = 0 then 8 else l.maxDepth
  maxHolds := if l.maxHolds = 0 then 64 else l.maxHolds

/-- **The options of a runtime**: limits that `normalize` accepted. -/
structure Options extends Limits where
  name_valid : name = "" ∨ label name 64 false = true
  active_bound : 1 ≤ maxActive ∧ maxActive ≤ 1024
  queued_bound : 0 ≤ maxQueued ∧ maxQueued ≤ 4096
  work_bound : 1 ≤ maxWorkBytes ∧ maxWorkBytes ≤ 2 ^ 40
  queuedBytes_bound : 0 ≤ maxQueuedBytes ∧ maxQueuedBytes ≤ 2 ^ 40
  unqueued : maxQueued = 0 → maxQueuedBytes = 0
  tasks_bound : 1 ≤ maxTasks ∧ maxTasks ≤ 4096
  depth_bound : 1 ≤ maxDepth ∧ maxDepth ≤ 32
  holds_bound : 1 ≤ maxHolds ∧ maxHolds ≤ 65536

def normalize (l : Limits) : Except (Err ε) Options :=
  if h : (l.defaults.name = "" ∨ label l.defaults.name 64 false = true)
      ∧ (1 ≤ l.defaults.maxActive ∧ l.defaults.maxActive ≤ 1024)
      ∧ (0 ≤ l.defaults.maxQueued ∧ l.defaults.maxQueued ≤ 4096)
      ∧ (1 ≤ l.defaults.maxWorkBytes ∧ l.defaults.maxWorkBytes ≤ 2 ^ 40)
      ∧ (0 ≤ l.defaults.maxQueuedBytes ∧ l.defaults.maxQueuedBytes ≤ 2 ^ 40)
      ∧ (l.defaults.maxQueued = 0 → l.defaults.maxQueuedBytes = 0)
      ∧ (1 ≤ l.defaults.maxTasks ∧ l.defaults.maxTasks ≤ 4096)
      ∧ (1 ≤ l.defaults.maxDepth ∧ l.defaults.maxDepth ≤ 32)
      ∧ (1 ≤ l.defaults.maxHolds ∧ l.defaults.maxHolds ≤ 65536) then
    .ok ⟨l.defaults, h.1, h.2.1, h.2.2.1, h.2.2.2.1, h.2.2.2.2.1, h.2.2.2.2.2.1,
      h.2.2.2.2.2.2.1, h.2.2.2.2.2.2.2.1, h.2.2.2.2.2.2.2.2⟩
  else .error (failureOf .options "new" "" {} [])

structure Request where
  operation : String
  id : String
  workBytes : ℤ
  evidenceBytes : ℤ
deriving DecidableEq, Repr

/-- `validRequest`. Text is UTF-8 here by its type. -/
def validRequest (request : Request) (child : Bool) : Bool :=
  label request.operation 64 true && request.id.utf8ByteSize ≤ 256 &&
    (1 ≤ request.evidenceBytes && request.evidenceBytes ≤ 2 ^ 40) &&
    request.id.toList.all (fun c => 0x20 ≤ c.toNat && c.toNat != 0x7f) &&
    if child then request.workBytes = 0
    else 0 < request.workBytes && request.workBytes ≤ 2 ^ 40

structure Outcome (ε T : Type) where
  value : T
  present : Bool
  primary : Option (Err ε)
  cleanup : Option (Err ε)

/-- `Source`: the resource generation that is borrowed. -/
structure Source where
  name : String
  generation : ℕ
deriving DecidableEq, Repr

instance : Inhabited Request := ⟨⟨"", "", 0, 0⟩⟩

instance : Inhabited Source := ⟨⟨"", 0⟩⟩

instance [Inhabited T] : Inhabited (Outcome ε T) := ⟨⟨default, false, none, none⟩⟩

/-! ## Calls and permits -/

/-- **Where a call of `beginContexts` is.** -/
inductive Phase (ε : Type) where
  | entering
  /-- In the `select` of `acquire`. -/
  | queued
  /-- About to begin. A root holds a permit here. -/
  | admitted
  /-- The error is known; the reservation is about to be given back. -/
  | failing (err : Err ε)
  | failed (err : Err ε)
  | begun (v : ℕ)

/-- What a call of `beginContexts` asks for, with the inbox entry it has
reserved. -/
structure Call (T : Type) where
  request : Request
  copy : T → T
  parent : Option ℕ
  inbox : ℕ
  entry : ℕ

/-- **A call of `beginContexts`** past its first checks, with the waiter
`acquire` makes for it: `ready` is closed when the waiter is `granted` or
has an `err`. -/
structure Caller (ε T : Type) extends Call T where
  ctx : Ctx ε
  lifetime : Ctx ε
  phase : Phase ε
  ready : ℕ
  granted : Bool
  err : Option (Err ε)

namespace Caller

/-- A call that has reserved its entry. A child needs no permit. -/
def new (x : Call T) : Caller ε T where
  toCall := x
  ctx := none
  lifetime := none
  phase := if x.parent.isNone then .entering else .admitted
  ready := 0
  granted := false
  err := none

instance : Inhabited (Caller ε T) := ⟨new ⟨default, id, none, 0, 0⟩⟩

variable (x : Caller ε T)

def goto (p : Phase ε) : Caller ε T := { x with phase := p }

def grant : Caller ε T := { x with granted := true, ready := x.ready + 1 }

def refuse (err : Err ε) : Caller ε T := { x with err := some err, ready := x.ready + 1 }

/-- The admission context ends. The first cancellation decides. -/
def cancel (how : Cancellation Code Details ε) : Caller ε T :=
  { x with ctx := x.ctx.or (some how) }

def cancelLifetime (how : Cancellation Code Details ε) : Caller ε T :=
  { x with lifetime := x.lifetime.or (some how) }

/-- **Whether a call holds a permit**: a root past `acquire` that has not
begun, or a waiter that has been granted one and does not know yet. -/
def charged : Bool :=
  x.parent.isNone &&
    match x.phase with
    | .admitted => true
    | .queued => x.granted
    | _ => false

end Caller

/-- **The part of `runtimeState` that admits**: the allowance, the queue of
waiting calls and all calls. `done` counts how often the channel has been
closed; `stop` is closed together with `closing`. -/
structure Admission (ε T : Type) where
  base : Ctx ε
  closing : Bool
  closed : Bool
  done : ℕ
  active : ℤ
  workBytes : ℤ
  queuedBytes : ℤ
  queue : List ℕ
  callers : Heap (Caller ε T)

namespace Admission

variable (z : Options) (a : Admission ε T)

/-- What `New` returns. -/
def init : Admission ε T := ⟨none, false, false, 0, 0, 0, 0, [], Heap.empty default⟩

def ctx (c : ℕ) : Ctx ε := (a.callers.cell c).ctx

def bytes (c : ℕ) : ℤ := (a.callers.cell c).request.workBytes

def phase (c : ℕ) : Phase ε := (a.callers.cell c).phase

def stopped : Bool := a.closing || a.base.isSome

def fits (bytes : ℤ) : Bool := a.active < z.maxActive && bytes ≤ z.maxWorkBytes - a.workBytes

def change (c : ℕ) (f : Caller ε T → Caller ε T) : Admission ε T :=
  { a with callers := a.callers.modify c f }

def goto (c : ℕ) (p : Phase ε) : Admission ε T := a.change c (·.goto p)

def charge (bytes : ℤ) : Admission ε T :=
  { a with active := a.active + 1, workBytes := a.workBytes + bytes }

def discharge (bytes : ℤ) : Admission ε T :=
  { a with active := a.active - 1, workBytes := a.workBytes - bytes }

def requeue (queue : List ℕ) (bytes : ℤ) : Admission ε T :=
  { a with queue := queue, queuedBytes := a.queuedBytes + bytes }

def waitError (operation : String) (ctx : Ctx ε) : Err ε :=
  failureOf .wait operation z.name {} [ctx.err, ctx.cause]

def closedError (operation : String) : Err ε := failureOf .closed operation z.name {} []

def limitError (operation : String) : Err ε := failureOf .limit operation z.name {} []

/-! ### Promotion -/

/-- `promoteLocked` grants the head of the queue its permit. -/
def grant (c : ℕ) (rest : List ℕ) : Admission ε T :=
  ((a.requeue rest (-a.bytes c)).charge (a.bytes c)).change c Caller.grant

/-- `promoteLocked` drops the head of the queue, whose context has ended. -/
def discard (c : ℕ) (rest : List ℕ) : Admission ε T :=
  (a.requeue rest (-a.bytes c)).change c (·.refuse (waitError z "admit" (a.ctx c)))

/-- The loop of `promoteLocked`, over the queue it starts with. -/
def promoteLoop : List ℕ → Admission ε T → Admission ε T
  | [], a => a
  | c :: rest, a =>
    if (a.ctx c).isNone then
      if a.fits z (a.bytes c) then promoteLoop rest (a.grant c rest) else a
    else promoteLoop rest (a.discard z c rest)

def promoteLocked : Admission ε T := if a.closing then a else promoteLoop z a.queue a

def closeDoneLocked : Admission ε T :=
  if a.closing = true ∧ a.active = 0 ∧ a.closed = false then
    { a with closed := true, done := a.done + 1 }
  else a

def releasePermitLocked (bytes : ℤ) : Admission ε T :=
  ((a.discharge bytes).promoteLocked z).closeDoneLocked

/-! ### Acquiring a permit -/

/-- `acquire`, up to its `select`. -/
def acquire (c : ℕ) : Admission ε T :=
  if a.stopped then a.goto c (.failing (closedError z "admit"))
  else if (a.ctx c).isSome then a.goto c (.failing (waitError z "admit" (a.ctx c)))
  else if z.maxWorkBytes < a.bytes c then a.goto c (.failing (limitError z "admit"))
  else if a.queue = [] ∧ a.fits z (a.bytes c) = true then
    (a.charge (a.bytes c)).goto c .admitted
  else if z.maxQueued ≤ a.queue.length ∨ z.maxQueuedBytes - a.queuedBytes < a.bytes c then
    a.goto c (.failing (limitError z "admit"))
  else (a.requeue (a.queue ++ [c]) (a.bytes c)).goto c .queued

/-- The error `acquire` ends with. -/
def refusal (c : ℕ) : Err ε :=
  match (a.callers.cell c).err with
  | some err => err
  | none => if a.stopped then closedError z "admit" else waitError z "admit" (a.ctx c)

def leave (c : ℕ) : Admission ε T :=
  if c ∈ a.queue then a.requeue (a.queue.erase c) (-a.bytes c) else a

/-- What a waiter that is not let through does on its way out. -/
def withdraw (c : ℕ) : Admission ε T :=
  if (a.callers.cell c).granted then a.releasePermitLocked z (a.bytes c)
  else if (a.callers.cell c).err.isNone then (a.leave c).promoteLocked z
  else a

/-- `acquire`, after its `select`. -/
def resume (c : ℕ) : Admission ε T :=
  if (a.callers.cell c).granted = true ∧ (a.ctx c).isNone = true ∧ a.stopped = false then
    a.goto c .admitted
  else (a.withdraw z c).goto c (.failing ((a.withdraw z c).refusal z c))

def shutdown (cause : Option (Err ε)) : Admission ε T :=
  { a with
    closing := true
    callers := a.callers.mapCells (fun c x =>
      if c ∈ a.queue then x.refuse (failureOf .closed "admit" z.name {} [cause]) else x)
    queue := []
    queuedBytes := 0 }

def cancelBase (how : Cancellation Code Details ε) : Admission ε T :=
  { a with base := a.base.or (some how) }

def invoke (x : Caller ε T) : Admission ε T := { a with callers := a.callers.alloc x }

/-- **What happens to calls** before they begin. -/
inductive Event (ε : Type) where
  | cancelCall (c : ℕ) (how : Cancellation Code Details ε)
  | cancelLifetime (c : ℕ) (how : Cancellation Code Details ε)
  | cancelBase (how : Cancellation Code Details ε)
  | acquire (c : ℕ)
  /-- A waiter sees `ready` closed or its context ended. -/
  | resume (c : ℕ)
  | abort (c : ℕ)

def onCall (c : ℕ) (r : Option (Admission ε T)) : Option (Admission ε T) :=
  if c < a.callers.next then r else none

def step : Event ε → Option (Admission ε T)
  | .cancelCall c how => a.onCall c (some (a.change c (·.cancel how)))
  | .cancelLifetime c how => a.onCall c (some (a.change c (·.cancelLifetime how)))
  | .cancelBase how => some (a.cancelBase how)
  | .acquire c =>
    a.onCall c
      (match a.phase c with
      | .entering => some (a.acquire z c)
      | _ => none)
  | .resume c =>
    a.onCall c
      (match a.phase c with
      | .queued =>
        if 0 < (a.callers.cell c).ready ∨ (a.ctx c).isSome = true then some (a.resume z c)
        else none
      | _ => none)
  | .abort c =>
    a.onCall c
      (match a.phase c with
      | .failing err => some (a.goto c (.failed err))
      | _ => none)

/-! ### What a step can do -/

/-- **What a step of the admitting part can do.** -/
inductive Stepped : Event ε → Admission ε T → Prop
  | cancelCall (c : ℕ) (how : Cancellation Code Details ε) (hc : c < a.callers.next) :
      Stepped (.cancelCall c how) (a.change c (·.cancel how))
  | cancelLifetime (c : ℕ) (how : Cancellation Code Details ε) (hc : c < a.callers.next) :
      Stepped (.cancelLifetime c how) (a.change c (·.cancelLifetime how))
  | cancelBase (how : Cancellation Code Details ε) : Stepped (.cancelBase how) (a.cancelBase how)
  | acquire (c : ℕ) (hc : c < a.callers.next) (hp : a.phase c = .entering) :
      Stepped (.acquire c) (a.acquire z c)
  | resume (c : ℕ) (hc : c < a.callers.next) (hp : a.phase c = .queued)
      (hw : 0 < (a.callers.cell c).ready ∨ (a.ctx c).isSome = true) :
      Stepped (.resume c) (a.resume z c)
  | abort (c : ℕ) (err : Err ε) (hc : c < a.callers.next) (hp : a.phase c = .failing err) :
      Stepped (.abort c) (a.goto c (.failed err))

variable {z a} in
theorem stepped {e : Event ε} {a' : Admission ε T} (h : a.step z e = some a') :
    Stepped z a e a' := by
  unfold step onCall at h
  repeat' split at h
  any_goals cases h
  · next how hc => exact .cancelCall _ how hc
  · next how hc => exact .cancelLifetime _ how hc
  · exact .cancelBase _
  · next hc _ hp => exact .acquire _ hc hp
  · next hc _ hp hw => exact .resume _ hc hp hw
  · next hc _ err hp => exact .abort _ err hc hp

end Admission

/-! ## Operations -/

/-- What `releaseSource` gives back: a lease on a resource, or the watch a
child keeps on the context of its parent. -/
inductive Borrow where
  | lease
  | watch
deriving DecidableEq

/-- **How far `finish` has come with an operation.** -/
inductive Finish (ε : Type) where
  | idle
  /-- Its last child has finished, and `finish` is not through with it. -/
  | handed
  /-- At the head of the loop. -/
  | entered
  /-- `releaseSource` has been called, or was nil. -/
  | settled (cleanup : Option (Err ε))
  /-- Released; the evidence is about to be told. Whether `finish` goes on
  with the parent. -/
  | closed (next : Bool)
  | over

/-- **An operation**: `node` and its `resultState`. `resolving` is the
outcome that `Resolve` is copying; `producing` is the stack of `dispatch`,
whose reference `returned` gives back. -/
structure Node (ε T : Type) where
  parent : Option ℕ
  root : ℕ
  request : Request
  copy : T → T
  sequence : ℕ
  depth : ℤ
  family : ℤ
  children : ℤ
  refs : ℤ
  guards : ℤ
  resolving : Option (Outcome ε T)
  resolved : Bool
  failed : Bool
  finishing : Bool
  released : Bool
  ctx : Ctx ε
  ready : ℕ
  done : ℕ
  source : Source
  releaseSource : Option Borrow
  outcome : Outcome ε T
  producing : Bool
  finish : Finish ε
  inbox : ℕ

/-- `guardState`: the operation it retains, whether `release` is still set,
and whether the reference is still held. -/
structure Guard where
  node : ℕ
  release : Bool
  held : Bool

def Guard.disarm (x : Guard) : Guard := { x with release := false }

def Guard.drop (x : Guard) : Guard := { x with held := false }

namespace Node

variable (n : Node ε T)

def cancel (how : Cancellation Code Details ε) : Node ε T := { n with ctx := n.ctx.or (some how) }

def cancelCause (cause : Option (Err ε)) : Node ε T := { n with ctx := n.ctx.cancel cause }

def retain : Node ε T := { n with guards := n.guards + 1, refs := n.refs + 1 }

def unretain : Node ε T := { n with guards := n.guards - 1, refs := n.refs - 1 }

def produced : Node ε T := { n with refs := n.refs - 1, producing := false }

def capture (source : Source) : Node ε T :=
  { n with source := source, releaseSource := some .lease }

def resolve (outcome : Outcome ε T) : Node ε T :=
  { n with resolving := some outcome, refs := n.refs + 1 }

def publish (outcome : Outcome ε T) : Node ε T :=
  { n with
    outcome := outcome
    resolving := none
    resolved := true
    failed := outcome.primary.isSome || outcome.cleanup.isSome
    refs := n.refs - 1
    ready := n.ready + 1 }

def settle (cleanup : Option (Err ε)) : Node ε T :=
  { n with releaseSource := none, finish := .settled cleanup }

def move (f : Finish ε) : Node ε T := { n with finish := f }

/-- `finish` goes on with the parent of the operation it is through with. -/
def enter : Node ε T :=
  match n.finish with
  | .handed => n.move .entered
  | _ => n

def release (cleanup : Option (Err ε)) : Node ε T :=
  { n with
    outcome :=
      if cleanup.isSome then
        { n.outcome with cleanup := Fault.joined [n.outcome.cleanup, cleanup] }
      else n.outcome
    failed := n.failed || cleanup.isSome
    released := true
    ctx := n.ctx.cancel none
    done := n.done + 1 }

def retire (cleanup : Option (Err ε)) (next : Bool) : Node ε T :=
  (n.release cleanup).move (.closed next)

def addChild (k : ℤ) : Node ε T := { n with children := n.children + k }

def addFamily (k : ℤ) : Node ε T := { n with family := n.family + k }

def canFinish : Bool := n.refs = 0 && n.children = 0 && !n.finishing

/-- What `canFinishLocked` does: an outcome that nobody reported is an
error. -/
def conclude [Inhabited T] (missing : Err ε) (f : Finish ε) : Node ε T :=
  if n.resolved then { n with finishing := true, finish := f }
  else
    { n with
      finishing := true
      finish := f
      outcome := ⟨default, false, some missing, none⟩
      resolved := true
      failed := true
      ready := n.ready + 1 }

end Node

/-- **The part of `runtimeState` that owns work**: all operations and
guards, and the roots that are not released. -/
structure Tree (ε T : Type) where
  roots : Finset ℕ
  sequence : ℕ
  nodes : Heap (Node ε T)
  guards : Heap Guard

def Node.new [Inhabited T] (x : Call T) (root sequence : ℕ) (depth family : ℤ)
    (source : Source) (releaseSource : Option Borrow) : Node ε T where
  parent := x.parent
  root := root
  request := x.request
  copy := x.copy
  sequence := sequence
  depth := depth
  family := family
  children := 0
  refs := 1
  guards := 0
  resolving := none
  resolved := false
  failed := false
  finishing := false
  released := false
  ctx := none
  ready := 0
  done := 0
  source := source
  releaseSource := releaseSource
  outcome := default
  producing := true
  finish := .idle
  inbox := x.inbox

instance [Inhabited T] : Inhabited (Node ε T) :=
  ⟨.new ⟨default, id, none, 0, 0⟩ 0 0 0 0 default none⟩

namespace Tree

variable (z : Options) (t : Tree ε T)

/-- What `New` returns. -/
def init [Inhabited T] : Tree ε T := ⟨∅, 0, Heap.empty default, Heap.empty ⟨0, false, false⟩⟩

def change (v : ℕ) (f : Node ε T → Node ε T) : Tree ε T := { t with nodes := t.nodes.modify v f }

def cancelRoots (cause : Option (Err ε)) : Tree ε T :=
  { t with
    nodes := t.nodes.mapCells (fun v n => if v ∈ t.roots then n.cancelCause cause else n) }

/-- `cancellation`: the first context that has ended, from an operation up.
A parent is older than its children, so the walk from `v` has at most
`v + 1` steps. -/
def cancellation : ℕ → ℕ → Option (Err ε)
  | 0, _ => none
  | fuel + 1, v =>
    match (t.nodes.cell v).ctx, (t.nodes.cell v).parent with
    | some how, _ => Fault.joined [some how.err, some how.cause]
    | none, some p => cancellation fuel p
    | none, none => none

def details (v : ℕ) : Details where
  sequence := (t.nodes.cell v).sequence
  parent := ((t.nodes.cell v).parent.map (fun p => (t.nodes.cell p).sequence)).getD 0
  pending := !(t.nodes.cell v).released

def missing (v : ℕ) : Err ε :=
  failureOf .outcome (t.nodes.cell v).request.operation z.name (t.details v)
    [t.cancellation (v + 1) v]

def refuseChild (p : ℕ) : Option (Err ε) :=
  if (t.nodes.cell p).finishing = true ∨ (t.nodes.cell p).released = true
      ∨ (t.cancellation (p + 1) p).isSome = true then
    some (failureOf .closed "child" z.name { pending := !(t.nodes.cell p).released }
      [t.cancellation (p + 1) p])
  else if z.maxTasks ≤ (t.nodes.cell (t.nodes.cell p).root).family
      ∨ z.maxDepth ≤ (t.nodes.cell p).depth then
    some (failureOf .limit "child" z.name { pending := !(t.nodes.cell p).released } [])
  else none

/-- A parent gains or loses a child, and the root with it. -/
def adjust (p r : ℕ) (k : ℤ) : Tree ε T :=
  (t.change p (·.addChild k)).change r (·.addFamily k)

section

variable [Inhabited T]

def grow (n : Node ε T) : Tree ε T :=
  { t with sequence := increment t.sequence, nodes := t.nodes.alloc n }

def rootNode (x : Call T) : Node ε T :=
  .new x t.nodes.next (increment t.sequence) 1 1 default none

def childNode (x : Call T) (p : ℕ) : Node ε T :=
  .new x (t.nodes.cell p).root (increment t.sequence) ((t.nodes.cell p).depth + 1) 0
    (t.nodes.cell p).source (some .watch)

/-- `newNodeLocked`, past its checks. -/
def spawn (x : Call T) : Tree ε T :=
  match x.parent with
  | none => { t.grow (t.rootNode x) with roots := insert t.nodes.next t.roots }
  | some p => (t.grow (t.childNode x p)).adjust p (t.nodes.cell p).root 1

def canFinishLocked (v : ℕ) (f : Finish ε) : Tree ε T :=
  if (t.nodes.cell v).canFinish then t.change v (·.conclude (t.missing z v) f) else t

def finishRoot (v : ℕ) (cleanup : Option (Err ε)) : Tree ε T :=
  { t.change v (·.retire cleanup false) with roots := t.roots.erase v }

/-- A child is released, and its parent and its root let go of it. -/
def detach (v p : ℕ) (cleanup : Option (Err ε)) (next : Bool) : Tree ε T :=
  (t.change v (·.retire cleanup next)).adjust p (t.nodes.cell v).root (-1)

def finishChild (v p : ℕ) (cleanup : Option (Err ε)) : Tree ε T :=
  (t.detach v p cleanup ((t.nodes.cell p).addChild (-1)).canFinish).canFinishLocked z p .handed

/-! ### Work on an operation -/

/-- **What happens to operations.** -/
inductive Event (ε T : Type) where
  /-- The context of an operation ends: `Call.Cancel`, its lifetime, or the
  context of its parent. -/
  | cancel (v : ℕ) (how : Cancellation Code Details ε)
  | hold (v : ℕ)
  | unguard (g : ℕ)
  /-- The closure runs. -/
  | returnGuard (g : ℕ)
  /-- The stack of `dispatch` returns. -/
  | producerReturned (v : ℕ)
  /-- `Using` has borrowed a generation. -/
  | capture (v : ℕ) (source : Source)
  | resolve (v : ℕ) (outcome : Outcome ε T)
  | resolved (v : ℕ)
  | releaseSource (v : ℕ) (cleanup : Option (Err ε))
  | skipSource (v : ℕ)
  /-- `finish` calls `evidenceReady`. -/
  | notify (v : ℕ)

def hold (v : ℕ) : Except (Err ε) (Tree ε T) :=
  if (t.nodes.cell v).finishing = true ∨ (t.nodes.cell v).released = true then
    .error (failureOf .released "hold" z.name (t.details v) [])
  else if z.maxHolds ≤ (t.nodes.cell v).guards then
    .error (failureOf .limit "hold" z.name (t.details v) [])
  else .ok { t.change v Node.retain with guards := t.guards.alloc ⟨v, true, true⟩ }

def unguard (g : ℕ) : Except (Err ε) (Tree ε T) :=
  if (t.guards.cell g).release = true then
    .ok { t with guards := t.guards.modify g Guard.disarm }
  else .error (failureOf .released "release" "" {} [])

/-- The closure of a guard: `returned(true)`. -/
def returnGuard (g : ℕ) : Tree ε T :=
  ({ t.change (t.guards.cell g).node Node.unretain with
      guards := t.guards.modify g Guard.drop } : Tree ε T)
    |>.canFinishLocked z (t.guards.cell g).node .entered

/-- `returned(false)`. -/
def producerReturned (v : ℕ) : Tree ε T :=
  (t.change v Node.produced).canFinishLocked z v .entered

/-- `Call.Resolve`, up to the copy. -/
def resolve (v : ℕ) (outcome : Outcome ε T) : Except (Err ε) (Tree ε T) :=
  if (t.nodes.cell v).resolved = true ∨ (t.nodes.cell v).resolving.isSome = true
      ∨ (t.nodes.cell v).finishing = true then
    .error (failureOf .settled "resolve" z.name (t.details v) [])
  else .ok (t.change v (·.resolve outcome))

/-- The outcome `Resolve` publishes: present data copied, absent data
zero. -/
def copied (v : ℕ) (outcome : Outcome ε T) : Outcome ε T :=
  { outcome with
    value := if outcome.present then (t.nodes.cell v).copy outcome.value else default }

/-- `Call.Resolve`, after the copy. -/
def publish (v : ℕ) (outcome : Outcome ε T) : Tree ε T :=
  (t.change v (·.publish (t.copied v outcome))).canFinishLocked z v .entered

/-- `evidenceReady` has been called, and `finish` goes on with the parent
if it is its turn. -/
def notify (v : ℕ) (next : Bool) : Tree ε T :=
  match next, (t.nodes.cell v).parent with
  | true, some p => (t.change v (·.move .over)).change p Node.enter
  | _, _ => t.change v (·.move .over)

/-- What a request leaves behind: a failed one changes nothing. -/
def after : Except (Err ε) (Tree ε T) → Tree ε T
  | .ok t' => t'
  | .error _ => t

def onNode (v : ℕ) (r : Option (Tree ε T)) : Option (Tree ε T) :=
  if v < t.nodes.next then r else none

/-- **The step of the owning part.** -/
def step : Event ε T → Option (Tree ε T)
  | .cancel v how => t.onNode v (some (t.change v (·.cancel how)))
  | .hold v => t.onNode v (some (t.after (t.hold z v)))
  | .unguard g => if g < t.guards.next then some (t.after (t.unguard g)) else none
  | .returnGuard g =>
    if g < t.guards.next ∧ (t.guards.cell g).release = false ∧ (t.guards.cell g).held = true then
      some (t.returnGuard z g)
    else none
  | .producerReturned v =>
    t.onNode v (if (t.nodes.cell v).producing = true then some (t.producerReturned z v) else none)
  | .capture v source =>
    t.onNode v
      (if (t.nodes.cell v).producing = true ∧ (t.nodes.cell v).parent = none
          ∧ (t.nodes.cell v).releaseSource = none then
        some (t.change v (·.capture source))
      else none)
  | .resolve v outcome => t.onNode v (some (t.after (t.resolve z v outcome)))
  | .resolved v => t.onNode v ((t.nodes.cell v).resolving.map (t.publish z v))
  | .releaseSource v cleanup =>
    t.onNode v
      (match (t.nodes.cell v).finish, (t.nodes.cell v).releaseSource with
      | .entered, some .lease => some (t.change v (·.settle cleanup))
      | .entered, some .watch =>
        if cleanup.isNone then some (t.change v (·.settle none)) else none
      | _, _ => none)
  | .skipSource v =>
    t.onNode v
      (match (t.nodes.cell v).finish, (t.nodes.cell v).releaseSource with
      | .entered, none => some (t.change v (·.settle none))
      | _, _ => none)
  | .notify v =>
    t.onNode v
      (match (t.nodes.cell v).finish with
      | .closed next => some (t.notify v next)
      | _ => none)

/-! ### What a step can do -/

/-- **What a step of the owning part can do**: its label, what has been
checked, and the operations it leaves. -/
inductive Stepped : Event ε T → Tree ε T → Prop
  | cancel (v : ℕ) (how : Cancellation Code Details ε) (hv : v < t.nodes.next) :
      Stepped (.cancel v how) (t.change v (·.cancel how))
  | holdRefused (v : ℕ) : Stepped (.hold v) t
  | hold (v : ℕ) (hv : v < t.nodes.next) (hf : (t.nodes.cell v).finishing = false) :
      Stepped (.hold v)
        { t.change v Node.retain with guards := t.guards.alloc ⟨v, true, true⟩ }
  | unguardRefused (g : ℕ) : Stepped (.unguard g) t
  | unguard (g : ℕ) (hg : g < t.guards.next) :
      Stepped (.unguard g)
        { t with guards := t.guards.modify g Guard.disarm }
  | returnGuard (g : ℕ) (hg : g < t.guards.next) (hh : (t.guards.cell g).held = true) :
      Stepped (.returnGuard g) (t.returnGuard z g)
  | producerReturned (v : ℕ) (hv : v < t.nodes.next) (hp : (t.nodes.cell v).producing = true) :
      Stepped (.producerReturned v) (t.producerReturned z v)
  | capture (v : ℕ) (source : Source) (hv : v < t.nodes.next)
      (hp : (t.nodes.cell v).producing = true) (hr : (t.nodes.cell v).parent = none) :
      Stepped (.capture v source) (t.change v (·.capture source))
  | resolveRefused (v : ℕ) (outcome : Outcome ε T) : Stepped (.resolve v outcome) t
  | resolve (v : ℕ) (outcome : Outcome ε T) (hv : v < t.nodes.next)
      (hr : (t.nodes.cell v).resolved = false) (hs : (t.nodes.cell v).resolving = none)
      (hf : (t.nodes.cell v).finishing = false) :
      Stepped (.resolve v outcome) (t.change v (·.resolve outcome))
  | resolved (v : ℕ) (outcome : Outcome ε T) (hv : v < t.nodes.next)
      (hs : (t.nodes.cell v).resolving = some outcome) :
      Stepped (.resolved v) (t.publish z v outcome)
  | releaseSource (v : ℕ) (cleanup : Option (Err ε)) (b : Borrow) (hv : v < t.nodes.next)
      (hf : (t.nodes.cell v).finish = .entered)
      (hs : (t.nodes.cell v).releaseSource = some b) :
      Stepped (.releaseSource v cleanup) (t.change v (·.settle cleanup))
  | skipSource (v : ℕ) (hv : v < t.nodes.next) (hf : (t.nodes.cell v).finish = .entered)
      (hs : (t.nodes.cell v).releaseSource = none) :
      Stepped (.skipSource v) (t.change v (·.settle none))
  | notify (v : ℕ) (next : Bool) (hv : v < t.nodes.next)
      (hf : (t.nodes.cell v).finish = .closed next) : Stepped (.notify v) (t.notify v next)

variable {z t} in
theorem stepped {e : Event ε T} {t' : Tree ε T} (h : t.step z e = some t') : Stepped z t e t' := by
  unfold step onNode at h
  repeat' split at h
  any_goals cases h
  · next how hv => exact .cancel _ how hv
  · next hv =>
    unfold after hold
    split_ifs with hf
    iterate 2 exact .holdRefused _
    · exact .hold _ hv (eq_false_of_ne_true (not_or.mp hf).1)
  · next hg =>
    unfold after unguard
    split_ifs
    · exact .unguard _ hg
    · exact .unguardRefused _
  · next hg => exact .returnGuard _ hg.1 hg.2.2
  · next hv hp => exact .producerReturned _ hv hp
  · next hv hp => exact .capture _ _ hv hp.1 hp.2.1
  · next hv =>
    unfold after resolve
    split_ifs with hf
    · exact .resolveRefused _ _
    · obtain ⟨hr, hf⟩ := not_or.mp hf
      obtain ⟨hs, hf⟩ := not_or.mp hf
      exact .resolve _ _ hv (eq_false_of_ne_true hr)
        (Option.not_isSome_iff_eq_none.mp hs) (eq_false_of_ne_true hf)
  · next hv =>
    obtain ⟨outcome, hs, rfl⟩ := Option.map_eq_some_iff.mp h
    exact .resolved _ outcome hv hs
  · next hv _ _ hf hs => exact .releaseSource _ _ .lease hv hf hs
  · next hv _ _ hf hs hn =>
    obtain rfl := Option.isNone_iff_eq_none.mp hn
    exact .releaseSource _ none .watch hv hf hs
  · next hv _ _ hf hs => exact .skipSource _ hv hf hs
  · next hv _ _ hf => exact .notify _ _ hv hf

end

end Tree

/-! ## The runtime -/

/-- **The state of a runtime.** -/
structure Runtime (ε T : Type) extends Admission ε T, Tree ε T

/-- **What happens to a runtime.** -/
inductive Event (ε T : Type) where
  /-- A call of `beginContexts` has reserved its evidence. -/
  | call (x : Call T)
  | admission (e : Admission.Event ε)
  | begin (c : ℕ)
  /-- `shutdown`, from `Close` or the parent context. -/
  | shutdown (cause : Option (Err ε))
  | finish (v : ℕ)
  | tree (e : Tree.Event ε T)

namespace Runtime

variable (z : Options) (s : Runtime ε T)

/-- What `New` returns. -/
def init [Inhabited T] : Runtime ε T := ⟨Admission.init, Tree.init⟩

def setAdmission (a : Admission ε T) : Runtime ε T := ⟨a, s.toTree⟩

def setTree (t : Tree ε T) : Runtime ε T := ⟨s.toAdmission, t⟩

/-- The checks of `beginContexts` under the lock, `newNodeLocked`
included. -/
def refuseBegin (x : Caller ε T) : Option (Err ε) :=
  if x.ctx.isSome then some (Admission.waitError z "begin" x.ctx)
  else if s.sequence = maxUint64 then some (Admission.limitError z "sequence")
  else if s.stopped then some (Admission.closedError z "begin")
  else if x.lifetime.isSome then some (Admission.waitError z "begin" x.lifetime)
  else x.parent.bind (s.toTree.refuseChild z)

variable [Inhabited T]

/-- The locked section of `beginContexts`. -/
def begin (c : ℕ) : Runtime ε T :=
  match s.refuseBegin z (s.callers.cell c) with
  | some err =>
    if (s.callers.cell c).parent.isNone then
      s.setAdmission ((s.toAdmission.releasePermitLocked z (s.bytes c)).goto c (.failing err))
    else s.setAdmission (s.toAdmission.goto c (.failing err))
  | none =>
    ⟨s.toAdmission.goto c (.begun s.nodes.next), s.toTree.spawn (s.callers.cell c).toCall⟩

def shutdown (cause : Option (Err ε)) : Runtime ε T :=
  if s.closing then s
  else ⟨(s.toAdmission.shutdown z cause).closeDoneLocked, s.toTree.cancelRoots cause⟩

/-- The locked section of `finish`. -/
def finish (v : ℕ) (cleanup : Option (Err ε)) : Runtime ε T :=
  match (s.nodes.cell v).parent with
  | none =>
    ⟨s.toAdmission.releasePermitLocked z (s.nodes.cell v).request.workBytes,
      s.toTree.finishRoot v cleanup⟩
  | some p => s.setTree (s.toTree.finishChild z v p cleanup)

/-- **The step of a runtime.** -/
def step : Event ε T → Option (Runtime ε T)
  | .call x =>
    if validRequest x.request x.parent.isSome = true ∧ ∀ p ∈ x.parent, p < s.nodes.next then
      some (s.setAdmission (s.invoke (.new x)))
    else none
  | .admission e => (s.toAdmission.step z e).map s.setAdmission
  | .begin c =>
    match s.phase c with
    | .admitted => if c < s.callers.next then some (s.begin z c) else none
    | _ => none
  | .shutdown cause => some (s.shutdown z cause)
  | .finish v =>
    match (s.nodes.cell v).finish with
    | .settled cleanup => if v < s.nodes.next then some (s.finish z v cleanup) else none
    | _ => none
  | .tree e => (s.toTree.step z e).map s.setTree

/-- **The runtime as a machine**, started by `New`. -/
def machine : Machine (Runtime ε T) (Event ε T) := ⟨init, fun s e => s.step z e⟩

/-! ### What a step can do -/

/-- **What a step of a runtime can do.** -/
inductive Stepped : Event ε T → Runtime ε T → Prop
  | call (x : Call T) (hx : validRequest x.request x.parent.isSome = true)
      (hp : ∀ p ∈ x.parent, p < s.nodes.next) :
      Stepped (.call x) (s.setAdmission (s.invoke (.new x)))
  | admission (e : Admission.Event ε) (a : Admission ε T)
      (ha : s.toAdmission.step z e = some a) : Stepped (.admission e) (s.setAdmission a)
  | refuseRoot (c : ℕ) (err : Err ε) (hc : c < s.callers.next)
      (hp : (s.callers.cell c).phase = .admitted) (hr : (s.callers.cell c).parent = none) :
      Stepped (.begin c) (s.setAdmission
        ((s.toAdmission.releasePermitLocked z (s.bytes c)).goto c (.failing err)))
  | refuseChild (c p : ℕ) (err : Err ε) (hc : c < s.callers.next)
      (hp : (s.callers.cell c).phase = .admitted) (hr : (s.callers.cell c).parent = some p) :
      Stepped (.begin c) (s.setAdmission (s.toAdmission.goto c (.failing err)))
  | beginRoot (c : ℕ) (hc : c < s.callers.next)
      (hp : (s.callers.cell c).phase = .admitted) (hr : (s.callers.cell c).parent = none)
      (hs : s.stopped = false) :
      Stepped (.begin c)
        ⟨s.toAdmission.goto c (.begun s.nodes.next), s.toTree.spawn (s.callers.cell c).toCall⟩
  | beginChild (c p : ℕ) (hc : c < s.callers.next)
      (hp : (s.callers.cell c).phase = .admitted) (hr : (s.callers.cell c).parent = some p)
      (hf : (s.nodes.cell p).finishing = false)
      (hfam : (s.nodes.cell (s.nodes.cell p).root).family < z.maxTasks)
      (hdep : (s.nodes.cell p).depth < z.maxDepth) :
      Stepped (.begin c)
        ⟨s.toAdmission.goto c (.begun s.nodes.next), s.toTree.spawn (s.callers.cell c).toCall⟩
  | shutdownAgain (cause : Option (Err ε)) : Stepped (.shutdown cause) s
  | shutdown (cause : Option (Err ε)) (hcl : s.closing = false) :
      Stepped (.shutdown cause)
        ⟨(s.toAdmission.shutdown z cause).closeDoneLocked, s.toTree.cancelRoots cause⟩
  | finishRoot (v : ℕ) (cleanup : Option (Err ε)) (hv : v < s.nodes.next)
      (hf : (s.nodes.cell v).finish = .settled cleanup) (hp : (s.nodes.cell v).parent = none) :
      Stepped (.finish v)
        ⟨s.toAdmission.releasePermitLocked z (s.nodes.cell v).request.workBytes,
          s.toTree.finishRoot v cleanup⟩
  | finishChild (v p : ℕ) (cleanup : Option (Err ε)) (hv : v < s.nodes.next)
      (hf : (s.nodes.cell v).finish = .settled cleanup) (hp : (s.nodes.cell v).parent = some p) :
      Stepped (.finish v) (s.setTree (s.toTree.finishChild z v p cleanup))
  | tree (e : Tree.Event ε T) (t : Tree ε T) (ht : s.toTree.step z e = some t) :
      Stepped (.tree e) (s.setTree t)

variable {z s} {s' : Runtime ε T}

theorem begun {c : ℕ} (hc : c < s.callers.next) (hp : (s.callers.cell c).phase = .admitted) :
    Stepped z s (.begin c) (s.begin z c) := by
  unfold begin
  cases hb : s.refuseBegin z (s.callers.cell c) with
  | some err =>
    cases hr : (s.callers.cell c).parent with
    | none => exact .refuseRoot c err hc hp hr
    | some p => exact .refuseChild c p err hc hp hr
  | none =>
    unfold refuseBegin at hb
    split_ifs at hb with h₁ h₂ h₃ h₄
    cases hr : (s.callers.cell c).parent with
    | none => exact .beginRoot c hc hp hr (eq_false_of_ne_true h₃)
    | some p =>
      rw [hr] at hb
      replace hb : s.toTree.refuseChild z p = none := hb
      unfold Tree.refuseChild at hb
      split_ifs at hb with hf hl
      obtain ⟨hfam, hdep⟩ := not_or.mp hl
      exact .beginChild c p hc hp hr (eq_false_of_ne_true (not_or.mp hf).1)
        (not_le.mp hfam) (not_le.mp hdep)

theorem stepped {e : Event ε T} (h : s.step z e = some s') : Stepped z s e s' := by
  unfold step at h
  repeat' split at h
  any_goals cases h
  · next hx => exact .call _ hx.1 hx.2
  · obtain ⟨a, ha, rfl⟩ := Option.map_eq_some_iff.mp h
    exact .admission _ a ha
  · next hp hc => exact begun hc hp
  · unfold shutdown
    split_ifs with hcl
    · exact .shutdownAgain _
    · exact .shutdown _ (eq_false_of_ne_true hcl)
  · next cleanup hf hv =>
    unfold finish
    split
    · next hp => exact .finishRoot _ cleanup hv hf hp
    · next p hp => exact .finishChild _ p cleanup hv hf hp
  · obtain ⟨t, ht, rfl⟩ := Option.map_eq_some_iff.mp h
    exact .tree _ t ht

end Runtime

end Adapter
