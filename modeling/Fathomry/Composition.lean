import Fathomry.Failure
import Fathomry.Machine
import Fathomry.Refcount

/-!
# Assemblies of resources

An assembly is an ordered set of sources that is started and shut down as a
whole. It owns the resources it constructs; it can borrow a resource from
another assembly, or take over its ownership; and integrations acquire leases
on what is assembled. This module is the code of
`internal/resource/resources.go` and `internal/resource/admission.go` as a
machine over any number of assemblies, with every call of `Assemble`,
`Close` and `Acquire` in progress and all leases.

A resource is one record, however many assemblies have an entry for it. The
record counts its borrowers – entries of borrowing assemblies, and root
leases – and its cleanup callback waits for that count. The mutex of an
assembly and that of one record make the sections atomic. Only `Close` holds
the former over several sections, which `locked` stands for.

Specifications are pointers to values that never change. The machine is over
a table of them, `spec`, which may mention any assembly, also one that does
not exist yet. An assembly that is still being built is known to nobody else;
`building` says so.
-/

namespace Composition

variable {ε : Type}

/-! ## Errors -/

inductive Kind where
  | assembly
  | selection
  | initialization
  | cleanup
  | incomplete
  | admission
  | capacity
deriving DecidableEq

/-- Where an error happened, besides its source. -/
structure Location where
  scope : String
  provider : String
deriving DecidableEq

/-- Errors that are not of the package: the one it makes with `errors.New`,
and those of callbacks. -/
inductive Cause (ε : Type) where
  | omitted
  | other (cause : ε)

abbrev Err (ε : Type) := Fault Kind Location (Cause ε)

abbrev Ctx (ε : Type) := Context Kind Location (Cause ε)

abbrev Ending (ε : Type) := Cancellation Kind Location (Cause ε)

/-! ## Specifications -/

/-- `Ownership`, of an entry. -/
inductive Ownership where
  | owned
  | borrowed
  | delegated
deriving DecidableEq

structure Limits where
  active : ℤ
  queued : ℤ
  bytes : ℤ
  queuedBytes : ℤ
  maxLeases : ℤ
deriving DecidableEq

def validLimits (l : Limits) : Bool :=
  0 < l.active ∧ 0 ≤ l.queued ∧ 0 < l.bytes ∧ 0 < l.maxLeases
    ∧ (l.queued = 0 ∧ l.queuedBytes = 0 ∨ 0 < l.queued ∧ 0 < l.queuedBytes)

def validID (value : String) : Bool :=
  value ≠ "" && value.utf8ByteSize ≤ 64 &&
    value.toList.all (fun c => ('a' ≤ c && c ≤ 'z') || ('0' ≤ c && c ≤ '9')
      || c = '.' || c = '_' || c = '-')

/-- **A specification.** `source`, `provider` and `revision` are what is
read of its description. A shared one has a donor and the specification
it is known by there. -/
structure Spec where
  name : String
  mode : Ownership
  source : String
  provider : String
  revision : String
  constructs : Bool
  donor : Option ℕ
  original : Option ℕ
  limits : Option Limits

/-- What `Assemble` rejects without looking at a donor. -/
def Spec.malformed (spec : Spec) (names : List String) : Bool :=
  !validID spec.name || names.contains spec.name || !validID spec.provider || spec.revision = ""
    || (spec.mode = .owned && !spec.constructs)
    || spec.limits.any (fun l => spec.mode ≠ .owned || !validLimits l)

/-- An error at a source of a scope: `kind.New(location(scope, description,
operation), …)`. -/
def failure (kind : Kind) (operation scope : String) (spec : Spec)
    (causes : List (Option (Err ε))) : Err ε :=
  .new kind operation spec.source ⟨scope, spec.provider⟩ causes

def scopeFailure (kind : Kind) (operation scope : String) (causes : List (Option (Err ε))) :
    Err ε :=
  .new kind operation "" ⟨scope, ""⟩ causes

/-! ## Assemblies and resources -/

/-- **An entry of an assembly.** -/
structure Entry where
  spec : ℕ
  record : ℕ
  /-- A borrowing entry that has not returned what it borrowed. -/
  lease : Bool
  check : Bool
  uses : ℤ

namespace Entry

variable (x : Entry)

def use : Entry := { x with uses := x.uses + 1 }

def unuse : Entry := { x with uses := x.uses - 1 }

def giveBack : Entry := { x with lease := false }

end Entry

/-- **A resource**, as its record keeps it. `next` is the callback that is to
be called next. -/
structure Record (ε : Type) where
  scope : String
  source : String
  provider : String
  owner : ℕ
  admitting : Bool
  borrowers : ℤ
  quiescent : Bool
  released : Bool
  next : Option ℕ
  cleanupErrors : List (Err ε)

namespace Record

variable (x : Record ε)

def complete : Bool := x.quiescent && x.released

def passTo (a : ℕ) : Record ε := { x with owner := a }

def lend : Record ε := { x with borrowers := x.borrowers + 1 }

def unlend : Record ε := { x with borrowers := x.borrowers - 1 }

def shut (a : ℕ) : Record ε := { x with admitting := x.admitting && x.owner ≠ a }

def call : Record ε := { x with next := none }

end Record

/-- **An assembly.** -/
structure Assembly (ε : Type) where
  scope : String
  ready : Bool
  primary : Option (Err ε)
  entries : List ℕ
  gate : Option ℕ
  /-- The call of `Assemble` that is still adding entries. -/
  builder : Option ℕ
  /-- `Close` holds the mutex over several sections. -/
  locked : Bool

namespace Assembly

variable (x : Assembly ε)

/-- An assembly that nobody has but the call that builds it. -/
def building : Bool := x.builder.isSome

def abandon (err : Err ε) : Assembly ε := { x with primary := some err, builder := none }

def publish : Assembly ε := { x with ready := true, builder := none }

/-- `Close` takes the mutex, and nothing is admitted any more. -/
def lock : Assembly ε := { x with ready := false, locked := true }

/-- `Close` gives up the mutex. -/
def unlock : Assembly ε := { x with locked := false }

/-- A call of `Close` is in the gate, or none is. -/
def pass (c : Option ℕ) : Assembly ε := { x with gate := c }

end Assembly

/-- A lease family: the access it came from, and what it may use. -/
structure Family where
  assembly : ℕ
  entry : ℕ
  bytes : ℤ
  nodes : ℤ
  limit : ℤ

/-- **What assemblies share**: assemblies, entries, records and leases. The
data of a lease is its family. -/
structure Core (ε : Type) where
  assemblies : Heap (Assembly ε)
  entries : Heap Entry
  records : Heap (Record ε)
  families : Heap Family
  nodes : Heap (Refcount.Node ℕ)

namespace Core

variable (k : Core ε)

def recordOf (e : ℕ) : ℕ := (k.entries.cell e).record

def assembly (a : ℕ) (f : Assembly ε → Assembly ε) : Core ε :=
  { k with assemblies := k.assemblies.modify a f }

def entry (e : ℕ) (f : Entry → Entry) : Core ε := { k with entries := k.entries.modify e f }

def record (r : ℕ) (f : Record ε → Record ε) : Core ε :=
  { k with records := k.records.modify r f }

def append (a : ℕ) (e : Entry) : Core ε :=
  { k.assembly a (fun x => { x with entries := x.entries ++ [k.entries.next] }) with
    entries := k.entries.alloc e }

def found (scope : String) (b : ℕ) : Core ε :=
  { k with assemblies := k.assemblies.alloc ⟨scope, false, none, [], none, some b, false⟩ }

def borrow (a p r : ℕ) : Core ε :=
  (k.record r Record.lend).append a ⟨p, r, true, false, 0⟩

def delegate (a p r : ℕ) : Core ε :=
  (k.record r (·.passTo a)).append a ⟨p, r, false, false, 0⟩

def own (a p : ℕ) (check : Bool) (x : Record ε) : Core ε :=
  { k with records := k.records.alloc x }.append a ⟨p, k.records.next, false, check, 0⟩

def grant (a e : ℕ) (bytes limit : ℤ) : Core ε :=
  { (k.record (k.recordOf e) Record.lend).entry e Entry.use with
    families := k.families.alloc ⟨a, e, bytes, 1, limit⟩
    nodes := Refcount.root k.nodes k.families.next }

def retain (n : ℕ) : Core ε :=
  { k with
    families := k.families.modify (k.nodes.cell n).data
      (fun x => { x with nodes := x.nodes + 1 })
    nodes := Refcount.retain k.nodes n }

def release (n : ℕ) : Core ε :=
  { k with
    families := k.families.modify (k.nodes.cell n).data
      (fun x => { x with nodes := x.nodes - (Refcount.release k.nodes n).2.1 })
    nodes := (Refcount.release k.nodes n).1 }

def free (e : ℕ) : Core ε :=
  (k.record (k.recordOf e) Record.unlend).entry e Entry.unuse

def giveBack (e : ℕ) : Core ε :=
  (k.record (k.recordOf e) Record.unlend).entry e Entry.giveBack

end Core

/-! ## Admission -/

/-- `admission`. A waiter is known by its call, and `changed` counts how
often the channel has been replaced. -/
structure Admission where
  limits : Limits
  active : ℤ
  bytes : ℤ
  queue : List ℕ
  queuedBytes : ℤ
  changed : ℕ

def Admission.signal (x : Admission) : Admission := { x with changed := x.changed + 1 }

/-! ## Calls -/

inductive Build.Stage where
  | preflight
  | building
  | constructing
  | checking
  | probing
  | returned
deriving DecidableEq

/-- **A call of `Assemble`.** -/
structure Build (ε : Type) where
  scope : String
  selected : List (Option ℕ)
  ctx : Ctx ε
  cleanup : Ctx ε
  index : ℕ
  names : List String
  shared : List (ℕ × Ownership)
  assembly : ℕ
  stage : Build.Stage
  err : Option (Err ε)

inductive Closing.Stage where
  | entered
  /-- Holding the mutex of the assembly, at an entry. -/
  | sealing (i : ℕ)
  | waiting
  /-- In the gate, with so many entries to go. -/
  | visiting (i : ℕ)
  | calling (i : ℕ)
  | leaving
  | returned
deriving DecidableEq

/-- **A call of `Close`.** -/
structure Closing (ε : Type) where
  assembly : ℕ
  ctx : Ctx ε
  stage : Closing.Stage
  interrupted : Option (Err ε)

inductive Acquiring.Stage (ε : Type) where
  | trying
  | waiting
  | granted (n : ℕ)
  | refused (err : Err ε)

/-- **A call of `Acquire`.** -/
structure Acquiring (ε : Type) where
  assembly : ℕ
  entry : ℕ
  bytes : ℤ
  ctx : Ctx ε
  queued : Bool
  changed : ℕ
  stage : Acquiring.Stage ε

/-- What a constructor returns, besides an error: whether anything was
acquired, whether there is a capability, a callback and a check. -/
structure Constructed where
  acquired : Bool
  capability : Bool
  release : Bool
  check : Bool

structure ReleaseResult (ε : Type) where
  quiescent : Bool
  released : Bool
  err : Option (Err ε)
  continues : Bool

/-- **All assemblies and all calls.** A callback is known by the number it
was handed over with. -/
structure State (ε : Type) extends Core ε where
  admissions : Heap Admission
  accesses : List (ℕ × ℕ)
  builds : Heap (Build ε)
  closes : Heap (Closing ε)
  acquires : Heap (Acquiring ε)
  callbacks : ℕ

namespace State

variable (spec : ℕ → Spec) (s : State ε)

def init : State ε where
  assemblies := Heap.empty ⟨"", false, none, [], none, none, false⟩
  entries := Heap.empty ⟨0, 0, false, false, 0⟩
  records := Heap.empty ⟨"", "", "", 0, false, 0, true, true, none, []⟩
  families := Heap.empty ⟨0, 0, 0, 0, 0⟩
  nodes := Heap.empty ⟨none, 0, true, true, 0⟩
  admissions := Heap.empty ⟨⟨0, 0, 0, 0, 0⟩, 0, 0, [], 0, 0⟩
  accesses := []
  builds := Heap.empty ⟨"", [], none, none, 0, [], [], 0, .returned, none⟩
  closes := Heap.empty ⟨0, none, .returned, none⟩
  acquires := Heap.empty ⟨0, 0, 0, none, false, 0, .trying⟩
  callbacks := 0

def build (b : ℕ) (f : Build ε → Build ε) : State ε := { s with builds := s.builds.modify b f }

def closing (c : ℕ) (f : Closing ε → Closing ε) : State ε :=
  { s with closes := s.closes.modify c f }

def acquiring (q : ℕ) (f : Acquiring ε → Acquiring ε) : State ε :=
  { s with acquires := s.acquires.modify q f }

def admission (r : ℕ) (f : Admission → Admission) : State ε :=
  { s with admissions := s.admissions.modify r f }

def core (k : Core ε) : State ε := { s with toCore := k }

/-! ### Sharing -/

def find (a p : ℕ) : Option ℕ :=
  (s.assemblies.cell a).entries.find? (fun e => (s.entries.cell e).spec = p)

def holds (a e : ℕ) : Bool :=
  if (spec (s.entries.cell e).spec).mode = .borrowed then (s.entries.cell e).lease
  else (s.records.cell (s.recordOf e)).owner = a

/-- Whether a donor may share an entry. -/
def shareable (mode : Ownership) (a e : ℕ) : Bool :=
  (s.records.cell (s.recordOf e)).admitting
    && !(s.records.cell (s.recordOf e)).released
    && s.holds spec a e
    && (mode ≠ .delegated || ((s.records.cell (s.recordOf e)).owner = a
      && (s.records.cell (s.recordOf e)).borrowers = 0
      && (s.admissions.cell (s.recordOf e)).queue.isEmpty))

/-- `existing`, up to what it changes: the record that may be shared. -/
def existing (x : Spec) : Option ℕ :=
  match x.donor, x.original with
  | some a, some p =>
    if (s.assemblies.cell a).ready
        ∧ (x.mode = .delegated → (s.assemblies.cell a).entries.length = 1) then
      match s.find a p with
      | some e => if s.shareable spec x.mode a e then some (s.recordOf e) else none
      | none => none
    else none
  | _, _ => none

def donorFree (x : Spec) : Bool :=
  x.mode = .owned || x.original = none || x.donor.all (fun a => !(s.assemblies.cell a).locked)

/-! ### Assembling -/

/-- `Assemble` returns without an assembly. -/
def reject (b : ℕ) (err : Err ε) : State ε :=
  s.build b (fun x => { x with stage := .returned, err := some err })

/-- `fail`: the assembly keeps the error, and is closed. What that adds to
the error is left out. -/
def fail (b : ℕ) (err : Err ε) : State ε :=
  { (s.core (s.toCore.assembly (s.builds.cell b).assembly (·.abandon err))).build b
        (fun x => { x with
          stage := .returned
          err := some (scopeFailure .assembly "assemble" x.scope [some err]) }) with
    closes := s.closes.alloc
      ⟨(s.builds.cell b).assembly, (s.builds.cell b).cleanup, .entered, none⟩ }

def preflight (b p : ℕ) : State ε :=
  if (spec p).malformed (s.builds.cell b).names then
    s.reject b (scopeFailure .selection "preflight" (s.builds.cell b).scope [])
  else if (spec p).mode = .owned then
    s.build b (fun x => { x with names := (spec p).name :: x.names, index := x.index + 1 })
  else
    match s.existing spec (spec p) with
    | none => s.reject b (scopeFailure .selection "share" "" [])
    | some r =>
      if ((s.builds.cell b).shared.lookup r).any
          (fun m => m = .delegated || (spec p).mode = .delegated) then
        s.reject b (scopeFailure .selection "preflight" (s.builds.cell b).scope [])
      else
        s.build b (fun x => { x with
          names := (spec p).name :: x.names
          shared := (r, (spec p).mode) :: x.shared
          index := x.index + 1 })

def start (b : ℕ) : State ε :=
  (s.core (s.toCore.found (s.builds.cell b).scope b)).build b
    (fun x => { x with assembly := s.assemblies.next, index := 0, stage := .building })

def ended (b p : ℕ) (operation : String) : Err ε :=
  failure .initialization operation (s.builds.cell b).scope (spec p)
    [(s.builds.cell b).ctx.err, (s.builds.cell b).ctx.cause]

/-- The turn of one specification: a shared one is acquired, the constructor
of an owned one is called. -/
def take (b p : ℕ) : State ε :=
  if (s.builds.cell b).ctx.isSome then s.fail b (s.ended spec b p "construct")
  else if (spec p).mode = .owned then s.build b (fun x => { x with stage := .constructing })
  else
    match s.existing spec (spec p) with
    | none => s.fail b (scopeFailure .selection "share" "" [])
    | some r =>
      (s.core (if (spec p).mode = .borrowed then s.toCore.borrow (s.builds.cell b).assembly p r
        else s.toCore.delegate (s.builds.cell b).assembly p r)).build b
          (fun x => { x with index := x.index + 1 })

def newRecord (b p : ℕ) (value : Constructed) : Record ε where
  scope := (s.builds.cell b).scope
  source := (spec p).source
  provider := (spec p).provider
  owner := (s.builds.cell b).assembly
  admitting := true
  borrowers := 0
  quiescent := !(value.acquired || value.release)
  released := !(value.acquired || value.release)
  next := if value.release then some s.callbacks else none
  cleanupErrors := []

def constructed (b p : ℕ) (value : Constructed) : State ε :=
  { s.core (s.toCore.own (s.builds.cell b).assembly p value.check (s.newRecord spec b p value)) with
    admissions := s.admissions.alloc
      ⟨(spec p).limits.getD ⟨0, 0, 0, 0, 0⟩, 0, 0, [], 0, 0⟩
    callbacks := if value.release then s.callbacks + 1 else s.callbacks }

def construct (b p : ℕ) (value : Constructed) (err : Option (Err ε)) : State ε :=
  match err with
  | some err =>
    (s.constructed spec b p value).fail b
      (failure .initialization "construct" (s.builds.cell b).scope (spec p) [some err])
  | none =>
    if value.release && value.capability then
      (s.constructed spec b p value).build b
        (fun x => { x with index := x.index + 1, stage := .building })
    else
      (s.constructed spec b p value).fail b
        (failure .initialization "construct" (s.builds.cell b).scope (spec p)
          [some (.native .omitted)])

def check (b e : ℕ) : State ε :=
  if (s.builds.cell b).ctx.isSome then
    s.fail b (s.ended spec b (s.entries.cell e).spec "check")
  else if (s.entries.cell e).check then s.build b (fun x => { x with stage := .probing })
  else s.build b (fun x => { x with index := x.index + 1 })

def finish (b : ℕ) : State ε :=
  if (s.builds.cell b).ctx.isSome then
    s.fail b (scopeFailure .initialization "assemble" (s.builds.cell b).scope
      [(s.builds.cell b).ctx.err, (s.builds.cell b).ctx.cause])
  else
    (s.core (s.toCore.assembly (s.builds.cell b).assembly Assembly.publish)).build b
        (fun x => { x with stage := .returned })

def probed (b e : ℕ) (err : Option (Err ε)) : State ε :=
  match err with
  | some err =>
    s.fail b (failure .initialization "check" (s.builds.cell b).scope
      (spec (s.entries.cell e).spec) [some err])
  | none => s.build b (fun x => { x with index := x.index + 1, stage := .checking })

/-! ### Closing -/

def interrupt (c : ℕ) : State ε :=
  s.closing c (fun x => { x with
    stage := .leaving
    interrupted := Fault.joined [x.ctx.err, x.ctx.cause] })

/-- `Close` goes on to the entry before. -/
def pass (c i : ℕ) : State ε := s.closing c (fun x => { x with stage := .visiting i })

/-- Stop admitting to a record, if it is one's own, and wake who waits. -/
def sealRecord (a e : ℕ) : State ε :=
  (s.core (s.toCore.record (s.recordOf e) (·.shut a))).admission (s.recordOf e)
      Admission.signal

/-- **The turn of one entry in the loop of `Close`.** -/
def visit (c a e i : ℕ) : State ε :=
  if (s.entries.cell e).uses ≠ 0 then s.interrupt c
  else if (spec (s.entries.cell e).spec).mode = .borrowed then
    if (s.entries.cell e).lease then (s.core (s.toCore.giveBack e)).pass c i
    else s.pass c i
  else if (s.records.cell (s.recordOf e)).owner ≠ a
      ∨ (s.records.cell (s.recordOf e)).complete = true then s.pass c i
  else if (s.closes.cell c).ctx.isSome then s.interrupt c
  else if (s.records.cell (s.recordOf e)).borrowers ≠ 0
      ∨ (s.records.cell (s.recordOf e)).next = none then
    s.closing c (fun x => { x with stage := .leaving })
  else
    (s.core (s.toCore.record (s.recordOf e) Record.call)).closing c
      (fun x => { x with stage := .calling i })

/-- What a callback has confirmed. -/
def confirm (r : Record ε) (result : ReleaseResult ε) (callback : ℕ) : Record ε :=
  { r with
    quiescent := r.quiescent || result.quiescent
    released := r.released || result.released
    cleanupErrors := r.cleanupErrors ++ (result.err.map (fun err =>
      (.new .cleanup "release" r.source ⟨r.scope, r.provider⟩ [some err] : Err ε))).toList
    next :=
      if (r.quiescent || result.quiescent) && (r.released || result.released) then r.next
      else if result.continues then some callback else none }

def cleaned (c e i : ℕ) (result : ReleaseResult ε) : State ε :=
  { (s.core (s.toCore.record (s.recordOf e) (confirm · result s.callbacks))).closing c
      (fun x => { x with
        stage := if (confirm (s.records.cell (s.recordOf e)) result s.callbacks).complete then
          .visiting i else .leaving }) with
    callbacks := if result.continues then s.callbacks + 1 else s.callbacks }

/-! ### Leases -/

/-- What `AccessFor` asks for. -/
def accessible (a e : ℕ) : Bool :=
  validLimits (s.admissions.cell (s.recordOf e)).limits
    && !(s.records.cell (s.recordOf e)).released && s.holds spec a e

/-- The reason for which `Acquire` gives up, if there is one. -/
def reason (q : ℕ) : Option (Err ε) :=
  if (s.acquires.cell q).ctx.isSome then
    Fault.joined [(s.acquires.cell q).ctx.err, (s.acquires.cell q).ctx.cause]
  else if !(s.assemblies.cell (s.acquires.cell q).assembly).ready
      || (s.records.cell (s.recordOf (s.acquires.cell q).entry)).released
      || !s.holds spec (s.acquires.cell q).assembly (s.acquires.cell q).entry then
    some (.new .selection "acquire" (s.records.cell (s.recordOf (s.acquires.cell q).entry)).source
      ⟨(s.records.cell (s.recordOf (s.acquires.cell q).entry)).scope,
        (s.records.cell (s.recordOf (s.acquires.cell q).entry)).provider⟩ [])
  else if !validLimits (s.admissions.cell (s.recordOf (s.acquires.cell q).entry)).limits
      || (s.admissions.cell (s.recordOf (s.acquires.cell q).entry)).limits.bytes
        < (s.acquires.cell q).bytes then
    some (.new .capacity "acquire" (s.records.cell (s.recordOf (s.acquires.cell q).entry)).source
      ⟨(s.records.cell (s.recordOf (s.acquires.cell q).entry)).scope,
        (s.records.cell (s.recordOf (s.acquires.cell q).entry)).provider⟩ [])
  else none

def fits (q : ℕ) (x : Admission) : Bool :=
  x.active < x.limits.active ∧ (s.acquires.cell q).bytes ≤ x.limits.bytes - x.bytes
    ∧ (x.queue = [] ∨ (s.acquires.cell q).queued ∧ x.queue.head? = some q)

def dequeue (q : ℕ) (x : Admission) : Admission :=
  if (s.acquires.cell q).queued then
    { x with
      queue := x.queue.erase q
      queuedBytes := x.queuedBytes - (s.acquires.cell q).bytes }.signal
  else x

def refuse (q r : ℕ) (err : Err ε) : State ε :=
  (s.admission r (s.dequeue q)).acquiring q (fun x => { x with
    queued := false
    stage := .refused (.new .admission "acquire" (s.records.cell r).source
      ⟨(s.records.cell r).scope, (s.records.cell r).provider⟩ [some err]) })

def admitted (q r : ℕ) : State ε :=
  ((s.core (s.toCore.grant (s.acquires.cell q).assembly (s.acquires.cell q).entry
      (s.acquires.cell q).bytes (s.admissions.cell r).limits.maxLeases)).admission r
        (fun x => { s.dequeue q x with
          active := x.active + 1
          bytes := x.bytes + (s.acquires.cell q).bytes })).acquiring q
    (fun x => { x with queued := false, stage := .granted s.nodes.next })

def wait (q r : ℕ) : State ε :=
  (s.admission r (fun x => if (s.acquires.cell q).queued then x
      else { x with
        queue := x.queue ++ [q]
        queuedBytes := x.queuedBytes + (s.acquires.cell q).bytes })).acquiring q
    (fun x => { x with
      queued := true
      changed := (s.admissions.cell r).changed
      stage := .waiting })

def full (q : ℕ) (x : Admission) : Bool :=
  x.limits.queued ≤ x.queue.length
    ∨ x.limits.queuedBytes - x.queuedBytes < (s.acquires.cell q).bytes

/-- **The section of `Acquire`.** -/
def attempt (q r : ℕ) : State ε :=
  match s.reason spec q with
  | some err => s.refuse q r err
  | none =>
    if s.fits q (s.admissions.cell r) then s.admitted q r
    else if !(s.acquires.cell q).queued && s.full q (s.admissions.cell r) then
      s.refuse q r (.new .capacity "acquire" (s.records.cell r).source
        ⟨(s.records.cell r).scope, (s.records.cell r).provider⟩ [])
    else s.wait q r

def retain (n : ℕ) : State ε :=
  if (s.nodes.cell n).released
      ∨ (s.families.cell (s.nodes.cell n).data).limit
        ≤ (s.families.cell (s.nodes.cell n).data).nodes then s
  else s.core (s.toCore.retain n)

def familyOf (n : ℕ) : Family := s.families.cell (s.nodes.cell n).data

def release (n : ℕ) : State ε :=
  match (Refcount.release s.nodes n).2.2 with
  | none => s.core (s.toCore.release n)
  | some _ =>
    (s.core ((s.toCore.release n).free (s.familyOf n).entry)).admission
      (s.recordOf (s.familyOf n).entry) (fun x => { x with
        active := x.active - 1
        bytes := x.bytes - (s.familyOf n).bytes }.signal)

/-! ### Events -/

/-- **What happens.** -/
inductive Event (ε : Type) where
  | assemble (scope : String) (selected : List (Option ℕ)) (ctx cleanup : Ctx ε)
  /-- Its preflight looks at the next specification, or is over. -/
  | preflight (b : ℕ)
  | take (b : ℕ)
  | construct (b : ℕ) (value : Constructed) (err : Option (Err ε))
  | check (b : ℕ)
  | probed (b : ℕ) (err : Option (Err ε))
  | cancelBuild (b : ℕ) (how : Ending ε)
  | close (a : ℕ) (ctx : Ctx ε)
  | lock (c : ℕ)
  /-- It stops admitting to the next record, or gives up the mutex. -/
  | sealNext (c : ℕ)
  | enter (c : ℕ)
  /-- It sees its context ended in front of the gate. -/
  | giveUp (c : ℕ)
  | visit (c : ℕ)
  | cleaned (c : ℕ) (result : ReleaseResult ε)
  | leave (c : ℕ)
  | cancelClose (c : ℕ) (how : Ending ε)
  | access (a p : ℕ)
  | acquire (a e : ℕ) (bytes : ℤ) (ctx : Ctx ε)
  | attempt (q : ℕ)
  | wake (q : ℕ)
  | cancelAcquire (q : ℕ) (how : Ending ε)
  | retain (n : ℕ)
  | release (n : ℕ)

def atBuild (b : ℕ) (stage : Build.Stage) (s' : State ε) : Option (State ε) :=
  if b < s.builds.next ∧ (s.builds.cell b).stage = stage then some s' else none

def current (b : ℕ) : Option (Option ℕ) := (s.builds.cell b).selected[(s.builds.cell b).index]?

def currentEntry (b : ℕ) : Option ℕ :=
  (s.assemblies.cell (s.builds.cell b).assembly).entries[(s.builds.cell b).index]?

def target (c : ℕ) : Assembly ε := s.assemblies.cell (s.closes.cell c).assembly

def atClose (c : ℕ) (stage : Closing.Stage) (s' : State ε) : Option (State ε) :=
  if c < s.closes.next ∧ (s.closes.cell c).stage = stage then some s' else none

/-- Sealing, one record at a time. -/
def sealNext (c i : ℕ) : State ε :=
  match (s.target c).entries[i]? with
  | some e => (s.sealRecord (s.closes.cell c).assembly e).closing c
      (fun x => { x with stage := .sealing (i + 1) })
  | none =>
    (s.core (s.toCore.assembly (s.closes.cell c).assembly Assembly.unlock)).closing c
      (fun x => { x with stage := .waiting })

def visitNext (c i : ℕ) : State ε :=
  match i with
  | 0 => s.closing c (fun x => { x with stage := .leaving })
  | i + 1 =>
    match (s.target c).entries[i]? with
    | some e => s.visit spec c (s.closes.cell c).assembly e i
    | none => s

def cleanedNext (c i : ℕ) (result : ReleaseResult ε) : Option (State ε) :=
  match (s.target c).entries[i]? with
  | some e => some (s.cleaned c e i result)
  | none => none

/-- **The step of the assemblies.** -/
def step : Event ε → Option (State ε)
  | .assemble scope selected ctx cleanup =>
    some { s with
      builds := s.builds.alloc ⟨scope, selected, ctx, cleanup, 0, [], [], 0,
        if validID scope then .preflight else .returned,
        if validID scope then none else some (scopeFailure .selection "assemble" "" [])⟩ }
  | .preflight b =>
    match s.current b with
    | none => s.atBuild b .preflight (s.start b)
    | some none => s.atBuild b .preflight
        (s.reject b (scopeFailure .selection "preflight" (s.builds.cell b).scope []))
    | some (some p) =>
      if s.donorFree (spec p) then s.atBuild b .preflight (s.preflight spec b p) else none
  | .take b =>
    match s.current b with
    | none => s.atBuild b .building (s.build b (fun x => { x with index := 0, stage := .checking }))
    | some none => none
    | some (some p) =>
      if s.donorFree (spec p) then s.atBuild b .building (s.take spec b p) else none
  | .construct b value err =>
    match s.current b with
    | some (some p) => s.atBuild b .constructing (s.construct spec b p value err)
    | _ => none
  | .check b =>
    match s.currentEntry b with
    | none => s.atBuild b .checking (s.finish b)
    | some e => s.atBuild b .checking (s.check spec b e)
  | .probed b err =>
    match s.currentEntry b with
    | none => none
    | some e => s.atBuild b .probing (s.probed spec b e err)
  | .cancelBuild b how =>
    if b < s.builds.next then some (s.build b (fun x => { x with ctx := x.ctx.or (some how) }))
    else none
  | .close a ctx =>
    if a < s.assemblies.next ∧ (s.assemblies.cell a).building = false then
      some { s with closes := s.closes.alloc ⟨a, ctx, .entered, none⟩ }
    else none
  | .lock c =>
    if (s.target c).locked then none
    else s.atClose c .entered ((s.core (s.toCore.assembly (s.closes.cell c).assembly
      Assembly.lock)).closing c
        (fun x => { x with stage := .sealing 0 }))
  | .sealNext c =>
    match (s.closes.cell c).stage with
    | .sealing i => s.atClose c (.sealing i) (s.sealNext c i)
    | _ => none
  | .enter c =>
    if (s.target c).gate = none then
      s.atClose c .waiting ((s.core (s.toCore.assembly (s.closes.cell c).assembly
        (·.pass (some c)))).closing c
          (fun x => { x with stage := .visiting (s.target c).entries.length }))
    else none
  | .giveUp c =>
    if (s.closes.cell c).ctx.isSome then
      s.atClose c .waiting (s.closing c (fun x => { x with
        stage := .returned
        interrupted := Fault.joined [x.ctx.err, x.ctx.cause] }))
    else none
  | .visit c =>
    if (s.target c).locked then none
    else
      match (s.closes.cell c).stage with
      | .visiting i => s.atClose c (.visiting i) (s.visitNext spec c i)
      | _ => none
  | .cleaned c result =>
    match (s.closes.cell c).stage with
    | .calling i => if c < s.closes.next then s.cleanedNext c i result else none
    | _ => none
  | .leave c =>
    s.atClose c .leaving ((s.core (s.toCore.assembly (s.closes.cell c).assembly
      (·.pass none))).closing c (fun x => { x with stage := .returned }))
  | .cancelClose c how =>
    if c < s.closes.next then some (s.closing c (fun x => { x with ctx := x.ctx.or (some how) }))
    else none
  | .access a p =>
    match s.find a p with
    | none => some s
    | some e =>
      if a < s.assemblies.next ∧ (s.assemblies.cell a).locked = false then
        some (if (s.assemblies.cell a).ready && s.accessible spec a e then
          { s with accesses := (a, e) :: s.accesses } else s)
      else none
  | .acquire a e bytes ctx =>
    if (a, e) ∈ s.accesses ∧ 0 ≤ bytes then
      some { s with acquires := s.acquires.alloc ⟨a, e, bytes, ctx, false, 0, .trying⟩ }
    else none
  | .attempt q =>
    match (s.acquires.cell q).stage with
    | .trying =>
      if q < s.acquires.next ∧ (s.assemblies.cell (s.acquires.cell q).assembly).locked = false then
        some (s.attempt spec q (s.recordOf (s.acquires.cell q).entry))
      else none
    | _ => none
  | .wake q =>
    match (s.acquires.cell q).stage with
    | .waiting =>
      if q < s.acquires.next ∧ ((s.acquires.cell q).ctx.isSome ∨ (s.acquires.cell q).changed
            ≠ (s.admissions.cell (s.recordOf (s.acquires.cell q).entry)).changed) then
        some (s.acquiring q (fun x => { x with stage := .trying }))
      else none
    | _ => none
  | .cancelAcquire q how =>
    if q < s.acquires.next then
      some (s.acquiring q (fun x => { x with ctx := x.ctx.or (some how) }))
    else none
  | .retain n => if n < s.nodes.next then some (s.retain n) else none
  | .release n =>
    if n < s.nodes.next ∧ ((Refcount.release s.nodes n).2.2 = none
        ∨ (s.assemblies.cell (s.familyOf n).assembly).locked = false) then
      some (s.release n)
    else none

/-- **The assemblies as a machine.** -/
def machine : Machine (State ε) (Event ε) := ⟨init, fun s e => s.step spec e⟩

end State

end Composition
