import Fathomry.Failure
import Fathomry.Heap
import Fathomry.Machine
import Mathlib.Data.Option.Basic

/-!
# A resource binding

`resource.binding` owns the instances of one configured component. Callers
borrow the active instance through leases; an `Apply` or a `Retry` asks for
a new one; one coordinator goroutine builds, adopts and releases instances;
shutdown ends it all. This module is the code of `resource/v1/binding.go`
and `resource/v1/lease.go` as functions on the state the binding's mutex
protects, one function for each critical section, and the machine whose
labels are those sections (`Binding.step`).

Records reached through pointers are cells of heaps: a `*selection` (which
owns its `*target`), a `*generation` and a `*leaseState` are addresses, and
pointer equality is equality of addresses. The coordinator's program
counter is part of the state (`Coordinator`), since the constructor and the
cleanup callback run outside the lock.

What a section reads of the scope without the scope's lock – whether it has
stopped, and the error of its base context – is a parameter (`Reading`).
The scope's change notifications are left out: nothing here reads them.
-/

namespace Resource

variable {ε V C T : Type}

/-! ## Errors -/

inductive Code where
  | options | scope | closed | sealed | limit | selection | build | unavailable
  | lease | superseded | wait | cleanup | serialization
deriving DecidableEq, Repr

structure Details where
  scope : String := ""
  target : ℕ := 0
  generation : ℕ := 0
  pending : Bool := false
deriving DecidableEq, Repr

/-- An error of the package, over the errors `ε` of its callbacks. -/
abbrev Err (ε : Type) := Fault Code Details ε

abbrev Ctx (ε : Type) := Context Code Details ε

def fail (code : Code) (operation name : String) (details : Details)
    (causes : List (Option (Err ε))) : Err ε :=
  Fault.new code operation name details causes

/-! ## Declarations -/

/-- Whether a binding adopts later configuration. -/
inductive Policy where
  | fixed
  | follow
deriving DecidableEq, Repr

def nameChar (c : Char) : Bool :=
  ('a' ≤ c && c ≤ 'z') || ('A' ≤ c && c ≤ 'Z') || ('0' ≤ c && c ≤ '9') ||
    c == '.' || c == '-' || c == '_'

def validName (name : String) : Bool :=
  name != "" && name.utf8ByteSize ≤ 64 && name.toList.all nameChar

/-- What the caller of `Bind` hands over; a nil function is `none`. `Build`
is present or not: what it returns is decided at each call. -/
structure Declaration (ε V C : Type) where
  name : String
  policy : Policy
  select : Option (V → Except (Err ε) C)
  clone : Option (C → C)
  equal : Option (C → C → Bool)
  build : Bool
  maxGenerations : ℤ
  maxBorrowers : ℤ

/-- **The options of a bound component**: a declaration that `Bind` accepted,
with its defaults filled in, and the name of its scope. -/
structure Options (ε V C : Type) where
  scope : String
  name : String
  policy : Policy
  select : V → Except (Err ε) C
  clone : C → C
  equal : Option (C → C → Bool)
  maxGenerations : ℤ
  maxBorrowers : ℤ
  name_valid : validName name = true
  follow_equal : policy = .follow → equal.isSome = true
  generations_bound : 2 ≤ maxGenerations ∧ maxGenerations ≤ 16
  borrowers_bound : 1 ≤ maxBorrowers ∧ maxBorrowers ≤ 65536

/-- The checks and defaults of `Bind`, before it takes the scope's lock. -/
def bindOptions (scope : String) (d : Declaration ε V C) : Except (Err ε) (Options ε V C) :=
  let refused : Err ε := fail .options "bind" "" { scope := scope } []
  let maxGenerations := if d.maxGenerations = 0 then 2 else d.maxGenerations
  let maxBorrowers := if d.maxBorrowers = 0 then 1024 else d.maxBorrowers
  match d.select, d.clone with
  | some select, some clone =>
    if h : validName d.name = true ∧ d.build = true
        ∧ (d.policy = .follow → d.equal.isSome = true)
        ∧ (2 ≤ maxGenerations ∧ maxGenerations ≤ 16)
        ∧ (1 ≤ maxBorrowers ∧ maxBorrowers ≤ 65536) then
      .ok ⟨scope, d.name, d.policy, select, clone, d.equal, maxGenerations, maxBorrowers,
        h.1, h.2.2.1, h.2.2.2.1, h.2.2.2.2⟩
    else .error refused
  | _, _ => .error refused

/-! ## The records behind the pointers -/

/-- A target: one requested outcome of an `Apply` or a `Retry`. Its `done`
channel is closed when it is settled. -/
structure Target (ε : Type) where
  name : String
  version : ℕ
  settled : Bool
  done : Bool
  generation : ℕ
  err : Option (Err ε)

def newTarget (name : String) (version : ℕ) : Target ε :=
  ⟨name, version, false, false, 0, none⟩

/-- `target.settle`: the first outcome stays. -/
def Target.settle (t : Target ε) (generation : ℕ) (err : Option (Err ε)) : Target ε :=
  if t.settled then t
  else { t with generation := generation, err := err, settled := true, done := true }

def Target.result (t : Target ε) : Bool × Option (Err ε) := (t.settled, t.err)

/-- A selection: the configuration chosen for a target. -/
structure Selection (ε C : Type) where
  value : C
  target : Target ε

/-- What `Build` hands over: a value, and whether a `Release` callback came
with it. -/
structure Instance (T : Type) where
  value : T
  release : Bool

/-- What a `Release` callback reports. -/
structure ReleaseResult (ε : Type) where
  complete : Bool
  err : Option (Err ε)

/-- A generation: one construction, and the instance it returned. -/
structure Generation (ε T : Type) where
  number : ℕ
  selection : ℕ
  ctx : Ctx ε
  value : T
  release : Bool
  borrows : ℤ
  cleaning : Bool
  blocked : Bool

/-- What of a generation is fixed when it is made, and whether it has a
`Release` callback. -/
structure Static where
  number : ℕ
  selection : ℕ
  release : Bool

def Generation.static (x : Generation ε T) : Static := ⟨x.number, x.selection, x.release⟩

def Generation.borrow (f : ℤ → ℤ) (x : Generation ε T) : Generation ε T :=
  { x with borrows := f x.borrows }

def Generation.hold (value : T) (release : Bool) (x : Generation ε T) : Generation ε T :=
  { x with value := value, release := release }

/-- The state shared by the copies of a lease. `released` is the atomic
flag that `Release` swaps; `borrowing` holds until the closure it then runs
has given the borrow back. -/
structure Lease (T : Type) where
  address : ℕ
  generation : ℕ
  value : T
  released : Bool
  borrowing : Bool

def Lease.swap [Inhabited T] (x : Lease T) : Lease T :=
  { x with released := true, value := default }

def Lease.giveBack (x : Lease T) : Lease T := { x with borrowing := false }

/-- **Where the coordinator is.** -/
inductive Coordinator where
  | loop
  | waiting
  /-- In the `select` of `construct`: a slot, or the candidate's context. -/
  | preparing (g : ℕ)
  /-- A slot is held; about to check and copy the configuration. -/
  | admitted (g : ℕ)
  /-- The configuration is copied; about to check again and call `Build`. -/
  | copied (g : ℕ)
  | building (g : ℕ)
  /-- The slot is given back, with `Build` called or not; about to take the
  lock and end `construct`. -/
  | returned (g : ℕ) (called : Bool)
  /-- In `clean`, before the `Release` callback. -/
  | cleaning (g : ℕ)
  | releasing (g : ℕ)
  /-- `exited` is set; about to close `entry.done`. -/
  | exiting
  | exited
deriving DecidableEq, Repr

def Coordinator.candidate : Coordinator → Option ℕ
  | .preparing g | .admitted g | .copied g | .building g | .returned g _ => some g
  | _ => none

/-- The generation the coordinator is cleaning, and whether its callback
runs. -/
def Coordinator.disposing : Coordinator → Option (ℕ × Bool)
  | .cleaning g => some (g, false)
  | .releasing g => some (g, true)
  | _ => none

theorem Coordinator.disposing_eq_iff {pc : Coordinator} {g : ℕ} :
    pc.disposing = some (g, true) ↔ pc = .releasing g := by
  cases pc with
  | releasing | _ => simp [disposing]

/-! ## The binding -/

/-- **The state of a binding**, with the records it points to. -/
structure Binding (ε C T : Type) where
  wake : Bool
  stopping : Bool
  exited : Bool
  desired : Option ℕ
  wanted : Bool
  active : Option ℕ
  pending : Option ℕ
  retired : List ℕ
  version : ℕ
  generation : ℕ
  applied : ℕ
  lastError : Option (Err ε)
  cleanupError : Option (Err ε)
  terminalCleanup : Option (Err ε)
  cleanupFailures : ℕ
  selections : Heap (Selection ε C)
  generations : Heap (Generation ε T)
  leases : Heap (Lease T)
  coordinator : Coordinator

/-- A prepared commit: what the closure `prepare` returns has captured. -/
inductive Commit (C : Type) where
  /-- Return the target of the selection in force. -/
  | keep (selection : ℕ)
  /-- Put a new selection in force. -/
  | replace (previous active : Option ℕ) (value : C) (equalActive : Bool)

/-- What `prepare` reads under the lock. -/
structure Snapshot where
  previous : Option ℕ
  active : Option ℕ
  version : ℕ

/-- What a section reads of the scope: whether it has stopped, whether it
has by the second time the section asks, and its base context. -/
structure Reading (ε : Type) where
  stopped : Bool
  late : Bool
  base : Ctx ε

namespace Binding

variable (o : Options ε V C) (b : Binding ε C T)

/-- The binding `Bind` registers, its coordinator started. -/
def init [Inhabited C] [Inhabited T] : Binding ε C T where
  wake := false
  stopping := false
  exited := false
  desired := none
  wanted := false
  active := none
  pending := none
  retired := []
  version := 0
  generation := 0
  applied := 0
  lastError := none
  cleanupError := none
  terminalCleanup := none
  cleanupFailures := 0
  selections := Heap.empty ⟨default, newTarget "" 0⟩
  generations := Heap.empty ⟨0, 0, none, default, false, 0, false, false⟩
  leases := Heap.empty ⟨0, 0, default, false, false⟩
  coordinator := .loop

def details (target generation : ℕ) (pending : Bool) : Details :=
  ⟨o.scope, target, generation, pending⟩

/-- `entry.signal`: fill the one-slot wake channel. -/
def signal : Binding ε C T := { b with wake := true }

def goto (pc : Coordinator) : Binding ε C T := { b with coordinator := pc }

def modify (g : ℕ) (f : Generation ε T → Generation ε T) : Binding ε C T :=
  { b with generations := b.generations.modify g f }

def settle (p generation : ℕ) (err : Option (Err ε)) : Binding ε C T :=
  { b with
    selections := b.selections.modify p
      (fun s => { s with target := s.target.settle generation err }) }

def cancel (g : ℕ) (cause : Option (Err ε)) : Binding ε C T :=
  b.modify g (fun x => { x with ctx := x.ctx.cancel cause })

def cancelPending (cause : Option (Err ε)) : Binding ε C T :=
  match b.pending with
  | some g => b.cancel g cause
  | none => b

def unblock : Binding ε C T :=
  b.retired.foldl (fun b g => b.modify g (fun x => { x with blocked := false })) b

/-! ### Apply and Retry -/

def snapshot : Snapshot := ⟨b.desired, b.active, b.version⟩

/-- `entry.options.Equal`, false when it is nil. -/
def equal (left right : C) : Bool := (o.equal.map (fun eq => eq left right)).getD false

def equalSelection (p : Option ℕ) (value : C) : Bool :=
  match p with
  | some p => equal o (b.selections.cell p).value value
  | none => false

def prepare (view : V) (s : Snapshot) : Except (Err ε) (Commit C) :=
  match o.policy, s.previous with
  | .fixed, some p => .ok (.keep p)
  | _, previous =>
    match o.select view with
    | .error err => .error (fail .selection "select" o.name (details o 0 0 false) [some err])
    | .ok selected =>
      let value := o.clone selected
      let equalDesired := equalSelection o b previous value
      let equalActive :=
        equalSelection o b (s.active.map (fun g => (b.generations.cell g).selection)) value
      match previous, equalDesired with
      | some p, true => .ok (.keep p)
      | _, _ =>
        if s.version = maxUint64 then
          .error (fail .limit "apply" o.name (details o s.version 0 false) [])
        else .ok (.replace previous s.active value equalActive)

def supersede (previous : Option ℕ) : Binding ε C T :=
  match previous with
  | some p => b.settle p 0 (some (fail .superseded "apply" o.name
      (details o (b.selections.cell p).target.version 0 false) []))
  | none => b

/-- Put a new selection in force, wanted and with a fresh target. -/
def install (value : C) : Binding ε C T :=
  let version := increment b.version
  { b with
    version := version
    selections := b.selections.alloc ⟨value, newTarget o.name version⟩
    desired := some b.selections.next
    lastError := none
    wanted := true }

/-- The equal-active shortcut: the active generation already is what the new
selection `p` asks for. -/
def shortcut (p : ℕ) (active : Option ℕ) (equalActive : Bool) : Binding ε C T :=
  match active with
  | some g =>
    if equalActive = true ∧ b.active = some g then
      { b with wanted := false, applied := b.version }.settle p
        (b.generations.cell g).number none
    else b
  | none => b

/-- The closure `prepare` returns, and the selection whose target it
returns. -/
def commit : Commit C → Binding ε C T × ℕ
  | .keep p => (b, p)
  | .replace previous active value equalActive =>
    (((((b.supersede o previous).install o value).cancelPending
      (some (.code .superseded))).shortcut b.selections.next active equalActive).signal,
      b.selections.next)

/-- Whether `Retry` schedules a new construction: the desired target failed
and nothing is being built. -/
def retriable (p : ℕ) : Bool :=
  let (settled, result) := (b.selections.cell p).target.result
  settled && result.isSome && b.pending.isNone

/-- The section of `retry` under the locks: the binding afterwards and the
selection whose target the receipt holds, given the scope's sequence. -/
def retry (sequence : ℕ) : Except (Err ε) (Binding ε C T × ℕ) :=
  match b.desired with
  | none => .error (fail .unavailable "retry" o.name (details o 0 0 false) [])
  | some p =>
    if sequence = maxUint64 then
      .error (fail .limit "retry" o.name (details o b.version 0 false) [])
    else if b.retriable p then
      if b.version = maxUint64 then
        .error (fail .limit "retry" o.name (details o b.version 0 false) [])
      else
        .ok ((b.install o (b.selections.cell p).value).unblock.signal, b.selections.next)
    else .ok (b.unblock.signal, p)

/-! ### Shutdown -/

def settleDesired (generation : ℕ) (err : Option (Err ε)) : Binding ε C T :=
  match b.desired with
  | some p => b.settle p generation err
  | none => b

def retireActive : Binding ε C T :=
  { b with retired := b.retired ++ b.active.toList, active := none }

def halt : Binding ε C T := { b with stopping := true }

def stop (cause : Option (Err ε)) : Binding ε C T :=
  if b.stopping then b
  else
    (((b.halt.settleDesired 0 (some (fail .closed "stop" o.name
      (details o b.version 0 true) [cause]))).cancelPending cause).retireActive).signal

/-- Whether `entry.done` is closed: the coordinator has returned. -/
def closed : Bool := b.coordinator = .exited

def retryCleanup : Binding ε C T := b.unblock.signal

/-! ### Leases -/

def borrowers (g : ℕ) : ℤ :=
  (b.generations.cell g).borrows + (b.retired.map (fun r => (b.generations.cell r).borrows)).sum

def grant (g : ℕ) : Binding ε C T :=
  let generation := b.generations.cell g
  { b.modify g (Generation.borrow (· + 1)) with
    leases := b.leases.alloc ⟨g, generation.number, generation.value, false, true⟩ }

/-- `acquire`, from its lock on: the binding afterwards and the new lease. -/
def acquire (ctx : Ctx ε) (stopped : Bool) : Except (Err ε) (Binding ε C T × ℕ) :=
  if ctx.isSome then
    .error (fail .wait "acquire" o.name (details o 0 0 false) [ctx.err, ctx.cause])
  else if b.stopping || stopped then
    .error (fail .closed "acquire" o.name (details o b.version 0 false) [])
  else match b.active with
    | none => .error (fail .unavailable "acquire" o.name
        (details o b.version 0 b.pending.isSome) [])
    | some g =>
      if b.borrowers g = o.maxBorrowers then
        .error (fail .limit "acquire" o.name
          (details o b.version (b.generations.cell g).number false) [])
      else .ok (b.grant g, b.leases.next)

/-- `Lease.Release` up to the closure: the flag is swapped, the value
dropped. -/
def release [Inhabited T] (l : ℕ) : Except (Err ε) (Binding ε C T) :=
  if (b.leases.cell l).released then
    .error (fail .lease "release_lease" "" {} [])
  else
    .ok { b with leases := b.leases.modify l Lease.swap }

def giveBack (l : ℕ) : Binding ε C T :=
  { b.modify (b.leases.cell l).address (Generation.borrow (· - 1)) with
    leases := b.leases.modify l Lease.giveBack }

def unborrow (l : ℕ) : Binding ε C T :=
  let g := (b.leases.cell l).address
  let b := b.giveBack l
  if b.active ≠ some g ∧ (b.generations.cell g).borrows = 0 then b.signal else b

/-! ### The coordinator -/

def cleanable (g : ℕ) : Bool :=
  (b.generations.cell g).borrows = 0 && !(b.generations.cell g).blocked

/-- The generations that count towards `MaxGenerations` beside a pending
one. -/
def owned : ℕ := b.retired.length + b.active.toList.length

/-- Whether `run` may start a construction. -/
def constructible : Bool :=
  !b.stopping && b.wanted && b.pending.isNone && (b.owned : ℤ) < o.maxGenerations

def failTarget (p : ℕ) (err : Err ε) : Binding ε C T :=
  { b with lastError := some err }.settle p 0 (some err)

def exhausted (p : ℕ) : Binding ε C T :=
  ({ b with wanted := false }.failTarget p
    (fail .limit "construct" o.name (details o b.version 0 false) [])).signal

def spawn [Inhabited T] (p : ℕ) : Binding ε C T :=
  let number := increment b.generation
  { b with
    generation := number
    generations := b.generations.alloc ⟨number, p, none, default, false, 0, false, false⟩
    pending := some b.generations.next
    wanted := false }.signal.goto (.preparing b.generations.next)

/-- **One critical section of `run`.** -/
def loop [Inhabited T] : Binding ε C T :=
  if b.stopping = true ∧ b.retired = [] ∧ b.pending = none then
    { b with exited := true }.goto .exiting
  else match b.retired.find? b.cleanable with
    | some g => (b.modify g (fun x => { x with cleaning := true })).goto (.cleaning g)
    | none =>
      if b.constructible o then
        match b.desired with
        | some p =>
          if b.generation = maxUint64 then (b.exhausted o p).goto .waiting else b.spawn p
        -- a wanted construction has a selection (`Receipts.wanted`)
        | none => b.goto .waiting
      else b.goto .waiting

/-- **What a section of `run` can do**, each case with all it has checked. -/
inductive Looped [Inhabited T] : Binding ε C T → Prop
  | exit (hs : b.stopping = true) (hr : b.retired = []) (hp : b.pending = none) :
      Looped ({ b with exited := true }.goto .exiting)
  | clean (g : ℕ) (hg : b.retired.find? b.cleanable = some g) :
      Looped ((b.modify g (fun x => { x with cleaning := true })).goto (.cleaning g))
  | exhausted (p : ℕ) (hf : b.retired.find? b.cleanable = none)
      (hc : b.constructible o = true) (hd : b.desired = some p)
      (hg : b.generation = maxUint64) : Looped ((b.exhausted o p).goto .waiting)
  | spawn (p : ℕ) (hf : b.retired.find? b.cleanable = none)
      (hc : b.constructible o = true) (hd : b.desired = some p)
      (hg : b.generation ≠ maxUint64) : Looped (b.spawn p)
  | wait (he : ¬ (b.stopping = true ∧ b.retired = [] ∧ b.pending = none))
      (hf : b.retired.find? b.cleanable = none)
      (hc : b.constructible o = true → b.desired = none) : Looped (b.goto .waiting)

theorem looped [Inhabited T] : b.Looped o (b.loop o) := by
  unfold loop
  split
  · next he => exact .exit he.1 he.2.1 he.2.2
  next he =>
  split
  · next g hg => exact .clean g hg
  next hf =>
  split
  · next hc =>
    split
    · next p hd =>
      split_ifs with hg
      · exact .exhausted p hf hc hd hg
      · exact .spawn p hf hc hd hg
    · next hd => exact .wait he hf (fun _ => hd)
  · next hc => exact .wait he hf (fun h => absurd h hc)

theorem constructible_iff : b.constructible o = true ↔ b.stopping = false ∧ b.wanted = true
    ∧ b.pending = none ∧ (b.owned : ℤ) < o.maxGenerations := by
  unfold constructible
  rw [Bool.and_eq_true, Bool.and_eq_true, Bool.and_eq_true, Bool.not_eq_true',
    Option.isNone_iff_eq_none, decide_eq_true_iff, and_assoc, and_assoc]

theorem cleanable_iff {g : ℕ} : b.cleanable g = true
    ↔ (b.generations.cell g).borrows = 0 ∧ (b.generations.cell g).blocked = false := by
  unfold cleanable
  rw [Bool.and_eq_true, decide_eq_true_iff, Bool.not_eq_true']

/-- The configuration `Build` is called with: a copy of the candidate's. -/
def buildInput (g : ℕ) : C :=
  o.clone (b.selections.cell (b.generations.cell g).selection).value

def adopts (g : ℕ) (inst : Option (Instance T)) (err : Option (Err ε)) (stopped : Bool) : Bool :=
  let candidate := b.generations.cell g
  err.isNone && inst.isSome && b.desired = some candidate.selection && !b.stopping &&
    !stopped && candidate.ctx.isNone

theorem adopts_iff {g : ℕ} {inst : Option (Instance T)} {err : Option (Err ε)}
    {stopped : Bool} : b.adopts g inst err stopped = true ↔ err = none ∧ inst.isSome = true
      ∧ b.desired = some (b.generations.cell g).selection ∧ b.stopping = false
      ∧ stopped = false ∧ (b.generations.cell g).ctx = none := by
  unfold adopts
  simp only [Bool.and_eq_true, Bool.not_eq_true', Option.isNone_iff_eq_none,
    decide_eq_true_iff, and_assoc]

def receive (g : ℕ) (inst : Option (Instance T)) : Binding ε C T :=
  match inst with
  | some i => b.modify g (Generation.hold i.value i.release)
  | none => b

/-- The adopting branch of `construct`. -/
def adopt (g : ℕ) : Binding ε C T :=
  let candidate := b.generations.cell g
  { b.retireActive with
    active := some g
    applied := (b.selections.cell candidate.selection).target.version
    lastError := none }.settle candidate.selection candidate.number none

def buildError (g : ℕ) (owned : Bool) (err : Option (Err ε)) (r : Reading ε) : Err ε :=
  let candidate := b.generations.cell g
  let details := details o (b.selections.cell candidate.selection).target.version
    candidate.number owned
  if r.late then
    fail .closed "construct" o.name details
      [err, candidate.ctx.err, candidate.ctx.cause, r.base.err, r.base.cause]
  else
    fail .build "construct" o.name details [err, candidate.ctx.err, candidate.ctx.cause]

def retire (g : ℕ) : Binding ε C T := { b with retired := b.retired ++ [g] }

/-- Cancel a candidate that is not adopted; its instance, if there is one, is
owned until it is released. -/
def dismiss (g : ℕ) (inst : Option (Instance T)) : Binding ε C T :=
  if inst.isSome then (b.cancel g (some (.code .build))).retire g
  else b.cancel g (some (.code .build))

/-- The other branch of `construct`: the target, if it is still the desired
one, fails. -/
def reject (g : ℕ) (inst : Option (Instance T)) (err : Option (Err ε))
    (r : Reading ε) : Binding ε C T :=
  if b.desired = some (b.generations.cell g).selection ∧ b.stopping = false then
    (b.dismiss g inst).failTarget (b.generations.cell g).selection
      (b.buildError o g inst.isSome err r)
  else b.dismiss g inst

def endPending (g : ℕ) (inst : Option (Instance T)) : Binding ε C T :=
  { b with pending := none }.receive g inst

/-- **The section that ends `construct`**, with what `Build` returned. -/
def finishConstruct (g : ℕ) (inst : Option (Instance T)) (err : Option (Err ε))
    (r : Reading ε) : Binding ε C T :=
  (if b.adopts g inst err r.stopped then (b.endPending g inst).adopt g
    else (b.endPending g inst).reject o g inst err r).signal.goto .loop

def cleanupFault (g : ℕ) (result : ReleaseResult ε) : Err ε :=
  fail .cleanup "release" o.name
    (details o (b.selections.cell (b.generations.cell g).selection).target.version
      (b.generations.cell g).number (!result.complete)) [result.err]

def recordCleanup (g : ℕ) (result : ReleaseResult ε) : Binding ε C T :=
  if result.err.isSome ∨ result.complete = false then
    { b with
      cleanupError := some (b.cleanupFault o g result)
      cleanupFailures := if b.cleanupFailures < maxUint64 then b.cleanupFailures + 1
        else b.cleanupFailures
      terminalCleanup := if result.complete then some (b.cleanupFault o g result)
        else b.terminalCleanup }
  else b

/-- Drop a generation that has been released, with its value and callback. -/
def remove [Inhabited T] (g : ℕ) : Binding ε C T :=
  { b with retired := b.retired.erase g }.modify g (Generation.hold default false)

def endClean (g : ℕ) (result : ReleaseResult ε) : Binding ε C T :=
  (b.modify g (fun x => { x with cleaning := false })).recordCleanup o g result

/-- **The section that ends `clean`**, with what `Release` reported. -/
def finishClean [Inhabited T] (g : ℕ) (result : ReleaseResult ε) : Binding ε C T :=
  (if result.complete then (b.endClean o g result).remove g
    else (b.endClean o g result).modify g (fun x => { x with blocked := true })).signal.goto .loop

/-! ### What an observer sees -/

structure Status (ε : Type) where
  name : String
  policy : Policy
  target : ℕ
  applied : ℕ
  generation : ℕ
  active : Bool
  preparing : Bool
  retiring : ℕ
  borrowers : ℤ
  pendingCleanup : ℕ
  closing : Bool
  closed : Bool
  cleanupFailures : ℕ
  err : Option (Err ε)
  cleanupErr : Option (Err ε)

def inspect : Status ε where
  name := o.name
  policy := o.policy
  target := b.version
  applied := b.applied
  generation := b.active.elim 0 (fun g => (b.generations.cell g).number)
  active := b.active.isSome
  preparing := b.pending.isSome
  retiring := b.retired.length
  borrowers := b.active.elim 0 (fun g => (b.generations.cell g).borrows)
    + (b.retired.map (fun g => (b.generations.cell g).borrows)).sum
  pendingCleanup := (b.retired.filter (fun g => (b.generations.cell g).blocked)).length
  closing := b.stopping
  closed := b.exited
  cleanupFailures := b.cleanupFailures
  err := b.lastError
  cleanupErr := b.cleanupError

end Binding

/-! ## The machine

One label for each critical section, and for each move of the coordinator
between two of them. A label carries what the section reads from outside
and what a callback returned. Two labels are enabled only as far as the
scope lets them through: a commit is what `prepare` made of the selection
in force, and neither a commit nor a retry reaches a stopping binding. Both
are what the scope's locks give, and the module of the scope proves it. -/

/-- **What happens to a binding.** -/
inductive Event (ε C T : Type) where
  /-- An `Apply` runs the closure `prepare` gave it. -/
  | commit (c : Commit C)
  | retry (sequence : ℕ)
  | stop (cause : Option (Err ε))
  | retryCleanup
  | acquire (ctx : Ctx ε) (stopped : Bool)
  /-- `Lease.Release` swaps the flag of a lease. -/
  | release (l : ℕ)
  | unborrow (l : ℕ)
  | loop
  | wake
  | slot (g : ℕ)
  /-- `construct` sees its context cancelled while it waits for a slot. -/
  | expire (g : ℕ) (r : Reading ε)
  /-- The first check of `construct` passes: the configuration is copied. -/
  | copy (g : ℕ) (stopped : Bool)
  /-- The second check passes: `Build` is called. -/
  | build (g : ℕ) (stopped : Bool)
  /-- One of the checks fails: the slot is given back without a call. -/
  | skip (g : ℕ) (stopped : Bool)
  /-- `construct` ends without a call: the check that failed saw the context
  cancelled, or the scope stopped. -/
  | skipped (g : ℕ) (cancelled : Bool) (r : Reading ε)
  /-- `Build` has returned and the slot is given back. -/
  | vacate (g : ℕ)
  /-- `construct` ends with what `Build` returned. -/
  | built (g : ℕ) (inst : Option (Instance T)) (err : Option (Err ε)) (r : Reading ε)
  | startRelease (g : ℕ)
  /-- The `Release` callback returns and `clean` ends. -/
  | cleaned (g : ℕ) (result : ReleaseResult ε)
  /-- `clean` ends without a `Release` callback to call. -/
  | discard (g : ℕ)
  | exit

def Event.request : Event ε C T → Bool
  | .commit _ | .retry _ => true
  | _ => false

/-- **What a prepared commit says of the binding it is run on**: it captured
the selection in force, there is a version left for it, and `equalActive`
compares the configuration of the active generation it saw. -/
def Commit.Valid (o : Options ε V C) (b : Binding ε C T) : Commit C → Prop
  | .keep p => b.desired = some p
  | .replace previous active value equalActive =>
    previous = b.desired ∧ b.version ≠ maxUint64 ∧ (o.policy = .fixed → previous = none)
      ∧ equalActive = b.equalSelection o
        (active.map (fun g => (b.generations.cell g).selection)) value

instance (o : Options ε V C) (b : Binding ε C T) (c : Commit C) : Decidable (c.Valid o b) :=
  match c with
  | .keep _ => inferInstanceAs (Decidable (_ = _))
  | .replace _ _ _ _ => inferInstanceAs (Decidable (_ ∧ _ ∧ _ ∧ _))

namespace Binding

variable [Inhabited T]

def ctxOf (b : Binding ε C T) (g : ℕ) : Ctx ε := (b.generations.cell g).ctx

/-- What a request leaves behind: a failed one changes nothing. -/
def after (b : Binding ε C T) : Except (Err ε) (Binding ε C T) → Binding ε C T
  | .ok b' => b'
  | .error _ => b

/-- **The step of a binding.** -/
def step (o : Options ε V C) (b : Binding ε C T) : Event ε C T → Option (Binding ε C T)
  | .commit c => if b.stopping = false ∧ c.Valid o b then some (b.commit o c).1 else none
  | .retry sequence =>
    if b.stopping = false then some (b.after ((b.retry o sequence).map Prod.fst)) else none
  | .stop cause => some (b.stop o cause)
  | .retryCleanup => some b.retryCleanup
  | .acquire ctx stopped => some (b.after ((b.acquire o ctx stopped).map Prod.fst))
  | .release l =>
    if l < b.leases.next then some (b.after (b.release l)) else none
  | .unborrow l =>
    if l < b.leases.next ∧ (b.leases.cell l).released = true
        ∧ (b.leases.cell l).borrowing = true then some (b.unborrow l) else none
  | .loop => if b.coordinator = .loop then some (b.loop o) else none
  | .wake =>
    if b.coordinator = .waiting ∧ b.wake = true then
      some ({ b with wake := false }.goto .loop)
    else none
  | .slot g =>
    if b.coordinator = .preparing g then some (b.goto (.admitted g)) else none
  | .expire g r =>
    if b.coordinator = .preparing g ∧ (b.ctxOf g).isSome = true then
      some (b.finishConstruct o g none (b.ctxOf g).err r)
    else none
  | .copy g stopped =>
    if b.coordinator = .admitted g ∧ (b.ctxOf g).isSome = false ∧ stopped = false then
      some (b.goto (.copied g))
    else none
  | .build g stopped =>
    if b.coordinator = .copied g ∧ (b.ctxOf g).isSome = false ∧ stopped = false then
      some (b.goto (.building g))
    else none
  | .skip g stopped =>
    if (b.coordinator = .admitted g ∨ b.coordinator = .copied g)
        ∧ ((b.ctxOf g).isSome = true ∨ stopped = true) then
      some (b.goto (.returned g false))
    else none
  | .skipped g cancelled r =>
    if b.coordinator = .returned g false
        ∧ (if cancelled then (b.ctxOf g).isSome else r.stopped) = true then
      some (b.finishConstruct o g none (if cancelled then (b.ctxOf g).err else none) r)
    else none
  | .vacate g =>
    if b.coordinator = .building g then some (b.goto (.returned g true)) else none
  | .built g inst err r =>
    if b.coordinator = .returned g true then some (b.finishConstruct o g inst err r) else none
  | .startRelease g =>
    if b.coordinator = .cleaning g ∧ (b.generations.cell g).release = true then
      some ((b.cancel g (some (.code .closed))).goto (.releasing g))
    else none
  | .cleaned g result =>
    if b.coordinator = .releasing g then some (b.finishClean o g result) else none
  | .discard g =>
    if b.coordinator = .cleaning g ∧ (b.generations.cell g).release = false then
      some ((b.cancel g (some (.code .closed))).finishClean o g ⟨true, none⟩)
    else none
  | .exit =>
    if b.coordinator = .exiting then some (b.goto .exited) else none

/-- **The binding as a machine**, started by `Bind`. -/
def machine [Inhabited C] (o : Options ε V C) : Machine (Binding ε C T) (Event ε C T) :=
  ⟨init, step o⟩

/-- **What a step can do**: its event, what the event has checked, and the
binding it leaves. -/
inductive Stepped (o : Options ε V C) (b : Binding ε C T) :
    Event ε C T → Binding ε C T → Prop
  | commit (c : Commit C) (hs : b.stopping = false) (hv : c.Valid o b) :
      Stepped o b (.commit c) (b.commit o c).1
  | retry (sequence : ℕ) (hs : b.stopping = false) :
      Stepped o b (.retry sequence) (b.after ((b.retry o sequence).map Prod.fst))
  | stop (cause : Option (Err ε)) : Stepped o b (.stop cause) (b.stop o cause)
  | retryCleanup : Stepped o b .retryCleanup b.retryCleanup
  | acquire (ctx : Ctx ε) (stopped : Bool) :
      Stepped o b (.acquire ctx stopped) (b.after ((b.acquire o ctx stopped).map Prod.fst))
  | release (l : ℕ) (hl : l < b.leases.next) : Stepped o b (.release l) (b.after (b.release l))
  | unborrow (l : ℕ) (hl : l < b.leases.next) (hr : (b.leases.cell l).released = true)
      (hb : (b.leases.cell l).borrowing = true) : Stepped o b (.unborrow l) (b.unborrow l)
  | loop (hpc : b.coordinator = .loop) : Stepped o b .loop (b.loop o)
  | wake (hpc : b.coordinator = .waiting) (hw : b.wake = true) :
      Stepped o b .wake ({ b with wake := false }.goto .loop)
  | slot (g : ℕ) (hpc : b.coordinator = .preparing g) :
      Stepped o b (.slot g) (b.goto (.admitted g))
  | expire (g : ℕ) (r : Reading ε) (hpc : b.coordinator = .preparing g)
      (hc : (b.ctxOf g).isSome = true) :
      Stepped o b (.expire g r) (b.finishConstruct o g none (b.ctxOf g).err r)
  | copy (g : ℕ) (hpc : b.coordinator = .admitted g) (hc : (b.ctxOf g).isSome = false) :
      Stepped o b (.copy g false) (b.goto (.copied g))
  | build (g : ℕ) (hpc : b.coordinator = .copied g) (hc : (b.ctxOf g).isSome = false) :
      Stepped o b (.build g false) (b.goto (.building g))
  | skip (g : ℕ) (stopped : Bool)
      (hpc : b.coordinator = .admitted g ∨ b.coordinator = .copied g)
      (hc : (b.ctxOf g).isSome = true ∨ stopped = true) :
      Stepped o b (.skip g stopped) (b.goto (.returned g false))
  | skipped (g : ℕ) (cancelled : Bool) (r : Reading ε)
      (hpc : b.coordinator = .returned g false)
      (hc : (if cancelled then (b.ctxOf g).isSome else r.stopped) = true) :
      Stepped o b (.skipped g cancelled r)
        (b.finishConstruct o g none (if cancelled then (b.ctxOf g).err else none) r)
  | vacate (g : ℕ) (hpc : b.coordinator = .building g) :
      Stepped o b (.vacate g) (b.goto (.returned g true))
  | built (g : ℕ) (inst : Option (Instance T)) (err : Option (Err ε)) (r : Reading ε)
      (hpc : b.coordinator = .returned g true) :
      Stepped o b (.built g inst err r) (b.finishConstruct o g inst err r)
  | startRelease (g : ℕ) (hpc : b.coordinator = .cleaning g)
      (hr : (b.generations.cell g).release = true) :
      Stepped o b (.startRelease g) ((b.cancel g (some (.code .closed))).goto (.releasing g))
  | cleaned (g : ℕ) (result : ReleaseResult ε) (hpc : b.coordinator = .releasing g) :
      Stepped o b (.cleaned g result) (b.finishClean o g result)
  | discard (g : ℕ) (hpc : b.coordinator = .cleaning g)
      (hr : (b.generations.cell g).release = false) :
      Stepped o b (.discard g) ((b.cancel g (some (.code .closed))).finishClean o g ⟨true, none⟩)
  | exit (hpc : b.coordinator = .exiting) :
      Stepped o b .exit (b.goto .exited)

/-- Every proof about steps splits here, and never unfolds `step`. -/
theorem stepped {o : Options ε V C} {b b' : Binding ε C T} {e : Event ε C T}
    (h : step o b e = some b') : Stepped o b e b' := by
  cases e with
  | stop | retryCleanup | acquire =>
    cases h
    constructor
  | retry | release | loop | slot | vacate | built | cleaned | exit =>
    obtain ⟨h1, rfl⟩ := of_guard h
    constructor
    exact h1
  | commit | wake | expire | skip | skipped | startRelease | discard =>
    obtain ⟨⟨h1, h2⟩, rfl⟩ := of_guard h
    constructor
    · exact h1
    · exact h2
  | unborrow l =>
    obtain ⟨⟨h1, h2, h3⟩, rfl⟩ := of_guard h
    exact .unborrow l h1 h2 h3
  | copy g =>
    obtain ⟨⟨h1, h2, h3⟩, rfl⟩ := of_guard h
    subst h3
    exact .copy g h1 h2
  | build g =>
    obtain ⟨⟨h1, h2, h3⟩, rfl⟩ := of_guard h
    subst h3
    exact .build g h1 h2

end Binding

end Resource
