import Fathomry.PgxTransaction

/-!
# The pool of connections

A pool lends connections of PostgreSQL. `take` and the maintenance loop pass
through a gate, one at a time. Whoever is in there acquires all idle
connections at once, retires those that have expired, and gives the others
back – but for the one that `take` returns. `give` takes part in none of
this: it resets the session with `DISCARD ALL` and releases the connection,
or it retires it.

The native pool knows for each connection whether it is idle or acquired.
`AcquireAllIdle` may return any of the idle ones, a connection that is
released when the native pool is closed is destroyed, and `Hijack` takes one
out for good. A step of the machine is what one party does up to its next
native call, or what it does with the answer.
-/

namespace Pgx

namespace Pool

variable {ε : Type}

/-- **What a connection is doing.** -/
inductive Status (ε : Type) where
  | idle
  /-- Acquired by the one who is at the gate. -/
  | gated
  | lent
  /-- `give`: `DISCARD ALL` is on its way. -/
  | resetting
  /-- `give`: the connection is being closed, possibly after a reset that has
  failed. -/
  | retiring (reset : Option (Option (Err ε) × Option (Err ε)))
  /-- It is no connection of the pool, any more or yet. -/
  | gone

/-- Who is at the gate. A `take` collects the connections that can be
used. -/
inductive Worker where
  | take (k : ℕ) (usable : List ℕ)
  | sweep

/-- What a `take` comes to, once all others are given back. -/
inductive Result (ε : Type) where
  | took (c : ℕ)
  /-- A connection that has expired could not be closed. -/
  | failed (err : Err ε)

/-- **What happens at the gate.** -/
inductive Gate (ε : Type) where
  | free
  /-- `take`, in front of `AcquireAllIdle`. -/
  | acquiring (k : ℕ)
  /-- The connections that are still to be looked at, and what retiring others
  has come to. -/
  | sorting (w : Worker) (todo : List ℕ) (failures : List (Option (Err ε)))
  | closing (w : Worker) (c : ℕ) (todo : List ℕ) (failures : List (Option (Err ε)))
  | creating (k : ℕ)
  /-- `take`, in front of its second `AcquireAllIdle`. -/
  | created (k : ℕ)
  /-- `take`, which gives back what it does not return. -/
  | returning (k : ℕ) (extra : List ℕ) (result : Result ε)

/-- **A pool.** -/
structure State (ε : Type) where
  conns : Heap (Status ε)
  /-- The calls of `take`, and those that have not come to the gate. -/
  takes : ℕ
  waiting : List ℕ
  gate : Gate ε
  sealed : Bool
  closeErrors : List (Err ε)
  /-- The maintenance loop is running, and it is asked to stop. -/
  maintaining : Bool
  stopped : Bool
  nativeClosed : Bool

/-- **What a step does.** -/
inductive Action (ε : Type) where
  | started (k : ℕ)
  | sealed
  | took (k c : ℕ)
  | refused (k : ℕ) (err : Err ε)
  | created (c : ℕ)
  /-- `DISCARD ALL` has succeeded, and the connection is open and idle. -/
  | discarded (c : ℕ)
  /-- `give` returns: the connection is released, or it is retired. -/
  | released (c : ℕ)
  | retired (c : ℕ) (err : Option (Err ε))

/-- A state and the actions on the way to it. -/
abbrev Turn (ε : Type) := Reaction (State ε) (Action ε)

/-- **What happens.** Clocks, contexts and the native pool answer with the
label. -/
inductive Event (ε : Type) where
  | start
  /-- The context ends before the gate is open. -/
  | abandon (k : ℕ) (err cause : Option (Err ε))
  /-- A `take` passes the gate; its context may have ended meanwhile. -/
  | enter (k : ℕ) (ended : Option (Err ε × Option (Err ε)))
  | acquireAllIdle (handles : List ℕ)
  /-- `expired`, for the next connection. -/
  | look (expired : Bool)
  /-- The connection that is retired at the gate has been closed. -/
  | closed (err : Option (Err ε))
  /-- The end of a loop, or its next round. -/
  | proceed
  | createResource (answer : Answer ε)
  | sweep (handles : List ℕ)
  /-- The maintenance loop sees that it is to stop. -/
  | halt
  | give (c : ℕ) (expired isClosed isBusy : Bool) (txStatus : Char)
  | reset (c : ℕ) (primary cleanup : Option (Err ε)) (isClosed : Bool) (txStatus : Char)
  /-- `give`, after the connection was closed. -/
  | withdraw (c : ℕ) (err : Option (Err ε))
  | close
  | closeNative
  | destructor (err : Err ε)

namespace Status

variable (st : Status ε)

def isIdle : Bool :=
  match st with
  | .idle => true
  | _ => false

def isLent : Bool :=
  match st with
  | .lent => true
  | _ => false

def isResetting : Bool :=
  match st with
  | .resetting => true
  | _ => false

end Status

def Gate.isSweep : Gate ε → Bool
  | .sorting .sweep _ _ | .closing .sweep _ _ _ => true
  | _ => false

namespace State

variable (s : State ε)

def init (maintaining : Bool) : State ε where
  conns := .empty .gone
  takes := 0
  waiting := []
  gate := .free
  sealed := false
  closeErrors := []
  maintaining := maintaining
  stopped := false
  nativeClosed := false

def goto (gate : Gate ε) : State ε := { s with gate := gate }

def mark (c : ℕ) (st : Status ε) : State ε := { s with conns := s.conns.set c st }

/-- `Release` and `ReleaseUnused`. -/
def free (c : ℕ) : State ε := s.mark c (if s.nativeClosed then .gone else .idle)

def backgroundFailure (err : Err ε) : State ε :=
  { s with sealed := true, closeErrors := s.closeErrors ++ [err] }

/-- `AcquireAllIdle`, with its result. -/
def acquire (handles : List ℕ) : State ε :=
  { s with
    conns := s.conns.mapCells (fun c st => if c ∈ handles then .gated else st) }

def available (handles : List ℕ) : Bool :=
  handles.Nodup && handles.all (fun c => (s.conns.cell c).isIdle)

/-! ## The gate -/

def refuse (k : ℕ) (err : Err ε) : Turn ε := ⟨s.goto .free, [.refused k err]⟩

/-- **`take`, at the gate.** -/
def enter (k : ℕ) (ended : Option (Err ε × Option (Err ε))) : Turn ε :=
  match ended with
  | some (err, cause) => s.refuse k (failure .connect "acquire" [some err, cause])
  | none =>
    if s.sealed then s.refuse k (failure .state "pool" (s.closeErrors.map some))
    else ⟨s.goto (.acquiring k), []⟩

/-- `take`, with the connections it may use. -/
def choose (k : ℕ) : List ℕ → Turn ε
  | [] => s.refuse k (failure .state "acquire" [])
  | c :: extra => ⟨s.goto (.returning k extra (.took c)), []⟩

def acquireAllIdle (handles : List ℕ) : Option (Turn ε) :=
  if !s.available handles then none
  else match s.gate with
  | .acquiring k => some ⟨(s.acquire handles).goto (.sorting (.take k []) handles []), []⟩
  | .created k => some ((s.acquire handles).choose k handles)
  | _ => none

/-- The next connection: it is retired, kept, or released if it is not
`take` that looks. -/
def look (expired : Bool) : Option (Turn ε) :=
  match s.gate with
  | .sorting w (c :: todo) failures =>
    if expired then some ⟨s.goto (.closing w c todo failures), []⟩
    else match w with
    | .take k usable => some ⟨s.goto (.sorting (.take k (usable ++ [c])) todo failures), []⟩
    | .sweep => some ⟨(s.free c).goto (.sorting .sweep todo failures), []⟩
  | _ => none

/-- `retire`, at the gate. -/
def closed (err : Option (Err ε)) : Option (Turn ε) :=
  match s.gate with
  | .closing w c todo failures =>
    some ⟨(s.mark c .gone).goto (.sorting w todo (failures ++ [err])), []⟩
  | _ => none

def sorted (w : Worker) (err : Option (Err ε)) : Turn ε :=
  match w, err with
  | .take k usable, some err => ⟨s.goto (.returning k usable (.failed err)), []⟩
  | .take k usable, none =>
    if usable.isEmpty then ⟨s.goto (.creating k), []⟩ else s.choose k usable
  | .sweep, some err =>
    ⟨{ (s.backgroundFailure err).goto .free with maintaining := false }, [.sealed]⟩
  | .sweep, none => ⟨s.goto .free, []⟩

def finish (k : ℕ) (result : Result ε) : Turn ε :=
  match result with
  | .took c => ⟨(s.mark c .lent).goto .free, [.took k c]⟩
  | .failed err => ⟨(s.backgroundFailure err).goto .free, [.sealed, .refused k err]⟩

def proceed : Option (Turn ε) :=
  match s.gate with
  | .sorting w [] failures => some (s.sorted w (Fault.joined failures))
  | .returning k (c :: extra) result => some ⟨(s.free c).goto (.returning k extra result), []⟩
  | .returning k [] result => some (s.finish k result)
  | _ => none

/-- `CreateResource`, which does nothing when the native pool is closed. -/
def createResource (answer : Answer ε) : Option (Turn ε) :=
  match s.gate, nativeFailure .connect "acquire" answer with
  | .creating k, some err => some (s.refuse k err)
  | .creating k, none =>
    if s.nativeClosed then none
    else some ⟨({ s with conns := s.conns.alloc .idle } : State ε).goto (.created k),
      [.created s.conns.next]⟩
  | _, _ => none

def sweep (handles : List ℕ) : Option (Turn ε) :=
  match s.gate with
  | .free =>
    if !s.maintaining || s.stopped || !s.available handles then none
    else some ⟨(s.acquire handles).goto (.sorting .sweep handles []), []⟩
  | _ => none

/-! ## Giving back -/

def give (c : ℕ) (expired isClosed isBusy : Bool) (txStatus : Char) : Option (Turn ε) :=
  if !(s.conns.cell c).isLent then none
  else if !s.sealed && !expired && !isClosed && !isBusy && txStatus = 'I' then
    some ⟨s.mark c .resetting, []⟩
  else some ⟨s.mark c (.retiring none), []⟩

/-- **`give`, after `DISCARD ALL`.** -/
def reset (c : ℕ) (primary cleanup : Option (Err ε)) (isClosed : Bool) (txStatus : Char) :
    Option (Turn ε) :=
  if !(s.conns.cell c).isResetting then none
  else if primary.isNone && cleanup.isNone && !isClosed && txStatus = 'I' then
    some ⟨s.free c, [.discarded c, .released c]⟩
  else some ⟨s.mark c (.retiring (some (primary, cleanup))), []⟩

/-- **`give`, after the connection was closed.** -/
def withdraw (c : ℕ) (err : Option (Err ε)) : Option (Turn ε) :=
  match s.conns.cell c with
  | .retiring none => some ⟨s.mark c .gone, [.retired c err]⟩
  | .retiring (some (primary, cleanup)) =>
    some ⟨s.mark c .gone, [.retired c (failureOrNil .cleanup "session-reset"
      [primary, cleanup, err])]⟩
  | _ => none

/-- `native.Close`: all connections that are idle are destroyed. -/
def closeNative : Option (Turn ε) :=
  if !s.stopped || s.maintaining then none
  else some ⟨{ s with
    nativeClosed := true
    conns := s.conns.mapCells (fun _ st => if st.isIdle then .gone else st) }, []⟩

/-- **The step of the machine**, with its actions. -/
def turn : Event ε → Option (Turn ε)
  | .start =>
    some ⟨{ s with takes := s.takes + 1, waiting := s.waiting ++ [s.takes] }, [.started s.takes]⟩
  | .abandon k err cause =>
    if k ∉ s.waiting then none
    else some ⟨{ s with waiting := s.waiting.erase k },
      [.refused k (failure .connect "acquire" [err, cause])]⟩
  | .enter k ended =>
    match s.gate with
    | .free =>
      if k ∉ s.waiting then none
      else some (({ s with waiting := s.waiting.erase k } : State ε).enter k ended)
    | _ => none
  | .acquireAllIdle handles => s.acquireAllIdle handles
  | .look expired => s.look expired
  | .closed err => s.closed err
  | .proceed => s.proceed
  | .createResource answer => s.createResource answer
  | .sweep handles => s.sweep handles
  | .halt =>
    if s.stopped && !s.gate.isSweep then some ⟨{ s with maintaining := false }, []⟩ else none
  | .give c expired isClosed isBusy txStatus => s.give c expired isClosed isBusy txStatus
  | .reset c primary cleanup isClosed txStatus => s.reset c primary cleanup isClosed txStatus
  | .withdraw c err => s.withdraw c err
  | .close => some ⟨{ s with sealed := true, stopped := true }, [.sealed]⟩
  | .closeNative => s.closeNative
  | .destructor err => some ⟨{ s with closeErrors := s.closeErrors ++ [err] }, []⟩

/-- **The machine.** -/
def machine (maintaining : Bool) : Mealy (State ε) (Event ε) (Action ε) :=
  ⟨init maintaining, fun s l => s.turn l⟩

end State

end Pool

end Pgx
