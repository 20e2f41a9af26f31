import Fathomry.Mealy
import Fathomry.Minio

/-!
# Uploads in parts

A `Multipart` is one upload that its caller feeds part by part. Its mutex is
taken with `TryLock` by `Part`, `Complete` and `Abort`, which hand it to a
goroutine of their own and return; a watcher waits for the end of the
lifetime and takes it as well. Whoever has the mutex may end the session –
because a part has failed, because the upload is complete, because it was
asked to, or because the lifetime is over – and an upload that is not
acknowledged to be complete is aborted on the way.

A step of the machine is what the holder of the mutex does between two
things that are decided outside: a native answer, the input, a context. The
evidence of single parts and the limit of native requests are left out.
-/

namespace Minio

namespace Multipart

variable {ε : Type}

/-- What a session is asked to upload: its size if it is known, which is then
not zero. -/
structure Request (value : Settings) where
  key : String
  size : ℤ
  le_size : -1 ≤ size
  size_le : size ≤ value.maxTransferBytes
  size_ne : size ≠ 0

/-- What `end` was called with, and whether `BeginMultipart` did it. -/
structure Ending (ε : Type) where
  primary : Option (Err ε)
  cleanup : Option (Err ε)
  starting : Bool

/-- **Where the holder of the mutex is.** -/
inductive Stage (ε : Type) where
  /-- `BeginMultipart`, in front of its native call. -/
  | beginning
  | allocating
  | past
  | free
  /-- `part`, in front of its input. -/
  | preparing (number size : ℕ)
  | reading (number size : ℕ)
  | putting (number size : ℕ)
  | completing
  /-- `end`, in front of the cleanup context. -/
  | authorizing (e : Ending ε)
  | aborting (e : Ending ε)

/-- `TryLock` succeeds. -/
def Stage.unlocked : Stage ε → Bool
  | .free => true
  | _ => false

/-- **A session.** -/
structure State (ε : Type) where
  transfer : Transfer
  parts : List CompletePart
  short : Bool
  closed : Bool
  cancelled : Bool
  /-- The watcher has not come to its end. -/
  watched : Bool
  call : Invocation.Call Transfer (Err ε)
  stage : Stage ε

/-- **What a step does to others.** -/
inductive Action (ε : Type) where
  | allocate
  | put (number size : ℕ)
  | stored (part : CompletePart) (size : ℕ)
  | failed (number : ℕ)
  | complete (parts : List CompletePart)
  | published
  | abort
  /-- There is no context to abort with. -/
  | unauthorized
  | ended (outcome : Invocation.Outcome Transfer (Err ε))

/-- A state and the actions on the way to it. -/
abbrev Turn (ε : Type) := Reaction (State ε) (Action ε)

/-- How an input ends, as far as it was read. -/
inductive Read (ε : Type) where
  | more
  | eof
  | failed (err : Err ε)

/-- **What happens.** Where a context is asked, its answer is part of the
label; `added` is what contexts and responses add to an error. -/
inductive Event (ε : Type) where
  /-- `phase`, for the operation that is about to do something. -/
  | phased (err : Option (Err ε))
  | allocated (uploadID : String) (owned : Bool) (err closeErr : Option (Err ε))
      (added : List (Option (Err ε)))
  /-- `Part`: whether it was given a context and an input, and what becomes
  of its call. -/
  | part (number size : ℤ) (valid : Bool) (refusal : Option (Err ε))
  | read (count : ℕ) (result : Read ε) (ctxErr : Option (Err ε)) (added : List (Option (Err ε)))
  | put (etag : String) (err closeErr : Option (Err ε)) (added : List (Option (Err ε)))
  | complete (valid : Bool) (phase : Option (Err ε))
  | completed (info : UploadInfo) (err closeErr : Option (Err ε)) (added : List (Option (Err ε)))
  | abort (valid : Bool)
  | authorized (err : Option (Err ε)) (added : List (Option (Err ε)))
  | aborted (err wireErr : Option (Err ε)) (added : List (Option (Err ε)))
  /-- The lifetime ends, or `Close` ends it. -/
  | cancel
  /-- The watcher has the mutex, and says why the lifetime is over. -/
  | watch (err : Option (Err ε))

/-- A receipt, or an error. -/
inductive Reply (ε : Type) where
  | receipt
  | error (err : Err ε)

namespace State

variable {value : Settings} (request : Request value) (s : State ε)

def init : State ε where
  transfer := .new
  parts := []
  short := false
  closed := false
  cancelled := false
  watched := false
  call := .new "multipart"
  stage := .beginning

def lock : Option (Err ε) :=
  if s.stage.unlocked = false then some (failure .state "multipart-busy" [])
  else if s.closed then some (failure .state "multipart-closed" []) else none

def goto (stage : Stage ε) : State ε := { s with stage := stage }

/-- The last lines of `end`. -/
def finish (e : Ending ε) (cleanup : Option (Err ε)) (actions : List (Action ε)) : Turn ε where
  state := { s with
    parts := []
    call := s.call.complete ⟨some s.transfer, e.primary, cleanup.toList⟩
    cancelled := true
    stage := if e.starting then .past else .free }
  actions := actions ++ [.ended ⟨some s.transfer, e.primary, cleanup.toList⟩]

/-- **`end`**, up to the cleanup context. -/
def endWith (e : Ending ε) (abort : Bool) (actions : List (Action ε)) : Turn ε :=
  if s.closed then ⟨s.goto (if e.starting then .past else .free), actions⟩
  else if abort && s.transfer.uploadID ≠ "" then
    ⟨{ s with closed := true, stage := .authorizing e }, actions⟩
  else ({ s with closed := true } : State ε).finish e e.cleanup actions

def authorized (e : Ending ε) (err : Option (Err ε)) (added : List (Option (Err ε))) : Turn ε :=
  match err with
  | none =>
    ⟨{ s with
      transfer := { s.transfer with abortAttempted := true }
      stage := .aborting e }, [.abort]⟩
  | some err =>
    s.finish e (Fault.joined [e.cleanup, nativeFailure .cleanup "multipart-abort" added (some err)])
      [.unauthorized]

def aborted (e : Ending ε) (err wireErr : Option (Err ε)) (added : List (Option (Err ε))) :
    Turn ε :=
  ({ s with transfer := { s.transfer with abortAcknowledged := err.isNone } } : State ε).finish e
    (Fault.joined [e.cleanup,
      nativeFailure .cleanup "multipart-abort" added (Fault.joined [err, wireErr])]) []

/-- The end of the goroutine of `Part`, when its part has failed. -/
def failPart (number : ℕ) (primary cleanup : Option (Err ε)) : Turn ε :=
  s.endWith ⟨primary, cleanup, false⟩ true [.failed number]

/-- `phase`, which comes back. -/
def phased (err : Option (Err ε)) : Option (Turn ε) :=
  match s.stage, err with
  | .beginning, none =>
    some ⟨{ s with
      transfer := { s.transfer with effect := .unknown }
      stage := .allocating }, [.allocate]⟩
  | .beginning, some err => some (s.endWith ⟨some err, none, true⟩ true [])
  | .preparing number size, none => some ⟨s.goto (.reading number size), []⟩
  | .preparing number _, some err => some (s.failPart number (some err) none)
  | _, _ => none

/-- Only an id that belongs to this upload is adopted. -/
def adopt (uploadID : String) (owned : Bool) : State ε :=
  { s with transfer := { s.transfer with uploadID := if owned then uploadID else "" } }

/-- The last lines of `BeginMultipart`: a lifetime that has ended ends the
session. -/
def opening (err closeErr : Option (Err ε)) : Turn ε :=
  if err.isSome || closeErr.isSome || s.cancelled then s.endWith ⟨err, closeErr, true⟩ true []
  else ⟨{ s with watched := true, stage := .free }, []⟩

/-- **`BeginMultipart`, after `NewMultipartUpload`.** -/
def allocated (uploadID : String) (owned : Bool) (err closeErr : Option (Err ε))
    (added : List (Option (Err ε))) : Option (Turn ε) :=
  match s.stage with
  | .allocating =>
    some ((s.adopt uploadID owned).opening (nativeFailure .write "multipart-begin" added err)
      closeErr)
  | _ => none

def partInput (number size : ℤ) (valid : Bool) : Bool :=
  !(!valid || number ≠ s.parts.length + 1 || value.maxParts < number || size < 1
    || value.partBytes < size || s.short || (value.maxTransferBytes : ℤ) - s.transfer.bytes < size
    || (0 ≤ request.size && request.size - s.transfer.bytes < size))

/-- **`Part`**, which takes the mutex. -/
def part (number size : ℤ) (valid : Bool) (refusal : Option (Err ε)) : Reply ε × Turn ε :=
  match s.lock with
  | some err => (.error err, ⟨s, []⟩)
  | none =>
    if s.partInput request number size valid = false then
      (.error (failure .input "multipart-part" []), ⟨s, []⟩)
    else match refusal with
    | some err => (.error err, ⟨s, []⟩)
    | none => (.receipt, ⟨s.goto (.preparing number.toNat size.toNat), []⟩)

/-- **`part`, with its input.** What was read counts as transferred even if
the part fails. -/
def read (count : ℕ) (result : Read ε) (ctxErr : Option (Err ε)) (added : List (Option (Err ε))) :
    Option (Turn ε) :=
  match s.stage with
  | .reading number size =>
    let s := { s with transfer := { s.transfer with bytes := s.transfer.bytes + count } }
    some (match result with
    | .failed err =>
      s.failPart number (nativeFailure .write "part-input" added (some err)) none
    | _ =>
      if count ≠ size then s.failPart number (some (failure .input "part-size" [])) none
      else match ctxErr with
      | some err => s.failPart number (some err) none
      | none => ⟨s.goto (.putting number size), [.put number size]⟩)
  | _ => none

def store (part : CompletePart) (size : ℕ) : State ε :=
  { s with
    parts := s.parts ++ [part]
    short := decide (size < minPartBytes)
    transfer := { s.transfer with partsAcknowledged := s.transfer.partsAcknowledged + 1 } }

/-- **`part`, after `PutObjectPart`.** -/
def put (etag : String) (err closeErr : Option (Err ε)) (added : List (Option (Err ε))) :
    Option (Turn ε) :=
  match s.stage with
  | .putting number size =>
    let cleanup := nativeFailure .cleanup "multipart-part" added closeErr
    some (match if err.isNone && !confirms etag then some (.code .protocol) else err with
    | some err => s.failPart number (nativeFailure .write "multipart-part" added (some err)) cleanup
    | none =>
      let s := s.store ⟨number, etag⟩ size
      match cleanup with
      | some _ =>
        s.endWith ⟨none, cleanup, false⟩ true [.stored ⟨number, etag⟩ size, .failed number]
      | none => ⟨s.goto .free, [.stored ⟨number, etag⟩ size]⟩)
  | _ => none

/-- **`Complete`**, which takes the mutex. -/
def complete (valid : Bool) (phase : Option (Err ε)) : Reply ε × Turn ε :=
  match s.lock with
  | some err => (.error err, ⟨s, []⟩)
  | none =>
    if !valid || s.parts.isEmpty || (0 ≤ request.size && request.size ≠ s.transfer.bytes) then
      (.error (failure .input "multipart-complete" []), ⟨s, []⟩)
    else match phase with
    | some err => (.error err, ⟨s, []⟩)
    | none =>
      (.receipt, ⟨{ s with
        transfer := { s.transfer with completionAttempted := true }
        stage := .completing }, [.complete s.parts]⟩)

/-- The last lines of `Complete`. -/
def conclude (primary closeErr : Option (Err ε)) (added : List (Option (Err ε))) : Turn ε :=
  match primary with
  | none =>
    ({ s with transfer := { s.transfer with effect := .acknowledged, complete := true } } :
      State ε).endWith ⟨none, closeErr, false⟩ false [.published]
  | some err =>
    s.endWith ⟨nativeFailure .write "multipart-complete" added (some err), closeErr, false⟩ true []

/-- **`Complete`, after `CompleteMultipartUpload`.** -/
def completed (info : UploadInfo) (err closeErr : Option (Err ε)) (added : List (Option (Err ε))) :
    Option (Turn ε) :=
  match s.stage with
  | .completing =>
    let foreign := info.bucket ≠ value.bucket || info.key ≠ request.key || !confirms info.etag
    some (s.conclude (if err.isNone && foreign then some (.code .protocol) else err) closeErr added)
  | _ => none

/-- **`Abort`**, which takes the mutex. -/
def abort (valid : Bool) : Reply ε × Turn ε :=
  match s.lock with
  | some err => (.error err, ⟨s, []⟩)
  | none =>
    if valid then (.receipt, s.endWith ⟨none, none, false⟩ true [])
    else (.error (failure .input "multipart-abort" []), ⟨s, []⟩)

/-- **The watcher**, once it has the mutex. -/
def watch (err : Option (Err ε)) : Option (Turn ε) :=
  if s.watched && s.cancelled && s.stage.unlocked then
    let s := { s with watched := false }
    some (if s.closed then ⟨s, []⟩ else s.endWith ⟨err, none, false⟩ true [])
  else none

def opened : Bool :=
  match s.stage with
  | .beginning | .allocating | .past => false
  | .authorizing e | .aborting e => !e.starting
  | _ => true

/-- **The step of the machine**, with its actions. -/
def turn : Event ε → Option (Turn ε)
  | .phased err => s.phased err
  | .allocated uploadID owned err closeErr added => s.allocated uploadID owned err closeErr added
  | .part number size valid refusal =>
    if s.opened then some (s.part request number size valid refusal).2 else none
  | .read count result ctxErr added => s.read count result ctxErr added
  | .put etag err closeErr added => s.put etag err closeErr added
  | .complete valid phase => if s.opened then some (s.complete request valid phase).2 else none
  | .completed info err closeErr added => s.completed request info err closeErr added
  | .abort valid => if s.opened then some (s.abort valid).2 else none
  | .authorized err added =>
    match s.stage with
    | .authorizing e => some (s.authorized e err added)
    | _ => none
  | .aborted err wireErr added =>
    match s.stage with
    | .aborting e => some (s.aborted e err wireErr added)
    | _ => none
  | .cancel => some ⟨{ s with cancelled := true }, []⟩
  | .watch err => s.watch err

/-- **The machine.** -/
def machine : Mealy (State ε) (Event ε) (Action ε) := ⟨init, fun s l => s.turn request l⟩

end State

end Multipart

end Minio
