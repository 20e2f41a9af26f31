import Fathomry.Bytes
import Fathomry.Failure
import Fathomry.Mealy

/-!
# Writers of files

A `managedWriteFile` collects what is written to it. As long as everything
fits into its buffer there is nothing in the store, and `Close` puts the
object in one request. A buffer that is full and has to take more becomes a
part of an upload, which `Close` completes. Whoever ends the writer
otherwise – a `Close` after an error, or a `shutdown` – aborts the upload;
the request for it is reserved before the upload exists.

`Write`, `Close` and `shutdown` hold the mutex of the writer from beginning
to end. A step of the machine is what the holder does between two things that
are decided outside: by the family the writer belongs to (`started`,
`admitted`, `answered`), by its budget, or by the store. Notes and
observations are left out.
-/

namespace Iceberg

variable {ε : Type}

inductive Kind where
  | authority
  | protocol
  | limit
deriving DecidableEq

inductive Cause (ε : Type) where
  | closed
  | other (err : ε)

abbrev Err (ε : Type) := Fault Kind Unit (Cause ε)

def providerID : String := "tableformat.iceberg.v0"

def failure (kind : Kind) (operation : String) : Err ε := .new kind operation providerID () []

def errClosed : Err ε := .native .closed

/-- **The limits of a family**, which `newManagedIO` has let through. -/
structure Config where
  maxObjectBytes : ℕ
  maxIOBytes : ℕ
  maxFileOps : ℕ
  maxOpenFiles : ℕ
  partSize : ℕ
  allowWrite : Bool
  maxObjectBytes_pos : 0 < maxObjectBytes
  maxIOBytes_pos : 0 < maxIOBytes
  maxFileOps_pos : 0 < maxFileOps
  maxOpenFiles_pos : 0 < maxOpenFiles
  le_partSize : 5 * 2 ^ 20 ≤ partSize
  partSize_le : partSize ≤ 5 * 2 ^ 30

def Config.capacity (config : Config) : ℕ := min config.partSize config.maxObjectBytes

structure CompletedPart where
  number : ℕ
  etag : String
deriving DecidableEq

/-- **A request to the store.** -/
inductive Request where
  | create
  | uploadPart (uploadID : String) (number : ℕ) (data : Bytes)
  | put (data : Bytes) (ifNoneMatch : String)
  | complete (uploadID : String) (parts : List CompletedPart) (ifNoneMatch : String)
  | abort (uploadID : String)
  | head
  | get
deriving DecidableEq

/-- What a writer reserves. -/
inductive Op where
  | write
  | abortReservation
  | multipartCreate
  | uploadPart
  | put
  | multipartComplete
deriving DecidableEq

/-- All but `write` reserve a request. -/
def Op.request : Op → Bool
  | .write => false
  | _ => true

/-- What the holder of the mutex is doing: `Write`, with what is left of its
data and what it has written, or `Close`. -/
inductive Task where
  | write (data : Bytes) (written : ℕ)
  | close

def Task.bytes : Op → Task → ℕ
  | .write, .write data _ => data.length
  | _, _ => 0

/-- What ends a writer. `Close` goes on even if its family does not let it
start. -/
inductive Ending where
  | close (started : Bool)
  | shutdown

/-- **Where the holder of the mutex is.** -/
inductive Stage (ε : Type) where
  | free
  | starting (task : Task)
  /-- In `reserve`, in front of the mutex of the family. -/
  | reserving (op : Op) (task : Task)
  /-- In `reserve`, in front of the context and the budget. -/
  | reserved (op : Op) (task : Task)
  /-- In front of the budget, for a buffer. -/
  | claiming (data : Bytes)
  | requesting (op : Op) (task : Task)
  /-- `Write`, in front of its `done`. -/
  | returning (written : ℕ) (err : Option (Err ε))
  | aborting (ending : Ending)
  /-- `Close`, in front of its `done`. -/
  | departing
  | draining
  | releasing
  /-- In `releaseHandle`, in front of the budget. -/
  | notifying

/-- **What a step does to others.** -/
inductive Action (ε : Type) where
  /-- Bytes of a `Write` are taken over. -/
  | accepted (data : Bytes)
  | wrote (written : ℕ) (err : Option (Err ε))
  /-- `Close` or `shutdown` finds the writer open. -/
  | ending (shutdown : Bool)
  | request (r : Request)
  /-- A part is in the store. -/
  | stored (uploadID : String) (part : CompletedPart) (data : Bytes)
  /-- The budget has a handle more, or less. -/
  | claim
  | unclaim
  /-- The budget has a buffer more, or less. -/
  | buffer (size : ℕ)
  | unbuffer (size : ℕ)
  | refused (err : Err ε)

/-- **What happens.** -/
inductive WriterEvent (ε : Type) where
  | write (data : Bytes)
  | close
  | shutdown
  | started (err : Option (Err ε))
  | admitted (err : Option (Err ε))
  | answered (err : Option (Err ε))
  | created (err : Option (Err ε)) (uploadID : String)
  | uploaded (err : Option (Err ε)) (etag : String)
  | stored (err : Option (Err ε)) (etag : String)
  | aborted (err : Option (Err ε))
  | left
  | drained
  | released
  | notified

/-- **A writer.** A buffer is there or it is nil. -/
structure Writer (ε : Type) where
  uploadID : String
  closed : Bool
  err : Option (Err ε)
  buffer : Option Bytes
  total : ℕ
  parts : List CompletedPart
  completeSubmitted : Bool
  abortReserved : Bool
  stage : Stage ε

namespace Writer

abbrev Turn (ε : Type) := Reaction (Writer ε) (Action ε)

variable (config : Config) (w : Writer ε)

def init : Writer ε := ⟨"", false, none, none, 0, [], false, false, .free⟩

def goto (stage : Stage ε) : Writer ε := { w with stage := stage }

def held : Bytes := w.buffer.getD []

/-! ### Parts -/

/-- `flushPart`, up to its first reservation. -/
def flushPart (task : Task) : Except (Err ε) (Stage ε) :=
  if 10000 ≤ w.parts.length then .error (failure .limit "multipart-parts")
  else if w.uploadID = "" then .ok (.reserving .abortReservation task)
  else .ok (.reserving .uploadPart task)

def failWrite (written : ℕ) (err : Err ε) : Writer ε :=
  { w with err := some err, stage := .returning written (some err) }

/-- **The loop of `Write`.** If the data does not fit into the buffer, the
buffer is full and has to be flushed. -/
def pump (data : Bytes) (written : ℕ) (actions : List (Action ε)) : Turn ε :=
  let count := min (config.capacity - w.held.length) data.length
  let w := { w with buffer := some (w.held ++ data.take count), total := w.total + count }
  let actions := actions ++ [.accepted (data.take count)]
  if data.drop count = [] then ⟨w.goto (.returning (written + count) none), actions⟩
  else match w.flushPart (.write (data.drop count) (written + count)) with
  | .error err => ⟨w.failWrite (written + count) err, actions⟩
  | .ok stage => ⟨w.goto stage, actions⟩

/-! ### The end -/

/-- The deferred calls of whoever has ended the writer. -/
def depart (ending : Ending) (actions : List (Action ε)) : Turn ε :=
  match ending with
  | .close true => ⟨w.goto .departing, actions⟩
  | _ => ⟨w.goto .draining, actions⟩

/-- `Close` keeps the error of `abort`, and `shutdown` only returns it. -/
def aborted (ending : Ending) (err : Option (Err ε)) (actions : List (Action ε)) : Turn ε :=
  match ending with
  | .close _ => ({ w with err := Fault.joined [w.err, err] } : Writer ε).depart ending actions
  | .shutdown => w.depart ending actions

/-- **`abort`**: an upload that is not complete is aborted, with the request
that was reserved for this. -/
def abort (ending : Ending) (actions : List (Action ε)) : Turn ε :=
  if w.uploadID = "" || w.completeSubmitted || !w.abortReserved then w.aborted ending none actions
  else ⟨{ w with abortReserved := false, stage := .aborting ending },
    actions ++ [.request (.abort w.uploadID)]⟩

/-- `Close`, after `commit`. -/
def committed (err : Option (Err ε)) (actions : List (Action ε)) : Turn ε :=
  match err with
  | none => ({ w with err := none } : Writer ε).depart (.close true) actions
  | some err => ({ w with err := some err } : Writer ε).abort (.close true) actions

/-- **`commit`**, up to its first reservation. -/
def commit : Turn ε :=
  if w.uploadID = "" then ⟨w.goto (.reserving .put .close), []⟩
  else if w.held = [] then ⟨w.goto (.reserving .multipartComplete .close), []⟩
  else match w.flushPart .close with
  | .error err => w.committed (some err) []
  | .ok stage => ⟨w.goto stage, []⟩

/-- `flushPart` or a reservation fails. -/
def failTask (task : Task) (err : Err ε) : Turn ε :=
  match task with
  | .write _ written => ⟨w.failWrite written err, []⟩
  | .close => w.committed (some err) []

/-! ### Steps -/

/-- **`Write`**, `Close` and `shutdown`, with the mutex. -/
def write (data : Bytes) : Turn ε :=
  if w.closed then ⟨w, [.wrote 0 (some errClosed)]⟩
  else match w.err with
  | some err => ⟨w, [.wrote 0 (some err)]⟩
  | none => ⟨w.goto (.starting (.write data 0)), []⟩

@[inherit_doc write]
def close : Turn ε :=
  if w.closed then ⟨w, []⟩
  else ⟨{ w with closed := true, stage := .starting .close }, [.ending false]⟩

@[inherit_doc write]
def shutdown : Turn ε :=
  if w.closed then ⟨w, []⟩
  else ({ w with closed := true } : Writer ε).abort .shutdown [.ending true]

/-- **After `start`.** -/
def started (task : Task) (err : Option (Err ε)) : Turn ε :=
  match task, err with
  | .write _ _, some err =>
    ⟨{ w with err := some err, stage := .free }, [.wrote 0 (some err)]⟩
  | .write data written, none =>
    if config.maxObjectBytes - w.total < data.length then
      ⟨w.failWrite 0 (failure .limit "object-bytes"), []⟩
    else ⟨w.goto (.reserving .write (.write data written)), []⟩
  | .close, some err =>
    ({ w with err := Fault.joined [w.err, some err] } : Writer ε).abort (.close false) []
  | .close, none =>
    match w.err with
    | some _ => w.abort (.close true) []
    | none => w.commit

/-- **In `reserve`, after the mutex of the family.** -/
def admitted (op : Op) (task : Task) (err : Option (Err ε)) : Turn ε :=
  match err with
  | some err => w.failTask task err
  | none => ⟨w.goto (.reserved op task), []⟩

/-- **`reserve` returns**, and what it was for begins. -/
def reserved (op : Op) (task : Task) (err : Option (Err ε)) : Turn ε :=
  match err with
  | some err => w.failTask task err
  | none =>
    match op, task with
    | .write, .write data written =>
      if data = [] then ⟨w.goto (.returning 0 none), []⟩
      else if w.buffer = none then ⟨w.goto (.claiming data), []⟩
      else w.pump config data written []
    | .write, .close => ⟨w, []⟩
    | .abortReservation, task =>
      ⟨{ w with abortReserved := true, stage := .reserving .multipartCreate task }, []⟩
    | .multipartCreate, task =>
      ⟨w.goto (.requesting .multipartCreate task), [.request .create]⟩
    | .uploadPart, task =>
      ⟨w.goto (.requesting .uploadPart task),
        [.request (.uploadPart w.uploadID (w.parts.length + 1) w.held)]⟩
    | .put, task => ⟨w.goto (.requesting .put task), [.request (.put w.held "*")]⟩
    | .multipartComplete, task =>
      ⟨{ w with completeSubmitted := true, stage := .requesting .multipartComplete task },
        [.request (.complete w.uploadID w.parts "*")]⟩

/-- **The budget has a buffer**, or not. -/
def claimed (data : Bytes) (err : Option (Err ε)) : Turn ε :=
  match err with
  | some err => ⟨w.failWrite 0 err, []⟩
  | none => ({ w with buffer := some [] } : Writer ε).pump config data 0 [.buffer config.capacity]

def created (task : Task) (err : Option (Err ε)) (uploadID : String) : Turn ε :=
  match err with
  | some err => w.failTask task err
  | none =>
    let w := { w with uploadID := uploadID }
    if uploadID = "" then w.failTask task (failure .protocol "multipart-id")
    else ⟨w.goto (.reserving .uploadPart task), []⟩

/-- **`flushPart`, after `UploadPart`.** -/
def uploaded (task : Task) (err : Option (Err ε)) (etag : String) : Turn ε :=
  match err with
  | some err => w.failTask task err
  | none =>
    if etag = "" then w.failTask task (failure .protocol "multipart-part-etag")
    else
      let part : CompletedPart := ⟨w.parts.length + 1, etag⟩
      let actions := [.stored w.uploadID part w.held]
      let w := { w with parts := w.parts ++ [part], buffer := w.buffer.map (fun _ => []) }
      match task with
      | .write data written => w.pump config data written actions
      | .close => ⟨w.goto (.reserving .multipartComplete .close), actions⟩

def stored (op : Op) (err : Option (Err ε)) (etag : String) : Turn ε :=
  let operation := if op = .put then "put-etag" else "multipart-complete-etag"
  w.committed (if err.isNone && etag = "" then some (failure .protocol operation) else err) []

/-- `releaseBuffer`. -/
def drained : Turn ε :=
  ⟨{ w with buffer := none, parts := [], stage := .releasing },
    if w.buffer.isSome then [.unbuffer config.capacity] else []⟩

/-- **The step of the machine**, with its actions. -/
def turn : WriterEvent ε → Option (Turn ε)
  | .write data => match w.stage with
    | .free => some (w.write data)
    | _ => none
  | .close => match w.stage with
    | .free => some w.close
    | _ => none
  | .shutdown => match w.stage with
    | .free => some w.shutdown
    | _ => none
  | .started err => match w.stage with
    | .starting task => some (w.started config task err)
    | _ => none
  | .admitted err => match w.stage with
    | .reserving op task => some (w.admitted op task err)
    | _ => none
  | .answered err => match w.stage with
    | .reserved op task => some (w.reserved config op task err)
    | .claiming data => some (w.claimed config data err)
    | _ => none
  | .created err uploadID => match w.stage with
    | .requesting .multipartCreate task => some (w.created task err uploadID)
    | _ => none
  | .uploaded err etag => match w.stage with
    | .requesting .uploadPart task => some (w.uploaded config task err etag)
    | _ => none
  | .stored err etag => match w.stage with
    | .requesting .put .close => some (w.stored .put err etag)
    | .requesting .multipartComplete .close => some (w.stored .multipartComplete err etag)
    | _ => none
  | .aborted err => match w.stage with
    | .aborting ending => some (w.aborted ending err [])
    | _ => none
  | .left => match w.stage with
    | .returning written err => some ⟨w.goto .free, [.wrote written err]⟩
    | .departing => some ⟨w.goto .draining, []⟩
    | _ => none
  | .drained => match w.stage with
    | .draining => some (w.drained config)
    | _ => none
  | .released => match w.stage with
    | .releasing => some ⟨w.goto .notifying, []⟩
    | _ => none
  | .notified => match w.stage with
    | .notifying => some ⟨w.goto .free, [.unclaim]⟩
    | _ => none

/-- **A writer by itself**: its family and the store answer as they like. -/
def machine : Mealy (Writer ε) (WriterEvent ε) (Action ε) := ⟨init, fun w l => w.turn config l⟩

end Writer

end Iceberg
