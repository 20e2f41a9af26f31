import Fathomry.Bytes
import Fathomry.Mealy
import Fathomry.Minio

/-!
# Uploads of a stream

`Put` reads its input part by part into one buffer. What ends with the first
part is an object of its own, and is put in one request. Otherwise the first
full part allocates an upload, and every part is stored before the next one
is read.

The buffer has one byte more than can be needed. Where less than a part may
still come, the read asks for one byte more than that: if it comes, the input
is too long, and if the input ends instead this is known without another
read.

A step of the machine is what `Put` does between two things that are decided
outside: the context, the reader, the native client. The digests of the data
are left out, and of a page of a response there is what `encoding/xml` makes
of it.
-/

namespace Minio

namespace Upload

variable {ε : Type}

/-- A source, with what it allows. -/
structure Source extends Settings where
  keyPrefix : String
  writes : Bool
  plaintext : Bool

structure Request where
  key : String
  size : ℤ
  ifAbsent : Bool
  matchETag : String
  contentType : String
  metadata : List (String × String)
  encryption : String

/-- `native.PutObjectOptions`: what is stored with an object, and the
conditions for it. -/
structure Options where
  contentType : String
  metadata : List (String × String)
  encrypted : Bool
  ifAbsent : Bool
  matchETag : String

def validPath (value : String) (empty : Bool) : Bool :=
  validText value 1024 empty && value.toList.all (fun c => c.toNat ≠ 92)
    && (value.toList.splitOn '/').all (fun part => part ≠ ['.'] && part ≠ ['.', '.'])

def address (value : Source) (key : String) : Option (Err ε) :=
  if validPath key false = false then some (failure .input "address" [])
  else if !value.keyPrefix.toList.isPrefixOf key.toList || !value.writes then
    some (failure .authority "address" [])
  else none

def validKey (key : String) : Bool :=
  0 < key.utf8ByteSize && key.utf8ByteSize ≤ 128 && !"x-amz-".toList.isPrefixOf key.toList
    && !"x-minio-".toList.isPrefixOf key.toList
    && key.toList.all (fun c => c.isLower || c.isDigit || c = '-' || c = '_')

def validMetadata (metadata : List (String × String)) : Bool :=
  metadata.length ≤ 32 && metadata.all (fun x => validKey x.1 && validText x.2 2048 true)
    && (metadata.map (fun x => x.1.utf8ByteSize + x.2.utf8ByteSize)).sum ≤ 8192

def writeOptions (value : Source) (request : Request) : Except (Err ε) Options :=
  match address value request.key with
  | some err => .error err
  | none =>
    if request.size < -1 || value.maxTransferBytes < request.size || !validETag request.matchETag
        || (request.ifAbsent && request.matchETag ≠ "") || !validText request.contentType 256 true
        || !validMetadata request.metadata then
      .error (failure .input "write" [])
    else if (request.encryption ≠ "" && request.encryption ≠ "SSE-S3")
        || (request.encryption ≠ "" && value.plaintext) then
      .error (failure .unsupported "encryption" [])
    else .ok
      { contentType := request.contentType
        metadata := request.metadata.map (fun x => ("x-amz-meta-" ++ x.1, x.2))
        encrypted := request.encryption = "SSE-S3"
        ifAbsent := request.ifAbsent
        matchETag := request.matchETag }

/-- The options of an upload in parts: conditions apply when it is published. -/
def Options.initial (opts : Options) : Options := { opts with ifAbsent := false, matchETag := "" }

/-- A response to `NewMultipartUpload`. -/
structure Page (ε : Type) where
  /-- The status is 200. -/
  ok : Bool
  name : String
  bucket : List String
  key : List String
  id : List String
  decodeErr : Option (Err ε)
  /-- What follows the element is not blank. -/
  trailing : Bool
  trailingErr : Option (Err ε)
  /-- How the response ended, if not by `io.EOF`. -/
  readErr : Option (Err ε)

/-- **`allocationIdentity`**: whether an id belongs to this upload, and what
is wrong with the response. -/
def Page.allocationIdentity (page : Page ε) (bucket key uploadID : String) :
    Bool × Option (Err ε) :=
  if page.ok = false then (false, none)
  else if page.name ≠ "InitiateMultipartUploadResult" || page.bucket ≠ [bucket]
      || page.key ≠ [key] || page.id ≠ [uploadID] || !validText uploadID 1024 false then
    (false, some (failure .protocol "upload-allocation" [page.decodeErr]))
  else if page.decodeErr.isSome then
    (true, some (failure .protocol "upload-allocation" [page.decodeErr]))
  else if page.trailing then
    (false, some (failure .protocol "upload-allocation" [page.trailingErr]))
  else if page.readErr.isSome then
    (true, some (failure .protocol "upload-allocation" [page.readErr]))
  else (true, none)

/-- What a result has about an upload: `resultData`. -/
structure Data where
  transfer : Transfer
  /-- The object, and its size. -/
  object : Option (UploadInfo × ℕ)
  complete : Bool

def isEOF : Option (Err ε) → Bool
  | some .eof => true
  | _ => false

/-- **Why an upload fails**: the statement that returns the error. -/
inductive Reason (ε : Type) where
  /-- More bytes than a transfer may have. -/
  | tooLong
  | tooBig
  | tooShort
  /-- More parts than an upload may have. -/
  | tooMany
  | input (err : Err ε)
  | context (err : Err ε)
  | answer (err : Err ε)
  /-- An answer that confirms nothing. -/
  | unconfirmed

def Reason.err : Reason ε → Err ε
  | .tooLong => .code .limit
  | .tooBig => .code .input
  | .tooShort => .native .unexpectedEOF
  | .tooMany => .code .limit
  | .input err => err
  | .context err => err
  | .answer err => err
  | .unconfirmed => .code .protocol

/-- **Where an upload is.** -/
inductive Stage (ε : Type) where
  | idle
  /-- `readInput`, in front of `ctx.Err`. -/
  | polling (capacity empty : ℕ)
  | reading (capacity empty : ℕ)
  /-- In front of the second `ctx.Err`. -/
  | checking
  | putting
  | allocating
  | storing
  | completing
  /-- `Put`, in front of the cleanup context. -/
  | authorizing (primary : Err ε)
  | aborting (primary : Err ε)
  /-- The end of the goroutine of `start`. -/
  | finishing (primary cleanup : Option (Err ε))
  | done
  /-- A slice out of range. -/
  | panicked

/-- **What a step does to others.** -/
inductive Action (ε : Type) where
  | read (data : Bytes) (err : Option (Err ε))
  | put (data : Bytes) (opts : Options)
  | allocate (opts : Options)
  /-- An upload id belongs to this upload. -/
  | adopted (uploadID : String)
  | part (uploadID : String) (number : ℕ) (data : Bytes)
  | stored (uploadID : String) (part : CompletePart) (data : Bytes)
  | complete (uploadID : String) (parts : List CompletePart) (opts : Options)
  | failed (reason : Reason ε)
  | abort (uploadID : String)
  | ended (outcome : Invocation.Outcome Data (Err ε))

/-- **What happens.** `added` is what contexts and responses add to an
error. -/
inductive Event (ε : Type) where
  /-- `Put`: whether it has a client and a context, whether it was given a
  cleanup context and an input, and what becomes of its call. -/
  | put (valid given : Bool) (refusal expired : Option (Err ε))
  | cancel (err : Err ε)
  | polled
  | read (data : Bytes) (err : Option (Err ε))
  /-- The reader claims to have read less than nothing, or more than was
  asked for. -/
  | broken
  | stored (info : UploadInfo) (err : Option (Err ε))
  | allocated (uploadID : String) (pages : List (Page ε)) (err : Option (Err ε))
  | partStored (etag : String) (err : Option (Err ε))
  | completed (info : UploadInfo) (err responseErr : Option (Err ε))
  | authorized (err : Option (Err ε)) (added : List (Option (Err ε)))
  | aborted (err : Option (Err ε)) (added : List (Option (Err ε)))
  | finished (wireErr closeErr : Option (Err ε)) (added : List (Option (Err ε)))

/-- **An upload.** -/
structure State (ε : Type) where
  buffer : ℕ
  /-- What the buffer has of the part that is read. -/
  held : Bytes
  eof : Bool
  completed : List CompletePart
  opts : Options
  ctxErr : Option (Err ε)
  data : Data
  call : Invocation.Call Data (Err ε)
  stage : Stage ε

/-- A state and the actions on the way to it. -/
abbrev Turn (ε : Type) := Reaction (State ε) (Action ε)

namespace State

variable (value : Source) (request : Request) (s : State ε)

def init : State ε where
  buffer := 0
  held := []
  eof := false
  completed := []
  opts := ⟨"", [], false, false, ""⟩
  ctxErr := none
  data := ⟨.new, none, false⟩
  call := .new "put"
  stage := .idle

def goto (stage : Stage ε) : State ε := { s with stage := stage }

def bytes : ℕ := s.data.transfer.bytes

def setTransfer (transfer : Transfer) : State ε :=
  { s with data := { s.data with transfer := transfer } }

/-- `upload` returns an error: an upload that exists is aborted. -/
def fail (reason : Reason ε) (actions : List (Action ε)) : Turn ε :=
  ⟨s.goto (if s.data.transfer.uploadID ≠ "" then .authorizing reason.err
    else .finishing (some reason.err) none), actions ++ [.failed reason]⟩

def publish (info : UploadInfo) (size : ℕ) : Turn ε :=
  ⟨{ s with
    data :=
      { transfer := { s.data.transfer with effect := .acknowledged, complete := true }
        object := some (info, size)
        complete := true }
    stage := .finishing none none }, []⟩

/-! ### Reading -/

/-- What may still come. -/
def remaining : ℤ :=
  let remaining : ℤ := value.maxTransferBytes - s.bytes
  if 0 ≤ request.size && request.size - s.bytes < remaining then request.size - s.bytes
  else remaining

/-- How much the next read asks for. -/
def capacity : ℤ :=
  if s.remaining value request < value.partBytes then s.remaining value request + 1
  else value.partBytes

/-- **`upload`, after `readInput`.** -/
def received (err : Option (Err ε)) (actions : List (Action ε)) : Turn ε :=
  let bytes := s.bytes + s.held.length
  let s := s.setTransfer { s.data.transfer with bytes := bytes }
  if value.maxTransferBytes < bytes then s.fail .tooLong actions
  else if 0 ≤ request.size && request.size < bytes then s.fail .tooBig actions
  else match err, isEOF err with
  | some err, false => s.fail (.input err) actions
  | _, eof =>
    let s := { s with eof := eof }
    if eof && 0 ≤ request.size && bytes ≠ request.size then s.fail .tooShort actions
    else ⟨s.goto .checking, actions⟩

/-- The head of the loop of `readInput`. -/
def readOn (capacity empty : ℕ) (actions : List (Action ε)) : Turn ε :=
  if s.held.length < capacity then ⟨s.goto (.polling capacity empty), actions⟩
  else s.received value request none actions

/-- The head of the loop of `upload`. -/
def next : Turn ε :=
  let capacity := s.capacity value request
  if 0 ≤ capacity && capacity ≤ s.buffer then
    ({ s with held := [] } : State ε).readOn value request capacity.toNat 0 []
  else ⟨s.goto .panicked, []⟩

/-- **`Put`**, up to its first read. -/
def put (valid given : Bool) (refusal expired : Option (Err ε)) : Option (Err ε) × Turn ε :=
  if valid = false then (some (failure .input "call" []), ⟨s, []⟩)
  else if given = false then (some (failure .input "put" []), ⟨s, []⟩)
  else match writeOptions value request with
  | .error err => (some err, ⟨s, []⟩)
  | .ok opts =>
    match refusal, expired with
    | some err, _ => (some err, ⟨s, []⟩)
    | none, some err =>
      (none, ⟨{ s with call := s.call.complete ⟨none, some err, []⟩, stage := .done },
        [.ended ⟨none, some err, []⟩]⟩)
    | none, none =>
      let staging : ℤ := min value.partBytes value.maxTransferBytes
      let staging := if 0 ≤ request.size then min staging request.size else staging
      (none, ({ s with buffer := staging.toNat + 1, opts := opts } : State ε).next value request)

/-- **`readInput`, after `Read`.** -/
def read (capacity empty : ℕ) (data : Bytes) (err : Option (Err ε)) : Turn ε :=
  let s := { s with held := s.held ++ data }
  match err with
  | some err => s.received value request (some err) [.read data (some err)]
  | none =>
    if data = [] then
      if 100 ≤ empty + 1 then
        s.received value request (some (.native .noProgress)) [.read data none]
      else s.readOn value request capacity (empty + 1) [.read data none]
    else s.readOn value request capacity 0 [.read data none]

/-! ### Sending -/

/-- **`upload`, after a part.** -/
def partDone (actions : List (Action ε)) : Turn ε :=
  if s.eof then
    ⟨(s.setTransfer { s.data.transfer with completionAttempted := true }).goto .completing,
      actions ++ [.complete s.data.transfer.uploadID s.completed s.opts]⟩
  else ⟨(s.next value request).state, actions ++ (s.next value request).actions⟩

/-- **`upload`, with an upload id.** -/
def sendPart (actions : List (Action ε)) : Turn ε :=
  if s.held = [] then s.partDone value request actions
  else if value.maxParts ≤ s.completed.length then s.fail .tooMany actions
  else ⟨s.goto .storing,
    actions ++ [.part s.data.transfer.uploadID (s.completed.length + 1) s.held]⟩

/-- **`upload`, with a part**: an object of its own, the first part of an
upload, or one of the others. -/
def send : Turn ε :=
  if s.data.transfer.uploadID = "" then
    let unknown := s.setTransfer { s.data.transfer with effect := .unknown }
    if s.eof then ⟨unknown.goto .putting, [.put s.held s.opts]⟩
    else ⟨unknown.goto .allocating, [.allocate s.opts.initial]⟩
  else s.sendPart value request []

def stored (info : UploadInfo) (err : Option (Err ε)) : Turn ε :=
  match err with
  | some err => s.fail (.answer err) []
  | none =>
    if confirms info.etag = false then s.fail .unconfirmed []
    else s.publish info s.held.length

/-- Only an id that belongs to this upload is adopted. -/
def adopt (uploadID : String) (owned : Bool) (err : Option (Err ε)) : Turn ε :=
  let s := if owned then s.setTransfer { s.data.transfer with uploadID := uploadID } else s
  let actions := if owned then [.adopted uploadID] else []
  match err with
  | some err => s.fail (.answer err) actions
  | none =>
    if s.data.transfer.uploadID = "" then s.fail .unconfirmed actions
    else s.sendPart value request actions

/-- **`upload`, after `NewMultipartUpload`.** -/
def allocated (uploadID : String) (pages : List (Page ε)) (err : Option (Err ε)) : Turn ε :=
  match pages with
  | [page] =>
    let (owned, allocationErr) := page.allocationIdentity value.bucket request.key uploadID
    s.adopt value request uploadID owned (Fault.joined [err, allocationErr])
  | _ =>
    s.fail
      (.answer (.join ([err, some (failure .protocol "upload-allocation" [])].reduceOption))) []

/-- **`upload`, after `PutObjectPart`.** -/
def partStored (etag : String) (err : Option (Err ε)) : Turn ε :=
  match err with
  | some err => s.fail (.answer err) []
  | none =>
    if confirms etag = false then s.fail .unconfirmed []
    else
      let part : CompletePart := ⟨s.completed.length + 1, etag⟩
      let transfer := s.data.transfer
      (({ s with completed := s.completed ++ [part] } : State ε).setTransfer
        { transfer with partsAcknowledged := transfer.partsAcknowledged + 1 }).partDone
          value request [.stored transfer.uploadID part s.held]

/-- **`upload`, after `CompleteMultipartUpload`.** -/
def completedWith (info : UploadInfo) (err responseErr : Option (Err ε)) : Turn ε :=
  match Fault.joined [err, responseErr] with
  | some err => s.fail (.answer err) []
  | none =>
    if !confirms info.etag || info.bucket ≠ value.bucket || info.key ≠ request.key then
      s.fail .unconfirmed []
    else s.publish info s.bytes

/-! ### The end -/

def authorized (primary : Err ε) (err : Option (Err ε)) (added : List (Option (Err ε))) : Turn ε :=
  match err with
  | none =>
    ⟨(s.setTransfer { s.data.transfer with abortAttempted := true }).goto (.aborting primary),
      [.abort s.data.transfer.uploadID]⟩
  | some err =>
    ⟨s.goto (.finishing (some primary) (nativeFailure .cleanup "abort" added (some err))), []⟩

def aborted (primary : Err ε) (err : Option (Err ε)) (added : List (Option (Err ε))) : Turn ε :=
  ⟨(s.setTransfer { s.data.transfer with abortAcknowledged := err.isNone }).goto
    (.finishing (some primary) (nativeFailure .cleanup "abort" added err)), []⟩

/-- **The end of the goroutine of `start`.** -/
def finished (primary cleanup wireErr closeErr : Option (Err ε)) (added : List (Option (Err ε))) :
    Turn ε :=
  let primary := nativeFailure .write "put" added primary
  let primary := if primary.isSome || wireErr.isSome
    then some (failure .write "put" (primary :: wireErr :: added)) else none
  let cleanup := if cleanup.isSome || closeErr.isSome
    then some (failure .cleanup "put" [cleanup, closeErr]) else none
  let outcome : Invocation.Outcome Data (Err ε) := ⟨some s.data, primary, cleanup.toList⟩
  ⟨{ s with call := s.call.complete outcome, stage := .done }, [.ended outcome]⟩

/-- **The step of the machine**, with its actions. -/
def turn : Event ε → Option (Turn ε)
  | .put valid given refusal expired =>
    match s.stage with
    | .idle => some (s.put value request valid given refusal expired).2
    | _ => none
  | .cancel err => if s.ctxErr.isSome then none else some ⟨{ s with ctxErr := some err }, []⟩
  | .polled =>
    match s.stage, s.ctxErr with
    | .polling capacity empty, none => some ⟨s.goto (.reading capacity empty), []⟩
    | .polling _ _, some err => some (s.received value request (some err) [])
    | .checking, none => some (s.send value request)
    | .checking, some err => some (s.fail (.context err) [])
    | _, _ => none
  | .read data err =>
    match s.stage with
    | .reading capacity empty =>
      if s.held.length + data.length ≤ capacity then
        some (s.read value request capacity empty data err)
      else none
    | _ => none
  | .broken =>
    match s.stage with
    | .reading _ _ => some (s.received value request (some (.code .input)) [])
    | _ => none
  | .stored info err =>
    match s.stage with
    | .putting => some (s.stored info err)
    | _ => none
  | .allocated uploadID pages err =>
    match s.stage with
    | .allocating => some (s.allocated value request uploadID pages err)
    | _ => none
  | .partStored etag err =>
    match s.stage with
    | .storing => some (s.partStored value request etag err)
    | _ => none
  | .completed info err responseErr =>
    match s.stage with
    | .completing => some (s.completedWith value request info err responseErr)
    | _ => none
  | .authorized err added =>
    match s.stage with
    | .authorizing primary => some (s.authorized primary err added)
    | _ => none
  | .aborted err added =>
    match s.stage with
    | .aborting primary => some (s.aborted primary err added)
    | _ => none
  | .finished wireErr closeErr added =>
    match s.stage with
    | .finishing primary cleanup => some (s.finished primary cleanup wireErr closeErr added)
    | _ => none

/-- **The machine.** -/
def machine : Mealy (State ε) (Event ε) (Action ε) := ⟨init, fun s l => s.turn value request l⟩

end State

end Upload

end Minio
