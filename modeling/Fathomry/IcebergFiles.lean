import Fathomry.Heap
import Fathomry.IcebergWriter

/-!
# A family of files

A `managedIO` opens readers and writers and closes all of them when it is
closed itself. Three locks are involved, which are never held together: the
mutex of a writer, which is held as long as an operation takes; the mutex of
the family, for a few lines at a time; and whatever the budget of the family
uses, behind the function `Check`. A step of the machine takes at most one of
them, so everything else may happen between two steps of a call.

Handles are numbered by the calls of `Create` and `Open`. `WriteFile`,
`ReadFile` and `ReadFrom` are made of the calls below; that they are counted
as active for themselves only makes `Close` wait longer, and is left out.
-/

namespace Iceberg

variable {ε : Type}

/-- What is opened. -/
inductive HandleKind where
  | writer
  | reader
deriving DecidableEq

/-- **Where a call of `Create` or `Open` is.** -/
inductive Opening (ε : Type) where
  /-- In `reserveHandle`, in front of the mutex. -/
  | claiming
  /-- In `reserveHandle`, in front of the budget. -/
  | claimed
  /-- In `reserve`, in front of the mutex. -/
  | reserving
  /-- In `reserve`, in front of the context and the budget. -/
  | reserved
  /-- `HeadObject`. -/
  | requesting
  | adding
  /-- In `releaseHandle`, in front of the mutex. -/
  | undoing (err : Err ε)
  /-- In `releaseHandle`, in front of the budget. -/
  | notifying (err : Err ε)
  | leaving (err : Err ε)

/-- **A reader**, with the number of its calls of `readAt` at each stage. -/
structure Reader where
  closed : Bool
  begun : ℕ
  /-- In `reserve`, in front of the mutex. -/
  started : ℕ
  /-- In `reserve`, in front of the context and the budget. -/
  reserved : ℕ
  fetching : ℕ
  /-- A `Close` is in front of the budget, and whether it is the family's. -/
  notifying : Option Bool
  /-- `Open` is in front of its `done`. -/
  opening : Bool

/-- `active.Wait` would return. -/
def Reader.idle (r : Reader) : Bool :=
  r.begun = 0 && r.started = 0 && r.reserved = 0 && r.fetching = 0

/-- **What has become of a call.** -/
inductive Entry (ε : Type) where
  | opening (kind : HandleKind) (stage : Opening ε)
  /-- A writer, and whether `Create` is still in front of its `done`. -/
  | writer (w : Writer ε) (opening : Bool)
  | reader (r : Reader)
  | gone

inductive Progress where
  | running
  /-- The handles that are to be shut down. -/
  | shutting (rest : List ℕ)
  | returned
deriving DecidableEq

/-- **A family.** -/
structure Files (ε : Type) where
  closed : Bool
  ctxErr : Option (Err ε)
  ops : ℕ
  bytes : ℕ
  openFiles : ℤ
  handles : Finset ℕ
  active : ℤ
  entries : Heap (Entry ε)
  progress : Progress

/-- **What happens.** `check` is the answer of the budget. -/
inductive FilesEvent (ε : Type) where
  | cancel (err : Err ε)
  /-- `Create` or `Open`, and what they think of the address. -/
  | begin (kind : HandleKind) (refusal : Option (Err ε))
  | claim (k : ℕ)
  | claimed (k : ℕ) (check : Option (Err ε))
  | reserve (k : ℕ)
  /-- `reserve`, with the context and the budget. -/
  | answer (k : ℕ) (check : Option (Err ε))
  | headed (k : ℕ) (err : Option (Err ε))
  | add (k : ℕ)
  /-- `releaseHandle`, with the mutex; of a reader it may be called by the
  family. -/
  | release (k : ℕ) (family : Bool)
  /-- `releaseHandle`, with the budget. -/
  | notify (k : ℕ)
  | leave (k : ℕ)
  | start (k : ℕ)
  /-- Whatever a writer does without its family. -/
  | writer (k : ℕ) (event : WriterEvent ε)
  | read (k : ℕ)
  | readStart (k : ℕ)
  | readNothing (k : ℕ)
  | readReserve (k bytes : ℕ)
  | readAnswer (k : ℕ) (check : Option (Err ε))
  | readDone (k : ℕ)
  | closeReader (k : ℕ)
  /-- `Close` of the family, which goes over its handles in some order. -/
  | close (order : List ℕ)
  /-- The next handle is shut down. -/
  | settled
  /-- `active.Wait` returns. -/
  | joined

namespace Files

/-- A family and what it has done to each handle. -/
abbrev Turn (ε : Type) := Reaction (Files ε) (ℕ × Action ε)

variable (config : Config) (s : Files ε)

/-- `newManagedIO`. -/
def init : Files ε := ⟨false, none, 0, 0, 0, ∅, 0, .empty .gone, .running⟩

def start : Option (Err ε) := if s.closed then some errClosed else s.ctxErr

def reserve (bytes : ℕ) (request : Bool) : Except (Err ε) (Files ε) :=
  if s.closed then .error errClosed
  else if config.maxIOBytes - s.bytes < bytes || (request && config.maxFileOps ≤ s.ops) then
    .error (failure .limit "file-io-budget")
  else .ok { s with bytes := s.bytes + bytes, ops := if request then s.ops + 1 else s.ops }

def put (k : ℕ) (entry : Entry ε) : Files ε := { s with entries := s.entries.set k entry }

def step (k : ℕ) (entry : Entry ε) (actions : List (Action ε)) : Turn ε :=
  ⟨s.put k entry, actions.map (fun a => (k, a))⟩

/-! ### Opening -/

/-- **`Create` and `Open`**, up to `start`. -/
def begin (kind : HandleKind) (refusal : Option (Err ε)) : Option (Err ε) × Turn ε :=
  if kind = .writer && !config.allowWrite then
    (some (failure .authority "file-write"), ⟨s, []⟩)
  else match refusal, s.start with
  | some err, _ => (some err, ⟨s, []⟩)
  | none, some err => (some err, ⟨s, []⟩)
  | none, none =>
    (none, ⟨{ s with
      active := s.active + 1
      entries := s.entries.alloc (.opening kind .claiming) }, []⟩)

/-- `reserveHandle`, with the mutex. -/
def claim (k : ℕ) (kind : HandleKind) : Turn ε :=
  if s.closed then s.step k (.opening kind (.leaving errClosed)) []
  else if config.maxOpenFiles ≤ s.openFiles then
    s.step k (.opening kind (.leaving (failure .limit "open-files"))) []
  else ({ s with openFiles := s.openFiles + 1 } : Files ε).step k (.opening kind .claimed) []

/-- `reserveHandle`, with the budget. -/
def claimed (k : ℕ) (kind : HandleKind) (check : Option (Err ε)) : Turn ε :=
  match check with
  | some err =>
    ({ s with openFiles := s.openFiles - 1 } : Files ε).step k (.opening kind (.leaving err)) []
  | none => s.step k (.opening kind .reserving) [.claim]

/-- `Create` reserves nothing, and `Open` a request. -/
def reserveOpening (k : ℕ) (kind : HandleKind) : Turn ε :=
  match s.reserve config 0 (kind = .reader) with
  | .error err => s.step k (.opening kind (.undoing err)) []
  | .ok s => s.step k (.opening kind .reserved) []

/-- `Open` asks for the object. -/
def answer (k : ℕ) (kind : HandleKind) (check : Option (Err ε)) : Turn ε :=
  match s.ctxErr.or check, kind with
  | some err, _ => s.step k (.opening kind (.undoing err)) []
  | none, .writer => s.step k (.opening kind .adding) []
  | none, .reader => s.step k (.opening kind .requesting) [.request .head]

def add (k : ℕ) (kind : HandleKind) : Turn ε :=
  if s.closed then s.step k (.opening kind (.undoing errClosed)) []
  else
    let s := { s with handles := insert k s.handles }
    match kind with
    | .writer => s.step k (.writer .init true) []
    | .reader => s.step k (.reader ⟨false, 0, 0, 0, 0, none, true⟩) []

/-! ### Handles -/

def move (k : ℕ) (w : Writer ε) (opening : Bool) (event : WriterEvent ε) : Option (Turn ε) :=
  (w.turn config event).map (fun t => s.step k (.writer t.state opening) t.actions)

def unlist (k : ℕ) : Files ε :=
  { s with handles := s.handles.erase k, openFiles := s.openFiles - 1 }

def startWriter (k : ℕ) (w : Writer ε) (opening : Bool) : Option (Turn ε) :=
  ({ s with active := if s.start.isNone then s.active + 1 else s.active } : Files ε).move config k w
    opening (.started s.start)

/-- `reserve` by a writer, with the mutex. -/
def reserveWriter (k : ℕ) (w : Writer ε) (opening : Bool) : Option (Turn ε) :=
  match w.stage with
  | .reserving op task =>
    match s.reserve config (Task.bytes op task) op.request with
    | .error err => s.move config k w opening (.admitted (some err))
    | .ok s => s.move config k w opening (.admitted none)
  | _ => none

/-- The budget answers a writer, and in `reserve` the context does so
first. -/
def answerWriter (k : ℕ) (w : Writer ε) (opening : Bool) (check : Option (Err ε)) :
    Option (Turn ε) :=
  match w.stage with
  | .claiming _ => s.move config k w opening (.answered check)
  | _ => s.move config k w opening (.answered (s.ctxErr.or check))

/-- What a writer does without its family. Only `shutdown` may be called
before `Create` has returned. -/
def writer (k : ℕ) (w : Writer ε) (opening : Bool) (event : WriterEvent ε) : Option (Turn ε) :=
  match event with
  | .started _ | .admitted _ | .answered _ | .released | .notified => none
  | .write _ | .close => if opening then none else s.move config k w opening event
  | .left => ({ s with active := s.active - 1 } : Files ε).move config k w opening event
  | event => s.move config k w opening event

def shuttingDown (k : ℕ) : Bool :=
  match s.progress with
  | .shutting (j :: _) => j = k
  | _ => false

/-- **`releaseHandle`, with the mutex.** A handle that is not there has been
released. -/
def release (k : ℕ) (family : Bool) : Entry ε → Option (Turn ε)
  | .opening kind (.undoing err) =>
    some (({ s with openFiles := s.openFiles - 1 } : Files ε).step k
      (.opening kind (.notifying err)) [])
  | .writer w opening =>
    match w.stage with
    | .releasing =>
      if k ∈ s.handles then s.unlist k |>.move config k w opening .released
      else some (s.step k (.writer (w.goto .free) opening) [])
    | _ => none
  | .reader r =>
    if r.closed && r.idle && k ∈ s.handles && (!family || s.shuttingDown k) then
      some ((s.unlist k).step k (.reader { r with notifying := some family }) [])
    else none
  | _ => none

/-- **`releaseHandle`, with the budget.** -/
def notify (k : ℕ) : Entry ε → Option (Turn ε)
  | .opening kind (.notifying err) => some (s.step k (.opening kind (.leaving err)) [.unclaim])
  | .writer w opening => s.move config k w opening .notified
  | .reader r =>
    if r.notifying.isSome then some (s.step k (.reader { r with notifying := none }) [.unclaim])
    else none
  | _ => none

/-- `done`, by `Create` or `Open`. -/
def leave (k : ℕ) : Entry ε → Option (Turn ε)
  | .opening _ (.leaving err) =>
    some (({ s with active := s.active - 1 } : Files ε).step k .gone [.refused err])
  | .writer w true =>
    some (({ s with active := s.active - 1 } : Files ε).step k (.writer w false) [])
  | .reader r =>
    if r.opening then
      some (({ s with active := s.active - 1 } : Files ε).step k
        (.reader { r with opening := false })
        [])
    else none
  | _ => none

/-! ### Readers -/

/-- `readAt`, with the mutex of the reader. -/
def read (k : ℕ) (r : Reader) : Option (Turn ε) :=
  if r.closed || r.opening then none
  else some (s.step k (.reader { r with begun := r.begun + 1 }) [])

def readStart (k : ℕ) (r : Reader) : Option (Turn ε) :=
  if r.begun = 0 then none
  else
    let r := { r with begun := r.begun - 1 }
    match s.start with
    | some _ => some (s.step k (.reader r) [])
    | none =>
      some (({ s with active := s.active + 1 } : Files ε).step k
        (.reader { r with started := r.started + 1 }) [])

def readNothing (k : ℕ) (r : Reader) : Option (Turn ε) :=
  if r.started = 0 then none
  else some (({ s with active := s.active - 1 } : Files ε).step k
    (.reader { r with started := r.started - 1 }) [])

/-- `readAt`, in `reserve` with the mutex. -/
def readReserve (k bytes : ℕ) (r : Reader) : Option (Turn ε) :=
  if r.started = 0 then none
  else
    let r := { r with started := r.started - 1 }
    match s.reserve config bytes true with
    | .error _ => some (({ s with active := s.active - 1 } : Files ε).step k (.reader r) [])
    | .ok s => some (s.step k (.reader { r with reserved := r.reserved + 1 }) [])

def readAnswer (k : ℕ) (r : Reader) (check : Option (Err ε)) : Option (Turn ε) :=
  if r.reserved = 0 then none
  else
    let r := { r with reserved := r.reserved - 1 }
    match s.ctxErr.or check with
    | some _ => some (({ s with active := s.active - 1 } : Files ε).step k (.reader r) [])
    | none => some (s.step k (.reader { r with fetching := r.fetching + 1 }) [.request .get])

def readDone (k : ℕ) (r : Reader) : Option (Turn ε) :=
  if r.fetching = 0 then none
  else some (({ s with active := s.active - 1 } : Files ε).step k
    (.reader { r with fetching := r.fetching - 1 }) [])

/-! ### Closing -/

/-- `shutdown` of a handle returns. That of a reader returns as well if
somebody else is about to tell the budget. -/
def isSettled (k : ℕ) : Entry ε → Bool
  | .writer w _ =>
    match w.stage with
    | .free => w.closed
    | _ => false
  | .reader r => r.closed && r.idle && k ∉ s.handles && r.notifying ≠ some true
  | _ => false

def close (order : List ℕ) : Option (Turn ε) :=
  if s.progress = .running && order.toFinset = s.handles && order.Nodup then
    some ⟨{ s with
      closed := true
      ctxErr := s.ctxErr.or (some .canceled)
      progress := .shutting order }, []⟩
  else none

def reader (k : ℕ) : Option Reader :=
  match s.entries.cell k with
  | .reader r => some r
  | _ => none

/-- **The step of the machine for one handle.** -/
def handle (k : ℕ) : FilesEvent ε → Option (Turn ε)
  | .claim _ => match s.entries.cell k with
    | .opening kind .claiming => some (s.claim config k kind)
    | _ => none
  | .claimed _ check => match s.entries.cell k with
    | .opening kind .claimed => some (s.claimed k kind check)
    | _ => none
  | .reserve _ => match s.entries.cell k with
    | .opening kind .reserving => some (s.reserveOpening config k kind)
    | .writer w opening => s.reserveWriter config k w opening
    | _ => none
  | .answer _ check => match s.entries.cell k with
    | .opening kind .reserved => some (s.answer k kind check)
    | .writer w opening => s.answerWriter config k w opening check
    | _ => none
  | .headed _ err => match s.entries.cell k, err with
    | .opening kind .requesting, none => some (s.step k (.opening kind .adding) [])
    | .opening kind .requesting, some err => some (s.step k (.opening kind (.undoing err)) [])
    | _, _ => none
  | .add _ => match s.entries.cell k with
    | .opening kind .adding => some (s.add k kind)
    | _ => none
  | .release _ family => s.release config k family (s.entries.cell k)
  | .notify _ => s.notify config k (s.entries.cell k)
  | .leave _ => s.leave k (s.entries.cell k)
  | .start _ => match s.entries.cell k with
    | .writer w opening => s.startWriter config k w opening
    | _ => none
  | .writer _ event => match s.entries.cell k with
    | .writer w opening => s.writer config k w opening event
    | _ => none
  | .read _ => (s.reader k).bind (s.read k)
  | .readStart _ => (s.reader k).bind (s.readStart k)
  | .readNothing _ => (s.reader k).bind (s.readNothing k)
  | .readReserve _ bytes => (s.reader k).bind (s.readReserve config k bytes)
  | .readAnswer _ check => (s.reader k).bind (fun r => s.readAnswer k r check)
  | .readDone _ => (s.reader k).bind (s.readDone k)
  | .closeReader _ => (s.reader k).bind (fun r =>
      some (s.step k (.reader { r with closed := true }) []))
  | _ => none

def FilesEvent.handle : FilesEvent ε → Option ℕ
  | .claim k | .claimed k _ | .reserve k | .answer k _ | .headed k _ | .add k | .release k _
  | .notify k | .leave k | .start k | .writer k _ | .read k | .readStart k | .readNothing k
  | .readReserve k _ | .readAnswer k _ | .readDone k | .closeReader k => some k
  | _ => none

/-- **The step of the machine**, with its actions. -/
def turn (l : FilesEvent ε) : Option (Turn ε) :=
  match l, FilesEvent.handle l with
  | l, some k => if k < s.entries.next then s.handle config k l else none
  | .cancel err, _ =>
    if s.ctxErr.isSome then none else some ⟨{ s with ctxErr := some err }, []⟩
  | .begin kind refusal, _ => some (s.begin config kind refusal).2
  | .close order, _ => s.close order
  | .settled, _ =>
    match s.progress with
    | .shutting (k :: rest) =>
      if s.isSettled k (s.entries.cell k) then some ⟨{ s with progress := .shutting rest }, []⟩
      else none
    | _ => none
  | .joined, _ =>
    if s.progress = .shutting [] && s.active = 0 then
      some ⟨{ s with progress := .returned }, []⟩
    else none
  | _, _ => none

/-- **The machine.** -/
def machine : Mealy (Files ε) (FilesEvent ε) (ℕ × Action ε) :=
  ⟨init, fun s l => s.turn config l⟩

end Files

end Iceberg
