import Fathomry.Heap
import Fathomry.KafkaScan
import Fathomry.Machine
import Mathlib.Data.Finset.Insert
import Mathlib.Data.List.Sort

/-!
# A session of a consumer group

A session owns a membership of a consumer group. The native client calls it back
when partitions are assigned, revoked or lost; callers ask for the next page of
some partition and, when they are done with it, for a commit. `Next` and
`CommitBatch` do not run beside each other, but callbacks, the end of the
lifetime and `Close` run beside both, under one lock that is given back between
any two sections of an operation.

So every section asks again (`currentLocked`) whether the *revision* is still
the one the operation started with, and every callback counts it up. A page that
was handed out carries a token with the revision, the member and the generation
it was issued under; the partition keeps one token at a time, and a commit needs
the very token.

A commit goes through the native client, which shows the request to a guard
before it sends it. The guard looks at the token under the lock and gives the
lock back; what else it looks at is not of the session. The client sends the
request later, and may send it again, without the lock and without asking
anybody, so callbacks may come in between. What comes back decides: a
confirmation moves the cursor of the partition, anything else ends the
session.
-/

namespace Kafka

variable {ε : Type}

/-- `errors.Is(err, kind)`. -/
def isKind (kind : Kind) : Err ε → Bool
  | .occurrence k _ _ _ causes => k = kind || anyKind kind causes
  | .code k => k = kind
  | .join causes => anyKind kind causes
  | _ => false
where
  anyKind (kind : Kind) : List (Err ε) → Bool
    | [] => false
    | err :: errs => isKind kind err || anyKind kind errs

/-! ## Partitions and tokens -/

structure GroupKey where
  topic : String
  partition : ℤ
deriving DecidableEq

def GroupKey.le (a b : GroupKey) : Prop :=
  a.topic < b.topic ∨ a.topic = b.topic ∧ a.partition ≤ b.partition

instance : DecidableRel GroupKey.le := fun a b =>
  inferInstanceAs (Decidable (a.topic < b.topic ∨ a.topic = b.topic ∧ a.partition ≤ b.partition))

def Position.key (p : Position) : GroupKey := ⟨p.topic, p.partition⟩

/-- `groupPartition`. The token is known by its address. -/
structure GroupPartition where
  position : Position
  initialized : Bool
  pending : Option ℕ

instance : Inhabited GroupPartition := ⟨⟨default, false, none⟩⟩

/-- A partition without its token. -/
def GroupPartition.expire (p : GroupPartition) : GroupPartition := { p with pending := none }

/-- `map[groupKey]*groupPartition`. -/
structure Partitions where
  keys : List GroupKey
  cell : GroupKey → GroupPartition
  nodup : keys.Nodup

namespace Partitions

variable (m : Partitions)

def empty : Partitions := ⟨[], fun _ => default, List.nodup_nil⟩

def find (k : GroupKey) : Option GroupPartition := if k ∈ m.keys then some (m.cell k) else none

def insert (k : GroupKey) (p : GroupPartition) : Partitions where
  keys := List.insert k m.keys
  cell := Function.update m.cell k p
  nodup := m.nodup.insert

def erase (k : GroupKey) : Partitions where
  keys := m.keys.erase k
  cell := m.cell
  nodup := m.nodup.erase k

def expire : Partitions := { m with cell := fun k => (m.cell k).expire }

end Partitions

/-- `groupToken`, apart from the session it belongs to. -/
structure Token where
  revision : ℕ
  member : String
  generation : ℤ
  start : Position
  next : ℤ

/-- `GroupBatch`: a page and its token. -/
structure GroupBatch where
  page : Page
  token : Token

instance : Inhabited GroupBatch := ⟨⟨Page.new 0, ⟨0, "", 0, default, 0⟩⟩⟩

/-- The token a caller comes with: none, one of another session, or one of
this. -/
inductive TokenRef where
  | nil
  | foreign
  | own (a : ℕ)
deriving DecidableEq

inductive GroupEvent where
  | opening
  | assigned
  | revoked
  | lost
  | closed
deriving DecidableEq

/-! ## What the cluster answers -/

structure BoundsReply (ε : Type) where
  metadata : Except (Err ε) Topics
  listed : Exchange ε (ListOffsetsResponse ε)
  fetched : Exchange ε (FetchResponse ε)

/-- What `next` learns about a partition that has no cursor: the outcome of
`checkIdentity`, the committed offset if there is one, and the bounds. -/
structure InitialReply (ε : Type) where
  identity : Option (Err ε)
  checkpoint : Except (Err ε) (Option ℤ)
  bounds : BoundsReply ε

structure OffsetFetchResponse (ε : Type) where
  version : ℤ
  groups : List (String × List (TopicID × List (ℤ × Option (Native ε))))

structure CommitRequest where
  group : String
  member : String
  generation : ℤ
  instanceID : Option String
  topics : List (String × TopicID × List (ℤ × ℤ))

structure CommitResponse (ε : Type) where
  version : ℤ
  topics : List (TopicID × List (ℤ × Option (Native ε)))

def bounds (position : Position) (x : BoundsReply ε) : Except (Err ε) Page :=
  match x.metadata with
  | .error err => .error err
  | .ok topics =>
    if ((topics position.topic).getD default).id ≠ position.topicID ∨ position.partition < 0
        ∨ (((topics position.topic).getD default).leaders.length : ℤ) ≤ position.partition then
      .error (failure .identity "group-bounds" [])
    else if x.listed.before.isSome then
      .error (contextFailure .read "group-bounds" x.listed.before)
    else
      match x.listed.answer with
      | .error err => .error (nativeFailure .read "group-bounds" x.listed.after (.native err))
      | .ok r =>
        match listedOffset "group-bounds" [] position r with
        | .error err => .error err
        | .ok offset =>
          match fetchPartition (position.at offset) x.fetched with
          | .error err => .error err
          | .ok raw =>
            if raw.error.isSome ∨ raw.ordered = false then
              .error (failure .read "group-bounds" [raw.error.map .native])
            else .ok ((Page.new 0).watermarks raw).observe

def reset (policy : OffsetPolicy) (bounds : Page) (kind : Kind) : Except (Err ε) ℤ :=
  match policy with
  | .earliest => .ok bounds.logStart
  | .latest => .ok bounds.stable
  | .error => .error (failure kind "group-offset-policy" [])

def Page.excludes (bounds : Page) (offset : ℤ) : Bool :=
  offset < bounds.logStart || bounds.highWatermark < offset

def initialOffset (value : Settings) (position : Position) (x : InitialReply ε) :
    Except (Err ε) ℤ :=
  match x.identity with
  | some err => .error err
  | none =>
    match x.checkpoint with
    | .error err => .error err
    | .ok observed =>
      match bounds position x.bounds with
      | .error err => .error err
      | .ok b =>
        match observed with
        | none => reset value.initialOffset b .offsets
        | some next =>
          if b.excludes next then reset value.resetOffset b .expired else .ok next

/-- The error `commit` sees in what the native client hands it: an error, no
response, or a response. -/
def commitError (t : Token) (r : Except (Native ε) (Option (CommitResponse ε))) : Option (Err ε) :=
  match r with
  | .error err => some (.native err)
  | .ok none => some (failure .identity "group-commit-response" [])
  | .ok (some response) =>
    match response.topics with
    | [(topicID, [(partition, err)])] =>
      if response.version ≠ 10 ∨ topicID ≠ t.start.topicID ∨ partition ≠ t.start.partition then
        some (failure .identity "group-commit-response" [])
      else err.map (fun err => failure .offsets "group-commit-partition" [some (.native err)])
    | _ => some (failure .identity "group-commit-response" [])

def CommitRequest.matches (value : Settings) (t : Token) (r : CommitRequest) : Bool :=
  r.group = value.consumerGroup ∧ r.member = t.member ∧ r.generation = t.generation
    ∧ r.instanceID = none
    ∧ r.topics = [(t.start.topic, t.start.topicID, [(t.start.partition, t.next)])]

def validText (text : String) (limit : ℕ) : Bool :=
  text ≠ "" ∧ text.utf8ByteSize ≤ limit ∧ Char.ofNat 0 ∉ text.toList

/-! ## The session -/

/-- What an operation remembers of the snapshot it started with. -/
structure Snap where
  revision : ℕ
  member : String
  generation : ℤ

/-- The operations that exclude each other. -/
inductive GroupOperation where
  | next
  | commit (token : TokenRef)
  | wait

/-- Why a cursor is selected: there is none yet, or it is out of bounds. -/
inductive Selection where
  | initial
  | reset (bounds : Page)

/-- **Where the operation at work is.** -/
inductive Group.Stage (ε : Type) where
  | idle
  | entered (op : GroupOperation)
  | begun
  | chosen (snap : Snap) (position : Position) (initialized : Bool)
  | selecting (snap : Snap) (position : Position) (why : Selection)
  /-- `next` is about to ask whether it is current. -/
  | checking (snap : Snap) (position : Position)
  /-- `next` is about to fetch a page, perhaps for the second time. -/
  | fetching (snap : Snap) (position : Position) (again : Bool)
  /-- `next` is about to look where its cursor is. -/
  | bounding (snap : Snap) (position : Position) (err : Err ε)
  | fetched (snap : Snap) (position : Position) (page : Page)
  /-- `CommitBatch` has seen its token valid. -/
  | validated (a : ℕ)
  | committing (a : ℕ)
  /-- `commit`, in the native client. -/
  | submitting (a : ℕ)
  /-- The guard has let the request pass, and it has not been sent. -/
  | passed (a : ℕ)
  | sent (a : ℕ)
  | confirmed (a : ℕ)
  /-- `commit` does not know what has become of its request. -/
  | failing (a : ℕ) (err : Err ε)
  | leaving (err : Option (Err ε)) (batch : Option ℕ)

inductive Group.Runner where
  | waiting
  | draining
  | finished
deriving DecidableEq

/-- **`Group`.** The pages it has handed out are kept with their tokens, and
instead of the flag `active` there is the operation it stands for. -/
structure Group (ε : Type) where
  partitions : Partitions
  batches : Heap GroupBatch
  revision : ℕ
  event : GroupEvent
  member : String
  generation : ℤ
  ready : Bool
  closing : Bool
  closeRequested : Bool
  expectedOffsets : Finset (TopicID × ℤ)
  primary : Option (Err ε)
  nativeErrorCaptured : Bool
  lifetime : Ctx ε
  changed : ℕ
  roundRobin : ℕ
  stage : Group.Stage ε
  runner : Group.Runner

namespace Group

variable (value : Settings) (topics : Topics) (g : Group ε)

def new : Group ε where
  partitions := .empty
  batches := Heap.empty default
  revision := 0
  event := .opening
  member := ""
  generation := -1
  ready := false
  closing := false
  closeRequested := false
  expectedOffsets := ∅
  primary := none
  nativeErrorCaptured := false
  lifetime := none
  changed := 0
  roundRobin := 0
  stage := .idle
  runner := .waiting

def goto (stage : Stage ε) : Group ε := { g with stage := stage }

def quit (err : Err ε) : Group ε := g.goto (.leaving (some err) none)

def put (k : GroupKey) (p : GroupPartition) : Group ε :=
  { g with partitions := g.partitions.insert k p }

def fence : Group ε := { g with closing := true, ready := false }

/-- `primary`, unless there is one. -/
def blame (err : Err ε) : Group ε := { g with primary := g.primary.or (some err) }

def cancel : Group ε := { g with lifetime := g.lifetime.cancel none }

/-- The revision counts up, or the session ends. -/
def revise : Group ε :=
  if g.revision = maxUint64 then (g.fence.blame (failure .limit "group-revision" [])).cancel
  else { g with revision := increment g.revision }

def notifyLocked (event : GroupEvent) : Group ε :=
  { g.revise with event := event, changed := g.changed + 1 }

def failLocked (err : Err ε) : Group ε := ((g.blame err).fence.notifyLocked .lost).cancel

/-! ### Callbacks -/

/-- `assigned`, for one partition. -/
def place (k : GroupKey) : Except (Group ε) (Group ε) :=
  match topics k.topic with
  | none => .error (g.failLocked (failure .identity "group-assignment" []))
  | some expected =>
    if k.partition < 0 ∨ expected.partitions ≤ k.partition then
      .error (g.failLocked (failure .identity "group-assignment" []))
    else if k ∈ g.partitions.keys then
      .ok { g with expectedOffsets := Insert.insert (expected.id, k.partition) g.expectedOffsets }
    else if (g.partitions.keys.length : ℤ) = value.maxAssignments then
      .error ({ g with
          expectedOffsets := Insert.insert (expected.id, k.partition) g.expectedOffsets
        }.failLocked (failure .limit "group-assignments" []))
    else
      .ok ({ g with
          expectedOffsets := Insert.insert (expected.id, k.partition) g.expectedOffsets
        }.put k ⟨⟨value.clusterID, k.topic, expected.id, k.partition, 0⟩, false, none⟩)

def placeAll : List GroupKey → Group ε → Except (Group ε) (Group ε)
  | [], g => .ok g
  | k :: ks, g =>
    match g.place value topics k with
    | .error g' => .error g'
    | .ok g' => placeAll ks g'

def keysOf (added : List (String × List ℤ)) : List GroupKey :=
  added.flatMap (fun x => x.2.map (fun partition => ⟨x.1, partition⟩))

/-- The end of `assigned`. -/
def adopt (member : String) (generation : ℤ) : Group ε :=
  notifyLocked { g with
    partitions := g.partitions.expire
    member := member
    generation := generation
    ready := true } .assigned

def assigned (member : String) (generation : ℤ) (added : List (String × List ℤ)) : Group ε :=
  if g.closing then g
  else if validText member 512 = false ∨ generation < 0 then
    g.failLocked (failure .identity "group-member" [])
  else
    match placeAll value topics (keysOf added) g with
    | .error g' => g'
    | .ok g' => g'.adopt member generation

/-- `revoked`, for one partition. -/
def drop (k : GroupKey) : Group ε :=
  { g with
    partitions := g.partitions.erase k
    expectedOffsets := g.expectedOffsets.erase (((topics k.topic).getD default).id, k.partition) }

def revoked (removed : List (String × List ℤ)) : Group ε :=
  notifyLocked { (keysOf removed).foldl (drop topics) g with ready := false } .revoked

def lost : Group ε :=
  failLocked { g with partitions := .empty, expectedOffsets := ∅ } (failure .state "group-lost" [])

def onGroupManageError (err : Native ε) : Group ε :=
  if g.nativeErrorCaptured then g
  else
    { g with
      primary := some (failure .state "group-lost" [g.primary, some (.native err)])
      nativeErrorCaptured := true }

/-- The loop of `offsetsFetched` over the partitions of a response. -/
def offsetsError (expected : Finset (TopicID × ℤ)) :
    List (TopicID × ℤ × Option (Native ε)) → Finset (TopicID × ℤ) → Option (Err ε)
  | [], seen =>
    if seen.card ≠ expected.card then some (failure .offsets "group-offsets-incomplete" [])
    else none
  | (topicID, partition, err) :: rest, seen =>
    if (topicID, partition) ∉ expected ∨ (topicID, partition) ∈ seen then
      some (failure .identity "group-offsets" [])
    else
      match err with
      | some err => some (failure .offsets "group-offsets" [some (.native err)])
      | none => offsetsError expected rest (Insert.insert (topicID, partition) seen)

def fetchError (r : OffsetFetchResponse ε) : Option (Err ε) :=
  match r.groups with
  | [(name, fetched)] =>
    if r.version ≠ 10 ∨ name ≠ value.consumerGroup then
      some (failure .identity "group-offsets" [])
    else
      offsetsError g.expectedOffsets
        (fetched.flatMap (fun x => x.2.map (fun p => (x.1, p.1, p.2)))) ∅
  | _ => some (failure .identity "group-offsets" [])

def offsetsFetched (ctx : Ctx ε) (r : OffsetFetchResponse ε) : Group ε :=
  if ctx.isSome ∨ g.closing then g
  else
    match g.fetchError value r with
    | some err => g.failLocked err
    | none => { g with expectedOffsets := ∅ }

/-! ### The end of a session -/

/-- `Close`, under the lock. -/
def close : Group ε :=
  { g.fence with closeRequested := g.closeRequested || g.lifetime.isNone }

def expire (how : Cancellation Kind Unit (Native ε)) : Group ε :=
  { g with lifetime := g.lifetime.or (some how) }

/-- `run` sees the lifetime ended. -/
def drain : Group ε := { g.fence with runner := .draining }

/-- The error `run` completes with. -/
def finalError : Option (Err ε) :=
  if g.closeRequested then g.primary
  else g.primary.or (some (contextFailure .state "group-lifetime" g.lifetime))

def finish : Group ε :=
  notifyLocked { g with
    primary := g.finalError
    partitions := .empty
    ready := false
    runner := .finished } .closed

/-! ### Sections of operations -/

def active : Bool :=
  match g.stage with
  | .idle => false
  | _ => true

def enter (op : GroupOperation) : Group ε :=
  if g.closing ∨ g.active ∨ g.lifetime.isSome then g else g.goto (.entered op)

def leave : Group ε := g.goto .idle

def currentLocked (revision : ℕ) (position : Position) : Bool :=
  !g.closing && g.ready && g.lifetime.isNone && decide (g.revision = revision)
    && decide (position.key ∈ g.partitions.keys)

def assignments : List GroupKey := g.partitions.keys.insertionSort GroupKey.le

/-- The loop of `next`: at most `n` partitions are looked at in turn, and
the first without a page is chosen. -/
def choose (order : List GroupKey) : ℕ → ℕ → Option GroupKey × ℕ
  | 0, turn => (none, turn)
  | n + 1, turn =>
    let index := turn % order.length
    match order[index]? with
    | none => (none, turn)
    | some k =>
      if (g.partitions.cell k).pending.isNone then (some k, (index + 1) % order.length)
      else choose order n ((index + 1) % order.length)

/-- The first section of `next`. -/
def chosen : Group ε :=
  if (g.ready && !g.closing) = false ∨ g.assignments = [] then
    g.quit (failure .unavailable "group-assignment" [])
  else
    match g.choose g.assignments g.assignments.length g.roundRobin with
    | (none, turn) => { g with roundRobin := turn }.quit (failure .state "group-unprocessed" [])
    | (some k, turn) =>
      { g with roundRobin := turn }.goto
        (.chosen ⟨g.revision, g.member, g.generation⟩ (g.partitions.cell k).position
          (g.partitions.cell k).initialized)

def initial (snap : Snap) (position : Position) (x : InitialReply ε) : Group ε :=
  match initialOffset value position x with
  | .error err => g.quit err
  | .ok offset => g.goto (.selecting snap (position.at offset) .initial)

def Selection.after (snap : Snap) (position : Position) : Selection → Stage ε
  | .initial => .checking snap position
  | .reset _ => .fetching snap position true

def selectOffset (snap : Snap) (position : Position) (why : Selection) : Group ε :=
  if g.currentLocked snap.revision position = false then g.quit (failure .state "group-stale" [])
  else
    (g.put position.key ⟨position, true, (g.partitions.cell position.key).pending⟩).goto
      (Selection.after snap position why)

/-- `current`. -/
def check (snap : Snap) (position : Position) : Group ε :=
  if g.currentLocked snap.revision position = false then g.quit (failure .state "group-stale" [])
  else g.goto (.fetching snap position false)

def fetch (snap : Snap) (position : Position) (again : Bool) (x : FetchReply ε) : Group ε :=
  match fetchPage value ⟨position, maxInt64⟩ x with
  | (page, none) => g.goto (.fetched snap position page)
  | (_, some err) =>
    if again = false ∧ (isKind .expired err ∨ isKind .unavailable err) then
      g.goto (.bounding snap position err)
    else g.quit err

/-- `next` learns where its cursor is. -/
def bound (snap : Snap) (position : Position) (err : Err ε) (x : BoundsReply ε) : Group ε :=
  match bounds position x with
  | .error err => g.quit err
  | .ok b =>
    if b.excludes position.offset then
      match reset value.resetOffset b .expired with
      | .error err => g.quit err
      | .ok offset => g.goto (.selecting snap (position.at offset) (.reset b))
    else g.quit err

def tokenOf (snap : Snap) (position : Position) (page : Page) : Token :=
  ⟨snap.revision, snap.member, snap.generation, position, page.next⟩

/-- The last section of `next`. -/
def issue (snap : Snap) (position : Position) (page : Page) : Group ε :=
  if g.currentLocked snap.revision position = false then g.quit (failure .state "group-stale" [])
  else
    { g.put position.key ⟨position, true, some g.batches.next⟩ with
      batches := g.batches.alloc ⟨page, tokenOf snap position page⟩
      stage := .leaving none (some g.batches.next) }

def token (a : ℕ) : Token := (g.batches.cell a).token

def valid (a : ℕ) : Bool :=
  g.currentLocked (g.token a).revision (g.token a).start
    && decide ((g.partitions.cell (g.token a).start.key).pending = some a)
    && decide ((g.token a).member = g.member) && decide ((g.token a).generation = g.generation)

def validate (ref : TokenRef) : Group ε :=
  match ref with
  | .own a => if g.valid a then g.goto (.validated a) else g.quit (failure .state "group-stale" [])
  | _ => g.quit (failure .state "group-stale" [])

def guardError (a : ℕ) (ctx : Ctx ε) (r : CommitRequest) : Option (Err ε) :=
  if g.valid a = false then some (failure .state "group-stale" [])
  else if ctx.isSome then some (contextFailure .offsets "group-commit" ctx)
  else if r.matches value (g.token a) = false then
    some (failure .identity "group-commit-request" [])
  else none

def guard (a : ℕ) (ctx : Ctx ε) (r : CommitRequest) : Group ε :=
  match g.guardError value a ctx r with
  | some err => g.quit (nativeFailure .offsets "group-commit" ctx err)
  | none => g.goto (.passed a)

def reply (a : ℕ) (ctx : Ctx ε) (r : Except (Native ε) (Option (CommitResponse ε))) : Group ε :=
  match commitError (g.token a) r with
  | some err => g.goto (.failing a (nativeFailure .offsets "group-commit" ctx err))
  | none => g.goto (.confirmed a)

def confirm (a : ℕ) : Group ε :=
  if g.currentLocked (g.token a).revision (g.token a).start then
    (g.put (g.token a).start.key
      ⟨(g.partitions.cell (g.token a).start.key).position.at (g.token a).next,
        (g.partitions.cell (g.token a).start.key).initialized, none⟩).goto (.leaving none none)
  else g.goto (.leaving none none)

/-- **What happens to a session.** -/
inductive Event (ε : Type) where
  | assigned (member : String) (generation : ℤ) (added : List (String × List ℤ))
  | revoked (removed : List (String × List ℤ))
  | lost
  | manageError (err : Native ε)
  | offsetsFetched (ctx : Ctx ε) (r : OffsetFetchResponse ε)
  | close
  | expire (how : Cancellation Kind Unit (Native ε))
  | drain
  | finish
  | enter (op : GroupOperation)
  | begin (err : Option (Err ε))
  /-- The call is over before its body runs, or `Wait` is over. -/
  | refuse (err : Option (Err ε))
  | choose
  | initial (x : InitialReply ε)
  | select
  | check
  | fetch (x : FetchReply ε)
  | bound (x : BoundsReply ε)
  | issue
  | validate
  /-- `commit` has checked the identity of the cluster. -/
  | identify (err : Option (Err ε))
  | guard (ctx : Ctx ε) (r : CommitRequest)
  /-- The native client sends the request, perhaps not for the first time. -/
  | send
  /-- The native client gives up before it has a request. -/
  | abandon (ctx : Ctx ε) (err : Native ε)
  | reply (ctx : Ctx ε) (r : Except (Native ε) (Option (CommitResponse ε)))
  | confirm
  | fail
  | leave

/-- **The step of a session.** Replies to fetches are such as the native
parser can give. -/
def step : Event ε → Option (Group ε)
  | .assigned member generation added => some (g.assigned value topics member generation added)
  | .revoked removed => some (g.revoked topics removed)
  | .lost => some g.lost
  | .manageError err => some (g.onGroupManageError err)
  | .offsetsFetched ctx r => some (g.offsetsFetched value ctx r)
  | .close => some g.close
  | .expire how => some (g.expire how)
  | .drain => if g.lifetime.isSome ∧ g.runner = .waiting then some g.drain else none
  | .finish => if g.runner = .draining ∧ g.active = false then some g.finish else none
  | .enter op => some (g.enter op)
  | .begin err =>
    match g.stage, err with
    | .entered .next, none => some (g.goto .begun)
    | .entered .next, some err => some (g.quit err)
    | .entered .wait, some err => some (g.quit err)
    | .validated a, none => some (g.goto (.committing a))
    | .validated _, some err => some (g.quit err)
    | _, _ => none
  | .refuse err =>
    match g.stage with
    | .begun | .committing _ | .entered .wait => some (g.goto (.leaving err none))
    | _ => none
  | .choose =>
    match g.stage with
    | .begun => some g.chosen
    | _ => none
  | .initial x =>
    match g.stage with
    | .chosen snap position false => some (g.initial value snap position x)
    | _ => none
  | .select =>
    match g.stage with
    | .selecting snap position why => some (g.selectOffset snap position why)
    | _ => none
  | .check =>
    match g.stage with
    | .chosen snap position true | .checking snap position => some (g.check snap position)
    | _ => none
  | .fetch x =>
    match g.stage with
    | .fetching snap position again =>
      if x.Sound position.offset then some (g.fetch value snap position again x) else none
    | _ => none
  | .bound x =>
    match g.stage with
    | .bounding snap position err => some (g.bound value snap position err x)
    | _ => none
  | .issue =>
    match g.stage with
    | .fetched snap position page => some (g.issue snap position page)
    | _ => none
  | .validate =>
    match g.stage with
    | .entered (.commit ref) => some (g.validate ref)
    | _ => none
  | .identify err =>
    match g.stage, err with
    | .committing a, none => some (g.goto (.submitting a))
    | .committing _, some err => some (g.quit err)
    | _, _ => none
  | .guard ctx r =>
    match g.stage with
    | .submitting a => some (g.guard value a ctx r)
    | _ => none
  | .abandon ctx err =>
    match g.stage with
    | .submitting _ => some (g.quit (nativeFailure .offsets "group-commit" ctx (.native err)))
    | _ => none
  | .send =>
    match g.stage with
    | .passed a | .sent a => some (g.goto (.sent a))
    | _ => none
  | .reply ctx r =>
    match g.stage, r with
    | .sent a, r => some (g.reply a ctx r)
    | .passed a, .error err => some (g.reply a ctx (.error err))
    | _, _ => none
  | .confirm =>
    match g.stage with
    | .confirmed a => some (g.confirm a)
    | _ => none
  | .fail =>
    match g.stage with
    | .failing _ err => some ((g.failLocked err).quit err)
    | _ => none
  | .leave =>
    match g.stage with
    | .leaving _ _ => some g.leave
    | _ => none

/-- What `ConsumeGroup` returns: the native client could be built or not. -/
def init (built : Option (Err ε)) : Group ε :=
  match built with
  | none => new
  | some err => new.failLocked err

/-- **A session as a machine.** -/
def machine (built : Option (Err ε)) : Machine (Group ε) (Event ε) :=
  ⟨init built, fun g e => g.step value topics e⟩

end Group

end Kafka
