import Fathomry.Failure
import Mathlib.Algebra.Order.Group.Int
import Mathlib.Algebra.Ring.Int.Defs
import Mathlib.Data.List.Basic

/-!
# Pages of a partition

A page is what one fetch of a partition is cut down to: the visible records
from an offset on, and the offset the next page starts at. This module is
`fetchPage` with everything it asks of the cluster as an argument – the
metadata, the response to the fetch and, when the offset is out of range,
the response to the question which offsets there are. What `prepareFetch`
and the native parser make of the batches of a response comes in as a list
of records and the offset that follows them.

A context is read whenever the source reads it, so an exchange with the
cluster carries the context before and after.
-/

namespace Kafka

variable {ε : Type}

/-! ## Errors -/

inductive Kind where
  | input
  | unsupported
  | authority
  | connect
  | identity
  | produce
  | read
  | missing
  | unavailable
  | expired
  | limit
  | state
  | transaction
  | offsets
  | cleanup
deriving DecidableEq

/-- Errors of the native client: the two codes the package asks for by name,
and all others. -/
inductive Native (ε : Type) where
  | unknownTopicID
  | offsetOutOfRange
  | other (cause : ε)

abbrev Err (ε : Type) := Fault Kind Unit (Native ε)

abbrev Ctx (ε : Type) := Context Kind Unit (Native ε)

def failure (kind : Kind) (operation : String) (causes : List (Option (Err ε))) : Err ε :=
  .new kind operation "broker.franz.v1" () causes

def nativeFailure (kind : Kind) (operation : String) (ctx : Ctx ε) (err : Err ε) : Err ε :=
  failure kind operation [some err, ctx.err, ctx.cause]

def contextFailure (kind : Kind) (operation : String) (ctx : Ctx ε) : Err ε :=
  failure kind operation [ctx.err, ctx.cause]

/-- **An exchange with the cluster**: the context when the request is about
to be made, the answer, and the context once it is there. -/
structure Exchange (ε α : Type) where
  before : Ctx ε
  answer : Except (Native ε) α
  after : Ctx ε

/-! ## Options -/

/-- What is done when there is no offset to start at. -/
inductive OffsetPolicy where
  | error
  | earliest
  | latest
deriving DecidableEq

/-- The options of a source as they are given. -/
structure Limits where
  clusterID : String
  consumerGroup : String
  initialOffset : OffsetPolicy
  resetOffset : OffsetPolicy
  keyed : Bool
  maxRecords : ℤ
  maxRecordBytes : ℤ
  maxBatchBytes : ℤ
  maxAssignments : ℤ

/-- **The options of a source**: those that `validate` accepts. -/
structure Settings extends Limits where
  records_bound : 1 ≤ maxRecords ∧ maxRecords ≤ 4096
  record_bound : 1024 ≤ maxRecordBytes ∧ maxRecordBytes ≤ 4 * 2 ^ 20
  batch_bound : maxRecordBytes ≤ maxBatchBytes ∧ maxBatchBytes ≤ 16 * 2 ^ 20
  assignments_bound : 1 ≤ maxAssignments ∧ maxAssignments ≤ 4096

def validate (l : Limits) : Except (Err ε) Settings :=
  if h : (1 ≤ l.maxRecords ∧ l.maxRecords ≤ 4096)
      ∧ (1024 ≤ l.maxRecordBytes ∧ l.maxRecordBytes ≤ 4 * 2 ^ 20)
      ∧ (l.maxRecordBytes ≤ l.maxBatchBytes ∧ l.maxBatchBytes ≤ 16 * 2 ^ 20)
      ∧ (1 ≤ l.maxAssignments ∧ l.maxAssignments ≤ 4096) then
    .ok ⟨l, h.1, h.2.1, h.2.2.1, h.2.2.2⟩
  else .error (failure .input "options" [])

def maxInt64 : ℤ := 2 ^ 63 - 1

/-! ## Records -/

/-- `[16]byte`. -/
abbrev TopicID := BitVec 128

/-- `Topic`, as the metadata of the cluster has it. -/
structure Topic where
  id : TopicID
  partitions : ℤ
  leaders : List ℤ

/-- What a map of topics returns for a name it does not have. -/
instance : Inhabited Topic := ⟨⟨0, 0, []⟩⟩

/-- `map[string]Topic`. -/
abbrev Topics := String → Option Topic

/-- `Position`: a physical address. -/
structure Position where
  clusterID : String
  topic : String
  topicID : TopicID
  partition : ℤ
  offset : ℤ
deriving DecidableEq

instance : Inhabited Position := ⟨⟨"", "", 0, 0, 0⟩⟩

def Position.at (p : Position) (offset : ℤ) : Position := { p with offset := offset }

/-- A header, whose value may be nil. -/
structure Header where
  key : String
  value : Option (List UInt8)
deriving DecidableEq

/-- `kgo.Record`, as far as the package reads it. -/
structure NativeRecord where
  topic : String
  offset : ℤ
  control : Bool
  key : Option (List UInt8)
  value : Option (List UInt8)
  headers : List Header
  timestamp : ℤ
  leaderEpoch : ℤ
deriving DecidableEq

/-- `Record`: a record that callers get to see. -/
structure Record where
  position : Position
  key : Option (List UInt8)
  value : Option (List UInt8)
  headers : List Header
  timestamp : ℤ
  leaderEpoch : ℤ
deriving DecidableEq

/-- `len` of a byte slice that may be nil. -/
def lengthOf (bytes : Option (List UInt8)) : ℤ := (bytes.getD []).length

def nativeRecordSize (r : NativeRecord) : ℤ :=
  (r.topic.utf8ByteSize + lengthOf r.key + lengthOf r.value + 128)
    + (r.headers.map (fun h => h.key.utf8ByteSize + lengthOf h.value + 32)).sum

def Record.size (r : Record) : ℤ :=
  (r.position.topic.utf8ByteSize + lengthOf r.key + lengthOf r.value + 128)
    + (r.headers.map (fun h => h.key.utf8ByteSize + lengthOf h.value + 32)).sum

def freezeRecord (position : Position) (r : NativeRecord) : Record :=
  ⟨position, r.key, r.value, r.headers, r.timestamp, r.leaderEpoch⟩

def frozen (start : Position) (r : NativeRecord) : Record := freezeRecord (start.at r.offset) r

/-! ## Responses -/

/-- `kmsg.FetchResponseTopicPartition`, with `kerr.ErrorForCode` of its
code. The batches are not looked at here. -/
structure RawPartition (ε : Type) where
  partition : ℤ
  error : Option (Native ε)
  logStartOffset : ℤ
  highWatermark : ℤ
  lastStableOffset : ℤ

structure FetchResponse (ε : Type) where
  version : ℤ
  error : Option (Native ε)
  topics : List (TopicID × List (RawPartition ε))

/-- One partition of `kmsg.ListOffsetsResponse`. -/
structure ListedOffset (ε : Type) where
  partition : ℤ
  offset : ℤ
  error : Option (Native ε)

/-- `kmsg.ListOffsetsResponse`. -/
abbrev ListOffsetsResponse (ε : Type) := List (String × List (ListedOffset ε))

/-- What the native parser makes of the batches of a response. -/
structure Parsed (ε : Type) where
  err : Option (Native ε)
  records : List NativeRecord
  next : ℤ

/-- The answers `offsetFailure` gets. -/
structure RangeQuery (ε : Type) where
  listed : Exchange ε (ListOffsetsResponse ε)
  confirmed : Exchange ε (FetchResponse ε)

/-- **Everything `fetchPage` learns from the cluster.** -/
structure FetchReply (ε : Type) where
  metadata : Except (Err ε) Topics
  fetched : Exchange ε (FetchResponse ε)
  range : RangeQuery ε
  prepared : Except (Err ε) (Parsed ε)

def fetchPartition (position : Position) (x : Exchange ε (FetchResponse ε)) :
    Except (Err ε) (RawPartition ε) :=
  if x.before.isSome then .error (contextFailure .read "fetch" x.before)
  else
    match x.answer with
    | .error err => .error (nativeFailure .read "fetch" x.after (.native err))
    | .ok r =>
      if r.version ≠ 13 then .error (failure .unsupported "fetch-version" [])
      else
        match r.error, r.topics with
        | some err, _ => .error (failure .read "fetch" [some (.native err)])
        | none, [(topicID, [raw])] =>
          if topicID ≠ position.topicID then .error (failure .identity "fetch-topic" [])
          else if raw.partition ≠ position.partition then
            .error (failure .identity "fetch-partition" [])
          else .ok raw
        | none, _ => .error (failure .identity "fetch-topic" [])

/-- The offset a name lookup returns for a partition, or the error of
`operation`. -/
def listedOffset (operation : String) (causes : List (Option (Err ε))) (position : Position)
    (r : ListOffsetsResponse ε) : Except (Err ε) ℤ :=
  match r with
  | [(topic, [observed])] =>
    if topic ≠ position.topic then .error (failure .identity operation causes)
    else if observed.partition ≠ position.partition ∨ observed.offset < 0
        ∨ observed.error.isSome then
      .error (failure .read operation (causes ++ [observed.error.map .native]))
    else .ok observed.offset
  | _ => .error (failure .identity operation causes)

def RawPartition.ordered (raw : RawPartition ε) : Bool :=
  0 ≤ raw.logStartOffset ∧ raw.logStartOffset ≤ raw.lastStableOffset
    ∧ raw.lastStableOffset ≤ raw.highWatermark

/-- The end of `offsetFailure`: where an offset is, by confirmed
watermarks. -/
def offsetVerdict (position : Position) (original : Err ε) (raw : RawPartition ε) : Err ε :=
  if raw.error matches some .unknownTopicID then
    failure .identity "topic-incarnation" [some original, some (.native .unknownTopicID)]
  else if raw.error.isSome ∨ raw.ordered = false then
    failure .read "offset-range" [some original, raw.error.map .native]
  else if position.offset < raw.logStartOffset then
    failure .expired "log-start" [some original]
  else if raw.lastStableOffset ≤ position.offset then
    failure .unavailable "stable-offset" [some original]
  else failure .read "offset-range" [some original]

def offsetFailure (position : Position) (original : Err ε) (q : RangeQuery ε) : Err ε :=
  if q.listed.before.isSome then
    failure .read "offset-range" [some original, q.listed.before.err, q.listed.before.cause]
  else
    match q.listed.answer with
    | .error err => failure .read "offset-range" [some original, some (.native err)]
    | .ok r =>
      match listedOffset "offset-range" [some original] position r with
      | .error err => err
      | .ok offset =>
        match fetchPartition (position.at offset) q.confirmed with
        | .error err => failure .read "offset-range" [some original, some err]
        | .ok raw => offsetVerdict position original raw

/-! ## Pages -/

/-- `Range`: the offsets from `start.offset` up to `finish`. -/
structure Range where
  start : Position
  finish : ℤ

structure Page where
  records : List Record
  next : ℤ
  complete : Bool
  observed : Bool
  logStart : ℤ
  highWatermark : ℤ
  stable : ℤ

namespace Page

def new (next : ℤ) : Page := ⟨[], next, false, false, -1, -1, -1⟩

variable (page : Page)

def watermarks (raw : RawPartition ε) : Page :=
  { page with
    logStart := raw.logStartOffset
    highWatermark := raw.highWatermark
    stable := raw.lastStableOffset }

def observe : Page := { page with observed := true }

def cut (next : ℤ) : Page := { page with next := next }

def finish (next : ℤ) : Page := { page with next := next, complete := true }

def append (r : Record) : Page := { page with records := page.records ++ [r] }

end Page

variable (value : Settings) (interval : Range)

def reached (next : ℤ) (page : Page) : ℤ :=
  if page.next < next then min next interval.finish else page.next

/-- The end of `fetchPage`: all parsed records have been looked at. -/
def scanned (next : ℤ) (page : Page) : Page × Option (Err ε) :=
  ({ page with
      next := reached interval next page
      complete := interval.finish ≤ reached interval next page },
    if reached interval next page = interval.start.offset then
      some (failure .read "no-progress" [])
    else none)

/-- **The loop of `fetchPage`** over the parsed records, and what follows
it. -/
def scan (next : ℤ) : List NativeRecord → Page → ℤ → Page × Option (Err ε)
  | [], page, _ => scanned interval next page
  | r :: rest, page, total =>
    if interval.finish ≤ r.offset then (page.finish interval.finish, none)
    else if r.offset < interval.start.offset ∨ page.stable ≤ r.offset then
      (page, some (failure .read "record-offset" []))
    else if r.control then scan next rest page total
    else if page.records.length = value.maxRecords then (page.cut r.offset, none)
    else if value.maxRecordBytes < nativeRecordSize r then
      if 0 < page.records.length then (page.cut r.offset, none)
      else (page, some (failure .limit "record" []))
    else if value.maxBatchBytes - total < nativeRecordSize r then (page.cut r.offset, none)
    else scan next rest (page.append (frozen interval.start r)) (total + nativeRecordSize r)

/-- `fetchPage`, once the watermarks are in order. -/
def parsePage (page : Page) (x : FetchReply ε) : Page × Option (Err ε) :=
  match x.prepared with
  | .error err => (page, some err)
  | .ok parsed =>
    match parsed.err with
    | some err => (page, some (failure .read "decode" [some (.native err)]))
    | none =>
      if page.stable < parsed.next then (page, some (failure .read "scan-watermark" []))
      else scan value interval parsed.next parsed.records page 0

def readPage (page : Page) (x : FetchReply ε) (raw : RawPartition ε) : Page × Option (Err ε) :=
  match raw.error with
  | some .unknownTopicID =>
    (page, some (failure .identity "topic-incarnation" [some (.native .unknownTopicID)]))
  | some .offsetOutOfRange =>
    (page, some (offsetFailure interval.start (.native .offsetOutOfRange) x.range))
  | some err => (page, some (failure .read "fetch-partition" [some (.native err)]))
  | none =>
    if raw.ordered = false then (page, some (failure .read "watermarks" []))
    else if interval.start.offset < page.logStart then
      (page.observe, some (failure .expired "log-start" []))
    else if page.stable ≤ interval.start.offset then
      (page.observe, some (failure .unavailable "stable-offset" []))
    else parsePage value interval page.observe x

def fetchPage (x : FetchReply ε) : Page × Option (Err ε) :=
  match x.metadata with
  | .error err => (.new interval.start.offset, some err)
  | .ok topics =>
    if ((topics interval.start.topic).getD default).id ≠ interval.start.topicID then
      (.new interval.start.offset, some (failure .identity "topic-incarnation" []))
    else if (((topics interval.start.topic).getD default).leaders.length : ℤ)
        ≤ interval.start.partition then
      (.new interval.start.offset, some (failure .input "partition" []))
    else if interval.finish = interval.start.offset then
      ((Page.new interval.start.offset).finish interval.start.offset, none)
    else
      match fetchPartition interval.start x.fetched with
      | .error err => (.new interval.start.offset, some err)
      | .ok raw =>
        readPage value interval ((Page.new interval.start.offset).watermarks raw) x raw

end Kafka
