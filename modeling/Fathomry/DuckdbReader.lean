import Fathomry.Bytes
import Fathomry.Failure
import Fathomry.Mealy

/-!
# Readers of a result

A `Reader` owns a result of the native driver and hands it out in chunks. A
chunk has a limit on its rows and one on its bytes, and so has the whole. A
row that is too long for what is left of a chunk has already been taken from
the driver when this is known: it is kept for the next chunk, which it opens.

At a limit of the whole another row is asked for although it could not be
delivered: if there is none the result was complete.

`Next` holds the mutex of the reader as long as it takes, and a call that
meets another one is refused and changes nothing. So a call of `Next` is one
step. The contexts may end at any time, and the driver may fail at any time:
what they say is a `Moment` for every round of the loop.
-/

namespace Duckdb

variable {ε : Type}

inductive Kind where
  | input
  | unsupported
  | limit
  | native
  | state
  | cleanup
deriving DecidableEq

abbrev Err (ε : Type) := Fault Kind Unit ε

abbrev Ctx (ε : Type) := Context Kind Unit ε

def providerID : String := "sqlengine.duckdb.v2"

def failure (kind : Kind) (operation : String) (causes : List (Option (Err ε))) : Err ε :=
  .new kind operation providerID () causes

def joined (kind : Kind) (operation : String) (causes : List (Option (Err ε))) : Option (Err ε) :=
  if causes.any Option.isSome then some (failure kind operation causes) else none

/-- **The settings of a reader**, as `validate` lets them through. -/
structure Config where
  readerChunkRows : ℕ
  readerChunkBytes : ℤ
  readerTotalRows : ℕ
  readerTotalBytes : ℤ
  chunkRows_pos : 1 ≤ readerChunkRows
  chunkRows_le : readerChunkRows ≤ 8192
  le_chunkBytes : 1024 ≤ readerChunkBytes
  chunkBytes_le : readerChunkBytes ≤ 64 * 2 ^ 20
  totalRows_pos : 1 ≤ readerTotalRows
  totalRows_le : readerTotalRows ≤ 1000000000
  le_totalBytes : 1024 ≤ readerTotalBytes
  totalBytes_le : readerTotalBytes ≤ 2 ^ 40

def maxColumns : ℕ := 64

/-! ## Values -/

/-- **A value of the driver.** -/
inductive Value where
  | null
  /-- A boolean, an integer, a float, a UUID or an interval, by its bits. -/
  | fixed (bits : ℕ)
  /-- `time.Time`, in nanoseconds since 1970. -/
  | time (nanos : ℤ)
  /-- A string, which may be no text. -/
  | text (data : Bytes)
  | blob (data : Bytes)
  | bigInt (n : Option ℤ)
  | decimal (width scale : ℕ) (n : Option ℤ)
  | other
deriving DecidableEq

abbrev Row := List Value

structure Column where
  name : String
  type : String
deriving DecidableEq

/-- The years 1 to 9999 of UTC. -/
def yearInRange (nanos : ℤ) : Bool :=
  -62135596800 * 10 ^ 9 ≤ nanos && nanos < 253402300800 * 10 ^ 9

/-- `finiteTimestampNS`: it is an `int64` and, says the binding, finite. -/
def finiteTimestampNS (isFinite : ℤ → Bool) (nanos : ℤ) : Bool :=
  -2 ^ 63 ≤ nanos && nanos < 2 ^ 63 && isFinite nanos

def scalarSize : Value → Except (Err ε) ℤ
  | .null | .fixed _ => .ok 48
  | .time nanos =>
    if yearInRange nanos then .ok 64 else .error (failure .unsupported "time-range" [])
  | .text data =>
    if (String.fromUTF8? ⟨data.toArray⟩).isSome then .ok (data.length + 48)
    else .error (failure .input "utf8" [])
  | .blob data => .ok (data.length + 48)
  | .bigInt (some n) =>
    if n.natAbs < 2 ^ 128 then .ok 96 else .error (failure .input "integer-range" [])
  | .bigInt none => .error (failure .input "integer-range" [])
  | .decimal width scale (some n) =>
    if 1 ≤ width && width ≤ 38 && scale ≤ width && n.natAbs < 2 ^ 127 && n.natAbs < 10 ^ width then
      .ok 128
    else .error (failure .input "decimal" [])
  | .decimal _ _ none => .error (failure .input "decimal" [])
  | .other => .error (failure .unsupported "value-type" [])

def resultScalarSize (isFinite : ℤ → Bool) (value : Value) (typeName : String) : Except (Err ε) ℤ :=
  match value with
  | .time nanos =>
    if typeName = "TIMESTAMP_NS" && !finiteTimestampNS isFinite nanos then
      .error (failure .unsupported "timestamp-sentinel" [])
    else scalarSize (.time nanos)
  | value => scalarSize value

def plainTypes : List String :=
  ["BOOLEAN", "TINYINT", "SMALLINT", "INTEGER", "BIGINT", "UTINYINT", "USMALLINT", "UINTEGER",
    "UBIGINT", "FLOAT", "DOUBLE", "VARCHAR", "BLOB", "UUID", "DATE", "TIMESTAMP", "TIMESTAMP_S",
    "TIMESTAMP_MS", "TIMESTAMP_NS", "TIMESTAMPTZ", "INTERVAL", "HUGEINT", "UHUGEINT", "ENUM",
    "SQLNULL"]

def queryType (name : String) : Bool :=
  name ∈ plainTypes ||
    (let chars := name.toList
    "DECIMAL(".toList.isPrefixOf chars && chars.getLast? = some ')' &&
      ((chars.drop 8).dropLast).all (fun c => c ∉ ['(', ')', '[', ']', ' ']))

/-! ## Setup -/

/-- What the columns of a result come to. -/
structure Schema (ε : Type) where
  columns : List Column
  bytes : ℤ
  limited : Bool
  err : Option (Err ε)

def Schema.read (config : Config) (s : Schema ε) : List Column → Schema ε
  | [] => s
  | column :: rest =>
    if !queryType column.type then
      { s with err := some (failure .unsupported "result-type" []) }
    else
      let size : ℤ := (column.name.utf8ByteSize + column.type.utf8ByteSize : ℕ) + 64
      if min config.readerChunkBytes config.readerTotalBytes - s.bytes < size then
        { s with limited := true, err := some (failure .limit "reader-metadata" []) }
      else
        Schema.read config { s with columns := s.columns ++ [column], bytes := s.bytes + size } rest

/-- **`open`**, after the query. -/
def openSchema (config : Config) (columns : List Column) : Schema ε :=
  if maxColumns < columns.length then ⟨[], 0, false, some (failure .limit "columns" [])⟩
  else Schema.read config ⟨[], 0, false, none⟩ columns

structure Progress where
  chunk : ℕ
  offset : ℕ
  rows : ℕ
  bytes : ℤ
  totalRows : ℕ
  totalBytes : ℤ
  closed : Bool

/-- **A reader**, with the rows that the driver has for it. -/
structure Reader (ε : Type) where
  /-- `Read` has returned. -/
  ready : Bool
  rest : List Row
  columns : List Column
  metadataBytes : ℤ
  pending : Option (Row × ℤ)
  progress : Progress
  complete : Bool
  limited : Bool
  cleanup : Option (Err ε)

/-- **The receipt of a call of `Next`.** -/
structure Receipt (ε : Type) where
  progress : Progress
  rows : List Row
  complete : Bool
  limited : Bool
  primary : Option (Err ε)
  cleanup : Option (Err ε)

inductive Action (ε : Type) where
  | refused (err : Err ε)
  /-- The driver has reported the end of the result, and whether a context
  had ended by then. -/
  | reached (ended : Bool)
  | receipt (r : Receipt ε)
  /-- The receipt of the reader itself. -/
  | terminal (progress : Progress) (complete limited : Bool) (primary cleanup : Option (Err ε))

/-- **What a round of `consume` is told.** `reply` is an error of the driver;
without it there is a row or the end of the result. -/
structure Moment (ε : Type) where
  ctx : Ctx ε
  life : Ctx ε
  reply : Option ε
  /-- The contexts after the driver has answered. -/
  ctxAfter : Ctx ε
  lifeAfter : Ctx ε

namespace Moment

variable (m : Moment ε)

def ended : Bool := m.ctxAfter.isSome || m.lifeAfter.isSome

def interrupted (native : Option (Err ε)) : Option (Err ε) :=
  joined .native "reader-consume"
    [native, m.ctxAfter.err, m.ctxAfter.cause, m.lifeAfter.err, m.lifeAfter.cause]

end Moment

structure Consumed (ε : Type) where
  reader : Reader ε
  rows : List Row
  err : Option (Err ε)
  reached : Option Bool

abbrev Turn (ε : Type) := Reaction (Reader ε) (Action ε)

namespace Reader

variable (isFinite : ℤ → Bool) (config : Config) (r : Reader ε)

def init (stream : List Row) : Reader ε :=
  ⟨false, stream, [], 0, none, ⟨0, 0, 0, 0, 0, 0, false⟩, false, false, none⟩

/-- **`finish`**, and what the native objects say when they are closed. -/
def finish (primary cleanup : Option (Err ε)) : Turn ε :=
  if r.progress.closed then ⟨r, []⟩
  else
    let r := { r with
      cleanup := cleanup
      pending := none
      progress := { r.progress with closed := true } }
    ⟨r, [.terminal r.progress r.complete r.limited primary cleanup]⟩

/-- **`open`**: whatever comes before the columns may fail. -/
def openRows (columns : List Column) (early : Option (Err ε)) : Reader ε × Option (Err ε) :=
  match early with
  | some err => (r, some err)
  | none =>
    let schema : Schema ε := openSchema config columns
    let r := { r with
      columns := schema.columns
      metadataBytes := schema.bytes
      limited := schema.limited }
    match schema.err with
    | some err => (r, some err)
    | none => ({ r with progress := { r.progress with totalBytes := schema.bytes } }, none)

/-- **`Read`.** The budget may have no time left, and when `open` returns the
context of the setup or the lifetime may have ended. -/
def setup (budget : Option ε) (columns : List Column) (early : Option (Err ε)) (phase life : Ctx ε)
    (cleanup : Option (Err ε)) : Turn ε :=
  let r := { r with ready := true }
  match budget with
  | some err => r.finish (some (.native err)) cleanup
  | none =>
    let (r, err) := r.openRows config columns early
    let err := if phase.isSome then
      joined .native "reader-setup" [err, phase.err, phase.cause] else err
    let err := if life.isSome then
      joined .native "reader-lifetime" [err, life.err, life.cause] else err
    match err with
    | some err => r.finish (some err) cleanup
    | none => ⟨r, []⟩

/-! ## `consume` -/

/-- A limit of the whole is met. -/
def totalBound : Bool :=
  r.progress.totalRows = config.readerTotalRows || r.progress.totalBytes = config.readerTotalBytes

/-- The beginning of a round: `consume` may return, with or without an
error. -/
def poll (m : Moment ε) (rows : List Row) : Option (Option (Err ε)) :=
  if m.ctx.isSome then some (some (failure .native "reader-consume" [m.ctx.err, m.ctx.cause]))
  else if m.life.isSome then
    some (some (failure .native "reader-lifetime" [m.life.err, m.life.cause]))
  else if rows.length = config.readerChunkRows && !r.totalBound config then some none
  else none

def rowSize (chunkBytes : ℤ) (size : ℤ) : List (Value × Column) → Except (Bool × Err ε) ℤ
  | [] => .ok size
  | (value, column) :: rest =>
    match resultScalarSize isFinite value column.type with
    | .error err => .error (false, err)
    | .ok cost =>
      if chunkBytes - size < cost then .error (true, failure .limit "reader-row-bytes" [])
      else rowSize chunkBytes (size + cost) rest

/-- **A row of the driver**, and its size. -/
def fetch (m : Moment ε) (row : Row) : Except (Reader ε × Option (Err ε)) ℤ :=
  if m.ended then .error (r, m.interrupted (m.reply.map .native))
  else match m.reply with
  | some err => .error (r, some (failure .native "reader-consume" [some (.native err)]))
  | none =>
    if r.totalBound config then
      .error ({ r with limited := true }, some (failure .limit "reader-total" []))
    else match rowSize isFinite config.readerChunkBytes 32 (row.zip r.columns) with
    | .error (limited, err) => .error ({ r with limited := limited }, some err)
    | .ok size =>
      if config.readerChunkBytes - r.metadataBytes < size ||
          config.readerTotalBytes - r.progress.totalBytes < size then
        .error ({ r with limited := true }, some (failure .limit "reader-bytes" []))
      else .ok size

/-- The driver has no row: the end, if it is not an error. -/
def fetchEnd (m : Moment ε) (rows : List Row) : Consumed ε :=
  if m.ended then
    ⟨r, rows, m.interrupted ((m.reply.map Fault.native).or (some .eof)),
      if m.reply.isNone then some true else none⟩
  else match m.reply with
  | some err => ⟨r, rows, some (failure .native "reader-consume" [some (.native err)]), none⟩
  | none => ⟨{ r with complete := true }, rows, none, some false⟩

def take (size : ℤ) : Reader ε :=
  { r with
    pending := none
    progress := { r.progress with
      rows := r.progress.rows + 1
      bytes := r.progress.bytes + size
      totalRows := r.progress.totalRows + 1
      totalBytes := r.progress.totalBytes + size } }

/-- The rounds of `consume` without a row that was kept. -/
def fill (moment : ℕ → Moment ε) : List Row → ℕ → Reader ε → List Row → Consumed ε
  | [], i, r, rows =>
    match r.poll config (moment i) rows with
    | some err => ⟨{ r with rest := [] }, rows, err, none⟩
    | none => ({ r with rest := [] } : Reader ε).fetchEnd (moment i) rows
  | row :: rest, i, r, rows =>
    match r.poll config (moment i) rows with
    | some err => ⟨{ r with rest := row :: rest }, rows, err, none⟩
    | none =>
      match ({ r with rest := rest } : Reader ε).fetch isFinite config (moment i) row with
      | .error (r, err) => ⟨r, rows, err, none⟩
      | .ok size =>
        if config.readerChunkBytes - r.progress.bytes < size then
          ⟨{ r with rest := rest, pending := some (row, size) }, rows, none, none⟩
        else fill moment rest (i + 1) (r.take size) (rows ++ [row])

/-- **`consume`.** A row that was kept is there in the first round only. -/
def consume (moment : ℕ → Moment ε) : Consumed ε :=
  match r.pending with
  | none => fill isFinite config moment r.rest 0 r []
  | some (row, size) =>
    match r.poll config (moment 0) [] with
    | some err => ⟨r, [], err, none⟩
    | none =>
      if config.readerChunkBytes - r.progress.bytes < size then ⟨r, [], none, none⟩
      else fill isFinite config moment r.rest 1 (r.take size) [row]

/-! ## Calls -/

/-- A call of `Next` has an outcome. -/
def conclude (c : Consumed ε) (cleanup : Option (Err ε)) : Turn ε :=
  let t : Turn ε :=
    if c.err.isSome || c.reader.complete then c.reader.finish c.err cleanup else ⟨c.reader, []⟩
  ⟨t.state, (c.reached.map .reached).toList ++ t.actions ++
    [.receipt ⟨t.state.progress, c.rows, t.state.complete, t.state.limited, c.err,
      t.state.cleanup⟩]⟩

def openChunk : Reader ε :=
  { r with progress := { r.progress with
      chunk := increment r.progress.chunk
      offset := r.progress.totalRows
      rows := 0
      bytes := r.metadataBytes } }

/-- **`Next`.** Admission may be refused, and the budget may have no time
left. -/
def next (admission : Option (Err ε)) (budget : Option ε) (moment : ℕ → Moment ε)
    (cleanup : Option (Err ε)) : Turn ε :=
  if r.progress.closed then ⟨r, [.refused (failure .state "reader-closed" [])]⟩
  else match admission, budget with
  | some err, _ => ⟨r, [.refused err]⟩
  | none, some err => conclude ⟨r.openChunk, [], some (.native err), none⟩ cleanup
  | none, none => conclude (r.openChunk.consume isFinite config moment) cleanup

/-- `watch`, at the end of the lifetime. -/
def expire (life : Ctx ε) (cleanup : Option (Err ε)) : Turn ε :=
  r.finish (some (failure .native "reader-lifetime" [life.err, life.cause])) cleanup

def close (life : Ctx ε) (cleanup : Option (Err ε)) : Turn ε :=
  r.finish (joined .native "reader-lifetime" [life.err, life.cause]) cleanup

end Reader

/-- **What happens to a reader.** -/
inductive Event (ε : Type) where
  | setup (budget : Option ε) (columns : List Column) (early : Option (Err ε)) (phase life : Ctx ε)
      (cleanup : Option (Err ε))
  | next (admission : Option (Err ε)) (budget : Option ε) (moment : ℕ → Moment ε)
      (cleanup : Option (Err ε))
  | expire (life : Ctx ε) (cleanup : Option (Err ε))
  | close (life : Ctx ε) (cleanup : Option (Err ε))

namespace Reader

variable (isFinite : ℤ → Bool) (config : Config)

/-- **The step of the machine**, with its actions. -/
def turn (r : Reader ε) : Event ε → Option (Turn ε)
  | .setup budget columns early phase life cleanup =>
    if r.ready then none else some (r.setup config budget columns early phase life cleanup)
  | .next admission budget moment cleanup =>
    if r.ready then some (r.next isFinite config admission budget moment cleanup) else none
  | .expire life cleanup => if r.ready then some (r.expire life cleanup) else none
  | .close life cleanup => if r.ready then some (r.close life cleanup) else none

/-- **The machine**, over the rows of a result. -/
def machine (stream : List Row) : Mealy (Reader ε) (Event ε) (Action ε) :=
  ⟨init stream, fun r l => r.turn isFinite config l⟩

end Reader

end Duckdb
