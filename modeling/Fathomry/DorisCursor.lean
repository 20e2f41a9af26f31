import Fathomry.Bytes
import Fathomry.Failure
import Fathomry.Mealy

/-!
# Cursors over a result

A `Cursor` hands out a text result page by page. A page ends with the row that
does not fit any more, which is kept for the next page; so the end of the
result is seen with the last page, even if that page is full.

`Next` has the cursor to itself: a call that meets another one is refused and
changes nothing. So a call is one step. The contexts and the connection are
asked once, after the last row; what the driver says is a function of the
number of calls of its `Next`.
-/

namespace Doris

variable {ε : Type}

inductive Kind where
  | input
  | unsupported
  | limit
  | sql
  | cleanup
  | state
deriving DecidableEq

abbrev Err (ε : Type) := Fault Kind Unit ε

def providerID : String := "sqlengine.doris.v1"

def failure (kind : Kind) (operation : String) (causes : List (Option (Err ε))) : Err ε :=
  .new kind operation providerID () causes

def joined (kind : Kind) (operation : String) (causes : List (Option (Err ε))) : Option (Err ε) :=
  if causes.any Option.isSome then some (failure kind operation causes) else none

/-- **The settings of a page**, as `validate` lets them through. -/
structure Settings where
  maxPageRows : ℕ
  maxPageBytes : ℤ
  pageRows_pos : 1 ≤ maxPageRows
  pageRows_le : maxPageRows ≤ 65536
  le_pageBytes : 1024 ≤ maxPageBytes
  pageBytes_le : maxPageBytes ≤ 16 * 2 ^ 20

def maxColumns : ℕ := 64

/-! ## Rows -/

/-- **A value of the driver.** Floats are given by their bits. -/
inductive Value where
  | null
  | bytes (data : Bytes)
  | int64 (n : ℤ)
  | uint64 (n : ℕ)
  | float32 (bits : ℕ)
  | float64 (bits : ℕ)
  | other
deriving DecidableEq

/-- `strconv.FormatFloat` for the two sizes. -/
structure Formats where
  float32 : ℕ → Bytes
  float64 : ℕ → Bytes

structure Cell where
  text : Bytes
  null : Bool
deriving DecidableEq

abbrev Row := List Cell

def bytesOf (text : String) : Bytes := text.toUTF8.data.toList

def cell (formats : Formats) : Value → Option Cell
  | .null => some ⟨[], true⟩
  | .bytes data => some ⟨data, false⟩
  | .int64 n => some ⟨bytesOf (toString n), false⟩
  | .uint64 n => some ⟨bytesOf (toString n), false⟩
  | .float32 bits => some ⟨formats.float32 bits, false⟩
  | .float64 bits => some ⟨formats.float64 bits, false⟩
  | .other => none

def cells (formats : Formats) (row : Row) (size : ℤ) : List Value → Except (Err ε) (Row × ℤ)
  | [] => .ok (row, size)
  | value :: rest =>
    match cell formats value with
    | none => .error (failure .unsupported "value" [])
    | some c => cells formats (row ++ [c]) (size + c.text.length) rest

/-! ## The cursor -/

/-- `Column`, as far as its size is concerned. -/
structure Column where
  name : String
  databaseType : String

/-- **`cursorState`**, with the rows that the driver has for it. -/
structure Cursor where
  /-- `QueryCursor` has returned. -/
  ready : Bool
  rest : List (List Value)
  columns : List Column
  metadataBytes : ℤ
  pending : Option (Row × ℤ)
  rowsRead : ℕ
  bytesRead : ℤ
  dispatched : Bool
  closed : Bool

/-- **The receipt of a call of `Next`.** -/
structure Page (ε : Type) where
  rows : List Row
  complete : Bool
  rowsRead : ℕ
  bytesRead : ℤ
  primary : Option (Err ε)

inductive Action (ε : Type) where
  | refused (err : Err ε)
  /-- The driver has reported the end of the result, and whether the call has
  failed nevertheless. -/
  | reached (failed : Bool)
  | page (p : Page ε)
  /-- The cursor is ended, with its own receipt. -/
  | ended (complete : Bool) (rowsRead : ℕ) (bytesRead : ℤ) (primary cleanup : Option (Err ε))

/-- What the connection says when it is closed. -/
structure Closing (ε : Type) where
  wire : Option (Err ε)
  cleanup : Option (Err ε)

/-- **What a call of `Next` is told.** -/
structure Answers (ε : Type) where
  admission : Option (Err ε)
  budget : Option ε
  /-- An error of the driver, for each call of its `Next`. -/
  native : ℕ → Option ε
  /-- The connection and the contexts, after the last row. -/
  wire : Option (Err ε)
  work : Option (Err ε)
  live : Option (Err ε)
  closing : Closing ε

/-- What the loop of `Next` comes to. -/
structure Filled (ε : Type) where
  cursor : Cursor
  rows : List Row
  complete : Bool
  primary : Option (Err ε)

/-- What becomes of a row. -/
inductive Place where
  | tooLong
  | keep
  | append

abbrev Turn (ε : Type) := Reaction Cursor (Action ε)

namespace Cursor

variable (formats : Formats) (settings : Settings) (c : Cursor)

def init (stream : List (List Value)) : Cursor := ⟨false, stream, [], 0, none, 0, 0, false, false⟩

/-- **`end`.** -/
def ending (primary : Option (Err ε)) (complete : Bool) (closing : Closing ε) : Turn ε :=
  if c.closed then ⟨c, []⟩
  else
    let primary := Fault.joined [primary, closing.wire]
    ⟨{ c with closed := true, pending := none },
      [.ended (complete && primary.isNone) c.rowsRead c.bytesRead
        (joined .sql "query-cursor" [primary]) closing.cleanup]⟩

def readColumns : ℕ → List Column → Cursor → Cursor × Option (Err ε)
  | _, [], c => (c, none)
  | index, column :: rest, c =>
    if maxColumns ≤ index then (c, some (failure .limit "columns" []))
    else
      let c := { c with
        metadataBytes := c.metadataBytes
          + ((column.name.utf8ByteSize + column.databaseType.utf8ByteSize : ℕ) : ℤ) }
      if settings.maxPageBytes < c.metadataBytes then (c, some (failure .limit "page-metadata" []))
      else readColumns (index + 1) rest { c with columns := c.columns ++ [column] }

/-- **`QueryCursor`**: whatever comes before the columns may fail, and a
context may have ended at the end. -/
def setup (columns : List Column) (early late : Option (Err ε)) (closing : Closing ε) : Turn ε :=
  match early with
  | some err => ({ c with ready := true } : Cursor).ending (some err) false closing
  | none =>
    let x : Cursor × Option (Err ε) :=
      readColumns settings 0 columns { c with ready := true, dispatched := true }
    match Fault.joined [x.2, late] with
    | some err => x.1.ending (some err) false closing
    | none => ⟨{ x.1 with bytesRead := x.1.metadataBytes }, []⟩

/-! ### `Next` -/

def place (rows : List Row) (size bytes : ℤ) : Place :=
  if settings.maxPageBytes - c.metadataBytes < bytes then .tooLong
  else if rows.length = settings.maxPageRows || settings.maxPageBytes - size < bytes then .keep
  else .append

/-- The rounds of `Next` without a row that was kept. -/
def fill (native : ℕ → Option ε) : List (List Value) → ℕ → Cursor → List Row → ℤ → Filled ε
  | [], i, c, rows, _ =>
    match native i with
    | some err => ⟨{ c with rest := [] }, rows, false, some (.native err)⟩
    | none => ⟨{ c with rest := [] }, rows, true, none⟩
  | values :: rest, i, c, rows, size =>
    match native i with
    | some err => ⟨{ c with rest := values :: rest }, rows, false, some (.native err)⟩
    | none =>
      let c := { c with rest := rest, rowsRead := c.rowsRead + 1 }
      match cells formats [] 0 values with
      | .error err => ⟨c, rows, false, some err⟩
      | .ok (row, bytes) =>
        let c := { c with bytesRead := c.bytesRead + bytes }
        match c.place settings rows size bytes with
        | .tooLong => ⟨c, rows, false, some (failure .limit "page-row" [])⟩
        | .keep => ⟨{ c with pending := some (row, bytes) }, rows, false, none⟩
        | .append => fill native rest (i + 1) c (rows ++ [row]) (size + bytes)

/-- **The loop of `Next`.** A row that was kept is there in the first round
only. -/
def loop (native : ℕ → Option ε) : Filled ε :=
  match c.pending with
  | none => fill formats settings native c.rest 0 c [] c.metadataBytes
  | some (row, bytes) =>
    let c := { c with pending := none }
    match c.place settings [] c.metadataBytes bytes with
    | .tooLong => ⟨c, [], false, some (failure .limit "page-row" [])⟩
    | .keep => ⟨{ c with pending := some (row, bytes) }, [], false, none⟩
    | .append => fill formats settings native c.rest 0 c [row] (c.metadataBytes + bytes)

def conclude (f : Filled ε) (primary : Option (Err ε)) (closing : Closing ε) : Turn ε :=
  let complete := f.complete && primary.isNone
  let t : Turn ε :=
    if primary.isSome || f.complete then f.cursor.ending primary complete closing
    else ⟨f.cursor, []⟩
  ⟨t.state, (if f.complete then [.reached primary.isSome] else []) ++ t.actions ++
    [.page ⟨f.rows, complete, f.cursor.rowsRead, f.cursor.bytesRead,
      joined .sql "cursor-next" [primary]⟩]⟩

def next (a : Answers ε) : Turn ε :=
  if c.closed then ⟨c, [.refused (failure .state "cursor-closed" [])]⟩
  else match a.admission, a.budget with
  | some err, _ => ⟨c, [.refused err]⟩
  | none, some err => conclude ⟨c, [], false, none⟩ (some (.native err)) a.closing
  | none, none =>
    let f := c.loop formats settings a.native
    conclude f (Fault.joined [f.primary, a.wire, a.work, a.live]) a.closing

end Cursor

/-- **What happens to a cursor.** -/
inductive Event (ε : Type) where
  | setup (columns : List Column) (early late : Option (Err ε)) (closing : Closing ε)
  | next (a : Answers ε)
  /-- The lifetime ends, as it does in `Close`. -/
  | expire (err : Err ε) (closing : Closing ε)

namespace Cursor

variable (formats : Formats) (settings : Settings)

/-- **The step of the machine**, with its actions. -/
def turn (c : Cursor) : Event ε → Option (Turn ε)
  | .setup columns early late closing =>
    if c.ready then none else some (c.setup settings columns early late closing)
  | .next a => if c.ready then some (c.next formats settings a) else none
  | .expire err closing => if c.ready then some (c.ending (some err) false closing) else none

/-- **The machine**, over the rows of a result. -/
def machine (stream : List (List Value)) : Mealy Cursor (Event ε) (Action ε) :=
  ⟨init stream, fun c l => c.turn formats settings l⟩

end Cursor

end Doris
