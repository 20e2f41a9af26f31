import Fathomry.Bytes
import Fathomry.Failure

/-!
# Packets of the MySQL protocol

What a client accepts from its server, packet by packet. `inspect` follows
the protocol with a phase and a few counters, and refuses every packet that
does not belong where it is; a greeting that offers more than the client
wants is rewritten before anybody else sees it.
-/

namespace Mysql

variable {ε : Type}

inductive Kind where
  | input
  | unsupported
  | limit
  | protocol
deriving DecidableEq

inductive Cause (ε : Type) where
  | shortWrite
  | other (err : ε)

abbrev Err (ε : Type) := Fault Kind Unit (Cause ε)

def providerID : String := "database.mysql.v1"

def failure (kind : Kind) (operation : String) : Err ε := .new kind operation providerID () []

def maxColumns : ℕ := 64

def maxArguments : ℕ := 128

/-- The settings of a connection. `trust` is the error of the configuration
of TLS, if there is one. -/
structure Settings (ε : Type) where
  plaintext : Bool
  authentication : String
  maxRows : ℕ
  maxPacketBytes : ℕ
  maxResponseBytes : ℕ
  trust : Option (Err ε)

/-- What the standard library knows. -/
structure Library where
  toLower : Bytes → Bytes
  /-- The size of the RSA key that is the only content of a PEM block. -/
  rsaBits : Bytes → Option ℕ

inductive Phase where
  | auth
  | header
  | columns
  | columnEnd
  | rows
  | prepare
  | idle
  | prepareParams
  | prepareParamEnd
  | prepareColumns
  | prepareColumnEnd
deriving DecidableEq

/-- `phase++`, where the source uses it. -/
def Phase.next : Phase → Phase
  | .prepareParams => .prepareParamEnd
  | .prepareColumns => .prepareColumnEnd
  | phase => phase

/-- **What the packets of a server can change.** -/
structure Protocol where
  phase : Phase
  command : UInt8
  columns : ℕ
  remaining : ℕ
  rowCount : ℕ
  inTransaction : Bool
  fields : List UInt8
  version : Bytes
deriving DecidableEq

def Protocol.new : Protocol := ⟨.auth, 0, 0, 0, 0, false, [], []⟩

/-! ## Numbers and rows -/

/-- `lengthNumber`: a number, and how many bytes it has. -/
def lengthNumber : Bytes → Option (ℕ × ℕ)
  | [] => none
  | b :: rest =>
    if b = 0xfb || b = 0xff then none
    else if b = 0xfc then if rest.length < 2 then none else some (Bytes.little (rest.take 2), 3)
    else if b = 0xfd then if rest.length < 3 then none else some (Bytes.little (rest.take 3), 4)
    else if b = 0xfe then if rest.length < 8 then none else some (Bytes.little (rest.take 8), 9)
    else some (b.toNat, 1)

def statusOK (data : Bytes) : Option ℕ := do
  let (_, first) ← lengthNumber (data.drop 1)
  let (_, second) ← lengthNumber (data.drop (1 + first))
  let pos := 1 + first + second
  if data.length < pos + 4 then none else some (Bytes.little (data.slice pos 2))

def skipText (data : Bytes) (pos : ℕ) : Option ℕ := do
  let (size, count) ← lengthNumber (data.drop pos)
  if data.length - pos - count < size then none else some (pos + count + size)

def columnType (data : Bytes) : Option UInt8 := do
  let pos ← (List.range 6).foldlM (fun pos _ => skipText data pos) 0
  if data.length ≠ pos + 13 || data.getD pos 0 ≠ 12 then none else some (data.getD (pos + 7) 0)

def textRow (columns : ℕ) (data : Bytes) : Option (Err ε) :=
  let column pos _ :=
    if pos = data.length then none
    else if data.getD pos 0 = 0xfb then some (pos + 1)
    else skipText data pos
  if (List.range columns).foldlM column 0 = some data.length then none
  else some (failure .protocol "text-row")

def binarySize (kind : UInt8) (data : Bytes) (pos : ℕ) : Option ℕ :=
  if kind = 1 then some 1
  else if kind = 2 || kind = 13 then some 2
  else if kind = 3 || kind = 9 || kind = 4 then some 4
  else if kind = 8 || kind = 5 then some 8
  else if kind = 7 || kind = 10 || kind = 11 || kind = 12 || kind = 14 then
    if data.length ≤ pos then none
    else
      let length := (data.getD pos 0).toNat
      let lengths := if kind = 11 then [0, 8, 12] else [0, 4, 7, 11]
      if length ∈ lengths then some (length + 1) else none
  else do
    let (length, count) ← lengthNumber (data.drop pos)
    if data.length - pos - count < length then none else some (count + length)

/-- `binaryRow`. A value that is null, or of the kind of null, has no
bytes. -/
def binaryRow (p : Protocol) (data : Bytes) : Option (Err ε) :=
  let bitmap := (p.columns + 9) / 8
  let column (pos : ℕ) (x : UInt8 × ℕ) :=
    if (data.getD (1 + (x.2 + 2) / 8) 0).toNat.testBit ((x.2 + 2) % 8) || x.1 = 6 then some pos
    else do
      let size ← binarySize x.1 data pos
      if data.length - pos < size then none else some (pos + size)
  if data.getD 0 0 ≠ 0 || data.length < 1 + bitmap then some (failure .protocol "binary-row")
  else if p.fields.zipIdx.foldlM column (1 + bitmap) = some data.length then none
  else some (failure .protocol "binary-row")

/-! ## Packets -/

section

variable (lib : Library) (settings : Settings ε)

def authenticationAllowed (plugin : Bytes) : Bool :=
  plugin = Bytes.text "caching_sha2_password"
    || plugin = Bytes.text "mysql_native_password" && plugin = Bytes.text settings.authentication

def trimZero (data : Bytes) : Bytes := if data.getLast? = some 0 then data.dropLast else data

/-- The capabilities a server must have. -/
def required : ℕ := 2 ^ 0 + 2 ^ 9 + 2 ^ 15 + 2 ^ 19

def hidden : ℕ := 2 ^ 7 + 2 ^ 16 + 2 ^ 17 + 2 ^ 24 + 2 ^ 5

def tlsFlag : ℕ := 2 ^ 11

/-- **`greeting`**, which also rewrites the capabilities. -/
def greeting (p : Protocol) (data : Bytes) : Except (Err ε) (Protocol × Bytes) :=
  match (data.drop 1).findIdx? (· = 0) with
  | none => .error (failure .protocol "greeting")
  | some fin =>
    let pos := fin + 15
    let version := data.slice 1 fin
    let flags := Bytes.little (data.slice pos 2) + 2 ^ 16 * Bytes.little (data.slice (pos + 5) 2)
    let kept := flags - (flags &&& hidden)
    if fin < 1 || 256 < fin || data.length < pos + 32 then .error (failure .protocol "greeting")
    else if flags &&& required ≠ required || !(Bytes.text "8.").isPrefixOf version
        || decide (Bytes.text "mariadb" <:+: lib.toLower version)
        || !authenticationAllowed settings (trimZero (data.drop (pos + 31)))
        || data.getD (pos + 7) 0 ≠ 21 then .error (failure .unsupported "greeting-profile")
    else if !settings.plaintext && flags &&& tlsFlag = 0 then
      .error (failure .unsupported "tls-required")
    else
      .ok ({ p with version := version },
        (data.put pos (Bytes.ofLittle 2 kept)).put (pos + 5) (Bytes.ofLittle 2 (kept / 2 ^ 16)))

/-- `failure(ErrProtocol, "response")`. -/
def bad {α : Type} : Except (Err ε) α := .error (failure .protocol "response")

def isError (data : Bytes) : Bool := 9 ≤ data.length && data.getD 3 0 = 35

def inspectAuth (p : Protocol) (data : Bytes) : Except (Err ε) Protocol :=
  match data.getD 0 0 with
  | 0 => if (statusOK data).isSome then .ok { p with phase := .idle } else bad
  | 0xff => if isError data then .ok { p with phase := .idle } else bad
  | 0xfe =>
    match (data.drop 1).findIdx? (· = 0) with
    | none => bad
    | some fin =>
      if authenticationAllowed settings (data.slice 1 fin) && data.length = fin + 23 then .ok p
      else bad
  | 1 =>
    if data.length = 2 && (data.getD 1 0 = 3 || data.getD 1 0 = 4) then .ok p
    else if (lib.rsaBits (data.drop 1)).any (fun n => 2048 ≤ n && n ≤ 8192) then .ok p
    else bad
  | _ => bad

def inspectHeader (p : Protocol) (data : Bytes) : Except (Err ε) Protocol :=
  if data.getD 0 0 = 0xfb then .error (failure .unsupported "local-infile")
  else if data.getD 0 0 = 0 then
    match statusOK data with
    | none => bad
    | some status =>
      if status.testBit 3 then .error (failure .unsupported "multiple-results")
      else .ok { p with inTransaction := status.testBit 0, phase := .idle }
  else if p.command = 14 then bad
  else
    match lengthNumber data with
    | none => bad
    | some (count, _) =>
      if count = 0 then bad
      else if maxColumns < count then .error (failure .limit "columns")
      else .ok { p with columns := count, remaining := count, phase := .columns }

def inspectPrepare (p : Protocol) (data : Bytes) : Except (Err ε) Protocol :=
  if data.getD 0 0 = 0xfb then .error (failure .unsupported "local-infile")
  else if data.getD 0 0 ≠ 0 || data.length < 12 then bad
  else
    let columns := Bytes.little (data.slice 5 2)
    let params := Bytes.little (data.slice 7 2)
    let p := { p with columns := columns }
    if maxColumns < columns || maxArguments < params then
      .error (failure .limit "prepare-metadata")
    else if 0 < params then .ok { p with remaining := params, phase := .prepareParams }
    else if 0 < columns then .ok { p with remaining := columns, phase := .prepareColumns }
    else .ok { p with phase := .idle }

def inspectEnd (p : Protocol) (data : Bytes) : Except (Err ε) Protocol :=
  let status := Bytes.little (data.slice 3 2)
  if data.getD 0 0 ≠ 0xfe || data.length ≠ 5 then bad
  else if status.testBit 3 then .error (failure .unsupported "multiple-results")
  else
    .ok { p with
      inTransaction := status.testBit 0
      phase := if p.phase = .columnEnd then .rows else .idle }

def inspectRow (p : Protocol) (data : Bytes) : Except (Err ε) Protocol :=
  let p := { p with rowCount := p.rowCount + 1 }
  if settings.maxRows < p.rowCount then .error (failure .limit "rows")
  else
    match if p.command = 0x17 then binaryRow p data else textRow p.columns data with
    | some err => .error err
    | none => .ok p

def inspectCommand (p : Protocol) (data : Bytes) : Except (Err ε) Protocol :=
  if data.getD 0 0 = 0xff then
    if p.phase ∈ [.header, .rows, .prepare] && isError data then .ok { p with phase := .idle }
    else bad
  else match p.phase with
  | .header => inspectHeader p data
  | .prepare => inspectPrepare p data
  | .prepareParams | .prepareColumns =>
    match columnType data with
    | none => bad
    | some _ =>
      .ok { p with
        remaining := p.remaining - 1
        phase := if p.remaining = 1 then p.phase.next else p.phase }
  | .prepareParamEnd | .prepareColumnEnd =>
    if data.getD 0 0 ≠ 0xfe || data.length ≠ 5 then bad
    else if p.phase = .prepareParamEnd && 0 < p.columns then
      .ok { p with remaining := p.columns, phase := .prepareColumns }
    else .ok { p with phase := .idle }
  | .columns =>
    match columnType data with
    | none => bad
    | some kind =>
      .ok { p with
        fields := p.fields ++ [kind]
        remaining := p.remaining - 1
        phase := if p.remaining = 1 then .columnEnd else .columns }
  | .columnEnd => inspectEnd p data
  | .rows => if data.getD 0 0 = 0xfe then inspectEnd p data else inspectRow settings p data
  | .auth | .idle => bad

/-- **`inspect`**: a packet moves the protocol on and is passed to the
driver, or it is refused. Then the connection is closed, and nothing reads
the protocol any more. -/
def inspect (p : Protocol) (data : Bytes) : Except (Err ε) (Protocol × Bytes) :=
  if data.isEmpty then bad
  else if p.phase = .auth then
    if data.getD 0 0 = 10 && p.version.isEmpty then greeting lib settings p data
    else (inspectAuth lib settings p data).map (fun p => (p, data))
  else (inspectCommand settings p data).map (fun p => (p, data))

end

end Mysql
