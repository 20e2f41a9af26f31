import Fathomry.Mealy
import Fathomry.MysqlPacket

/-!
# A wire that is upgraded to TLS

The driver talks MySQL in clear over a connection it is given. The `wire` is
that connection: its first frame makes it ask the server for TLS, do the
handshake, and only then pass the frame on – through TLS, like all that
follow. What the driver reads is inspected first, and everything that goes
wrong closes the socket.

A step is one call. What the network does in it – bytes that come, how much
of a write is taken, the handshake – is part of the label; of a closed
socket it is asked that nothing can be written to it. A call that panics
does not come back, and nobody calls again.
-/

namespace Mysql

namespace Wire

variable {ε : Type}

/-- How bytes are sent: in clear, or through TLS. -/
inductive Channel where
  | raw
  | tls
deriving DecidableEq

/-- **A wire.** -/
structure State (ε : Type) where
  transport : Channel
  /-- There is a context to do a handshake with. -/
  ctx : Bool
  pending : Bytes
  protocol : Protocol
  authOffset : UInt8
  firstAuth : Bool
  longDataPending : Bool
  responseBytes : ℕ
  primary : Option (Err ε)
  closed : Bool
  panicked : Bool

/-- **What a call does.** -/
inductive Action (ε : Type) where
  | sent (channel : Channel) (bytes : Bytes)
  /-- A handshake has succeeded, and the peer is verified. -/
  | secured
  | delivered (bytes : Bytes)
  | returned (count : ℕ) (err : Option (Err ε))

/-- A state and the actions on the way to it. -/
abbrev Turn (ε : Type) := Reaction (State ε) (Action ε)

/-- What a write comes to. -/
structure Written (ε : Type) where
  count : ℕ
  err : Option (Err ε)

/-- Nothing can be written to a socket that is closed. -/
def Written.possible (w : Written ε) (closed : Bool) (size : ℕ) : Bool :=
  w.count ≤ size && (!closed || w.count = 0 && w.err.isSome)

/-- **A call of the driver**, with what the network does. -/
inductive Event (ε : Type) where
  /-- `Read`, with the header and the rest of a frame. -/
  | read (size : ℕ) (header : Except (Err ε) (UInt8 × UInt8 × UInt8 × UInt8))
      (body : Except (Err ε) Bytes)
  /-- `Write`, with its request for TLS, the handshake and the frame. -/
  | write (frame : Bytes) (request : Written ε) (handshake : Option (Err ε)) (sent : Written ε)
  /-- `Close`, or the end of a context. -/
  | close (err : Option (Err ε))

/-- The request for TLS: the beginning of the first frame, with the
capability of TLS. -/
def sslRequest (frame : Bytes) : Bytes :=
  Bytes.setFlags ([32, 0, 0, 1] ++ frame.slice 4 32) 4 tlsFlag

def sized (frame : Bytes) : Bool :=
  4 ≤ frame.length && frame.length - 4 = Bytes.little (frame.take 3)

/-- A frame during authentication: one more packet has been sent than the
driver knows of, and the login is repeated with the capability of TLS. It has
to be long enough for that. -/
def translate (frame : Bytes) (offset : UInt8) : Option Bytes :=
  let out := frame.put 3 [frame.getD 3 0 + offset]
  if frame.getD 3 0 = 1 then if out.length < 8 then none else some (out.setFlags 4 tlsFlag)
  else some out

namespace State

variable (lib : Library) (settings : Settings ε) (s : State ε)

/-- `openWire`. -/
def init : State ε where
  transport := .raw
  ctx := true
  pending := []
  protocol := .new
  authOffset := 0
  firstAuth := true
  longDataPending := false
  responseBytes := 0
  primary := none
  closed := false
  panicked := false

def close : State ε := { s with closed := true }

def fail (count : ℕ) (err : Err ε) : Turn ε :=
  ⟨{ s.close with primary := s.primary.or (some err) }, [.returned count (some err)]⟩

def crash : Turn ε := ⟨{ s with panicked := true }, []⟩

/-! ## Reading -/

/-- The frame that is given to the driver, with the number the driver
expects, and the end of authentication. -/
def accept (frame : Bytes) : State ε :=
  let finished := s.protocol.phase = .idle && s.protocol.command = 0
  let back := if s.protocol.phase = .auth || finished then s.authOffset else 0
  { s with
    pending := frame.put 3 [frame.getD 3 0 - back]
    authOffset := if finished then 0 else s.authOffset
    ctx := s.ctx && !finished }

/-- `copy(dst, w.pending)`. -/
def deliver (size : ℕ) : Turn ε :=
  ⟨{ s with pending := s.pending.drop size },
    [.delivered (s.pending.take size), .returned (min size s.pending.length) none]⟩

/-- **`Read`.** A header without a body of its size is no behaviour of the
network. -/
def read (size : ℕ) (header : Except (Err ε) (UInt8 × UInt8 × UInt8 × UInt8))
    (body : Except (Err ε) Bytes) : Option (Turn ε) :=
  if size = 0 then some ⟨s, [.returned 0 none]⟩
  else if !s.pending.isEmpty then some (s.deliver size)
  else match header with
  | .error err => some (s.fail 0 err)
  | .ok (b0, b1, b2, b3) =>
    let length := Bytes.little [b0, b1, b2]
    if length = 0 || settings.maxPacketBytes < length then
      some (s.fail 0 (failure .limit "packet"))
    else if settings.maxResponseBytes < s.responseBytes + length + 4 then
      some (s.fail 0 (failure .limit "response"))
    else
      let s := { s with responseBytes := s.responseBytes + length + 4 }
      match body with
      | .error err => some (s.fail 0 err)
      | .ok data =>
        if data.length ≠ length then none
        else match inspect lib settings s.protocol data with
        | .error err => some (s.fail 0 err)
        | .ok (p, data) =>
          some
            ((({ s with protocol := p } : State ε).accept ([b0, b1, b2, b3] ++ data)).deliver size)

/-! ## Writing -/

/-- **The first frame**: the wire asks for TLS, and is secured. The call goes
on, or it is over. -/
def upgrade (frame : Bytes) (request : Written ε) (handshake : Option (Err ε)) :
    Except (Turn ε) (Turn ε) :=
  let s := { s with firstAuth := false }
  if frame.length < 36 then .error (s.fail 0 (failure .protocol "auth-response"))
  else if settings.plaintext then .ok ⟨s, []⟩
  else match settings.trust with
  | some err => .error (s.fail 0 err)
  | none =>
    let asked := Action.sent s.transport ((sslRequest frame).take request.count)
    match request.err with
    | some err => .error ⟨(s.fail 0 err).state, asked :: (s.fail 0 err).actions⟩
    | none =>
      if !s.ctx then .error ⟨s.crash.state, [asked]⟩
      else match handshake with
      | some err => .error ⟨(s.fail 0 err).state, asked :: (s.fail 0 err).actions⟩
      | none => .ok ⟨{ s with transport := .tls, authOffset := 1 }, [asked, .secured]⟩

def commandPhase (command : UInt8) : Option Phase :=
  if command = 3 || command = 0x17 || command = 14 then some .header
  else if command = 0x16 then some .prepare
  else if command = 1 || command = 0x19 || command = 0x18 then some .idle
  else none

def command (frame : Bytes) : Except (Turn ε) (State ε) :=
  if !s.pending.isEmpty || frame.getD 3 0 ≠ 0 then
    .error (s.fail 0 (failure .protocol "command-state"))
  else
    let p := { s.protocol with command := frame.getD 4 0, rowCount := 0, fields := [] }
    let s := { s with responseBytes := 0, protocol := p }
    match commandPhase (frame.getD 4 0) with
    | none => .error (s.fail 0 (failure .unsupported "command"))
    | some phase => .ok { s with protocol := { p with phase := phase } }

def outgoing (frame : Bytes) : Except (Turn ε) (State ε × Bytes) :=
  if s.protocol.phase ≠ .auth then (s.command frame).map (fun s => (s, frame))
  else if s.authOffset = 0 then .ok (s, frame)
  else match translate frame s.authOffset with
  | none => .error s.crash
  | some out => .ok (s, out)

def wrote : State ε :=
  if s.protocol.phase = .auth then s
  else if s.protocol.command = 0x18 then { s with longDataPending := true }
  else if s.protocol.command = 0x17 then { s with longDataPending := false }
  else s

def transmit (out : Bytes) (sent : Written ε) : Turn ε :=
  let err := if sent.err.isNone && sent.count ≠ out.length then some (.native .shortWrite)
    else sent.err
  let t := match err with
    | some err => s.fail sent.count err
    | none => ⟨s.wrote, [.returned sent.count none]⟩
  ⟨t.state, .sent s.transport (out.take sent.count) :: t.actions⟩

/-- `Write`, once the wire is secured. -/
def send (frame : Bytes) (sent : Written ε) : Turn ε :=
  match s.outgoing frame with
  | .error t => t
  | .ok (s, out) => s.transmit out sent

def write (frame : Bytes) (request : Written ε) (handshake : Option (Err ε)) (sent : Written ε) :
    Turn ε :=
  if !sized frame || frame.length = 4 && (s.protocol.phase ≠ .auth || s.firstAuth) then
    s.fail 0 (failure .protocol "write-frame")
  else if !s.firstAuth then s.send frame sent
  else match s.upgrade settings frame request handshake with
  | .error t => t
  | .ok t => ⟨(t.state.send frame sent).state, t.actions ++ (t.state.send frame sent).actions⟩

/-- **The step of the machine**, with its actions. -/
def turn : Event ε → Option (Turn ε)
  | .read size header body => if s.panicked then none else s.read lib settings size header body
  | .write frame request handshake sent =>
    if s.panicked || !request.possible s.closed 36 || !sent.possible s.closed frame.length then none
    else some (s.write settings frame request handshake sent)
  | .close err => some ⟨{ s.close with primary := s.primary.or err }, []⟩

/-- **The machine.** -/
def machine : Mealy (State ε) (Event ε) (Action ε) := ⟨init, fun s l => s.turn lib settings l⟩

end State

end Wire

end Mysql
