import Fathomry.Bytes
import Fathomry.PgxTransaction
import Fathomry.Reader

/-!
# A fence in a stream of messages

What a server sends is a sequence of messages, each with a type and a length
in front. The fence sits between the connection and the driver. It reads one
header at a time, refuses the types of COPY, and passes everything else on;
all it knows in between is how much of the current message is left.

A step is one `Read`, with the chunks in which the connection gives its
bytes. As long as the fence has not refused a message, and has not lost a
part of a header, it is where a message of the stream begins whenever it
looks for a header (`Aligned`). A part of a header is lost for good when the
connection fails in the middle of it: the next `Read` starts a new header
with the bytes that come then.
-/

namespace Pgx

namespace Fence

variable {ε : Type}

/-- **A message**, whose length fits into its header. -/
structure Message where
  kind : UInt8
  body : Bytes
  fits : body.length + 4 < 2 ^ 32

namespace Message

variable (m : Message)

/-- The type and the length, which counts itself. -/
def header : Bytes := m.kind :: Bytes.ofBig 4 (m.body.length + 4)

def encode : Bytes := m.header ++ m.body

end Message

/-- The types of COPY: `G`, `H`, `W`, `d` and `c`. -/
def isCopy (kind : UInt8) : Bool := kind ∈ [71, 72, 87, 100, 99]

/-- A message of COPY. -/
def Message.copies (m : Message) : Bool := isCopy m.kind

def stream (ms : List Message) : Bytes := ms.flatMap Message.encode

/-- **The fence**, and what its connection has left. -/
structure State where
  rest : Bytes
  header : Bytes
  offset : ℕ
  pending : Bool
  remaining : ℕ

/-- **What a `Read` does.** -/
inductive Action (ε : Type) where
  | parsed (header : Bytes)
  | refused
  | lost (part : Bytes)
  | returned (bytes : Bytes) (err : Option (Err ε))

/-- A state and the actions on the way to it. -/
abbrev Turn (ε : Type) := Reaction State (Action ε)

/-- `Read`, with the size of its destination and the chunks that come. -/
structure Event (ε : Type) where
  size : ℕ
  chunks : List (Chunk (Err ε))

namespace State

variable (s : State)

def init (rest : Bytes) : State := ⟨rest, List.replicate 5 0, 0, false, 0⟩

/-- The header goes to the driver, until there is nothing left of it. -/
def emit (size : ℕ) : Turn ε :=
  let count := min size (s.header.length - s.offset)
  let finished : Bool := s.offset + count = s.header.length
  ⟨{ s with offset := if finished then 0 else s.offset + count, pending := !finished },
    [.returned ((s.header.drop s.offset).take count) none]⟩

def pass (size : ℕ) (c : Chunk (Err ε)) : Option (Turn ε) :=
  if min size s.remaining < c.count || s.rest.length < c.count then none
  else some ⟨{ s with rest := s.rest.drop c.count, remaining := s.remaining - c.count },
    [.returned (s.rest.take c.count) c.err]⟩

def inspect (header : Bytes) (size : ℕ) : Turn ε :=
  let s := { s with rest := s.rest.drop 5, header := header }
  let length := Bytes.big (header.drop 1)
  if length < 4 then
    ⟨s, [.parsed header, .refused, .returned [] (some (failure .input "protocol-length" []))]⟩
  else if isCopy (header.headD 0) then
    ⟨s, [.parsed header, .refused, .returned [] (some (failure .unsupported "copy-protocol" []))]⟩
  else
    let t := { s with remaining := length - 4, pending := true }.emit size
    ⟨t.state, .parsed header :: t.actions⟩

def read (size : ℕ) (chunks : List (Chunk (Err ε))) : Option (Turn ε) :=
  if size = 0 then some ⟨s, [.returned [] none]⟩
  else if s.pending then some (s.emit size)
  else if 0 < s.remaining then
    match chunks with
    | [c] => s.pass size c
    | _ => none
  else match Reader.readFull 5 s.rest chunks with
  | none => none
  | some (header, none) => some (s.inspect header size)
  | some (part, some err) =>
    some ⟨{ s with
      rest := s.rest.drop part.length
      header := part ++ s.header.drop part.length }, [.lost part, .returned [] (some err)]⟩

end State

/-- **The machine**, for what a server sends. -/
def machine (ms : List Message) : Mealy State (Event ε) (Action ε) :=
  ⟨.init (stream ms), fun s l => s.read l.size l.chunks⟩

/-! ## Logs -/

@[simp] def Action.bytes : Action ε → Bytes
  | .returned bytes _ => bytes
  | _ => []

@[simp] def Action.inspected : Action ε → Option Bytes
  | .parsed header => some header
  | _ => none

@[simp] def Action.spoils : Action ε → Bool
  | .refused => true
  | .lost part => !part.isEmpty
  | _ => false

def delivered (log : List (Action ε)) : Bytes := log.flatMap Action.bytes

def headers (log : List (Action ε)) : List Bytes := log.filterMap Action.inspected

/-- The fence is where it should be. -/
def Clean (log : List (Action ε)) : Prop := ∀ a ∈ log, a.spoils = false

variable {ms : List Message} {log more : List (Action ε)} {s : State} {t : Turn ε}

theorem delivered_append (log more : List (Action ε)) :
    delivered (log ++ more) = delivered log ++ delivered more :=
  List.flatMap_append

theorem headers_append (log more : List (Action ε)) :
    headers (log ++ more) = headers log ++ headers more :=
  List.filterMap_append

/-! ## Messages -/

namespace Message

variable (m : Message)

theorem big_header : Bytes.big (m.header.drop 1) = m.body.length + 4 := by
  show Bytes.big (Bytes.ofBig 4 (m.body.length + 4)) = _
  rw [Bytes.big_ofBig]
  exact Nat.mod_eq_of_lt (by simpa using m.fits)

end Message

/-- What is in front of the first message of COPY. -/
def ordinary (ms : List Message) : List Message := ms.takeWhile (fun m => !m.copies)

theorem stream_append (ms ms' : List Message) : stream (ms ++ ms') = stream ms ++ stream ms' :=
  List.flatMap_append

/-- Messages that are not of COPY are in front of the first one that is. -/
theorem stream_prefix_ordinary {done todo : List Message} (h : ∀ m ∈ done, m.copies = false) :
    stream done <+: stream (ordinary (done ++ todo)) := by
  have hall : ∀ m ∈ done, (!m.copies) = true := fun m hm => by rw [h m hm]; rfl
  rw [ordinary, List.takeWhile_append_of_pos hall, stream_append]
  exact List.prefix_append _ _

theorem header_of_stream {m : Message} {todo : List Message} {header : Bytes}
    (h : header <+: stream (m :: todo)) (hlen : header.length = 5) :
    header = m.header ∧ (stream (m :: todo)).drop 5 = m.body ++ stream todo := by
  have hs : stream (m :: todo) = m.header ++ (m.body ++ stream todo) := by
    rw [stream, List.flatMap_cons, Message.encode, List.append_assoc]
    rfl
  rw [hs] at h ⊢
  have hlength : m.header.length = 5 := by
    rw [Message.header, List.length_cons, Bytes.length_ofBig]
  refine ⟨?_, List.drop_left' hlength⟩
  rw [List.prefix_iff_eq_take.mp h, hlen]
  exact List.take_left' hlength

/-! ## Runs -/

namespace State

/-- What the driver has not got of a header. -/
def held (s : State) : Bytes := if s.pending then s.header.drop s.offset else []

/-- **The fence is aligned**: the messages it has looked at are the first of
the stream and none of them is of COPY, and of these the driver has all but
what is held and what is left of the last one. -/
structure Aligned (ms : List Message) (log : List (Action ε)) (s : State)
    (done todo : List Message) (body : Bytes) : Prop where
  messages : ms = done ++ todo
  ordinary : ∀ m ∈ done, m.copies = false
  headers : headers log = done.map Message.header
  delivered : delivered log ++ s.held ++ body = stream done
  rest : s.rest = body ++ stream todo
  remaining : body.length = s.remaining
  header : s.pending = true → s.offset ≤ s.header.length
  start : s.pending = false → s.offset = 0

/-- What the fence has let through, and where it has looked for headers. -/
structure Safe (ms : List Message) (log : List (Action ε)) : Prop where
  headers : Fence.headers log <+: ms.map Message.header
  delivered : Fence.delivered log <+: stream (Fence.ordinary ms)

variable {done todo : List Message} {body : Bytes}

variable (h : s.Aligned ms log done todo body)
include h

theorem Aligned.safe : Safe ms log := by
  refine ⟨?_, ?_⟩
  · rw [h.headers, h.messages, List.map_append]
    exact List.prefix_append _ _
  · rw [h.messages]
    refine List.IsPrefix.trans ⟨s.held ++ body, ?_⟩ (stream_prefix_ordinary h.ordinary)
    rw [← List.append_assoc]
    exact h.delivered

omit h in
theorem Safe.append (h : Safe ms log) (hd : Fence.delivered more = [])
    (hh : Fence.headers more = []) : Safe ms (log ++ more) := by
  refine ⟨?_, ?_⟩
  · rw [headers_append, hh, List.append_nil]
    exact h.headers
  · rw [delivered_append, hd, List.append_nil]
    exact h.delivered

omit h in
/-- What is held is the piece that goes out, and what is held then. -/
theorem held_emit (hp : s.pending = true) (size : ℕ) :
    s.held = (s.header.drop s.offset).take (min size (s.header.length - s.offset))
      ++ (s.emit size : Turn ε).state.held := by
  have hheld : s.held = s.header.drop s.offset := by simp [held, hp]
  generalize hn : min size (s.header.length - s.offset) = n
  have hnext : (s.emit size : Turn ε).state.held = s.header.drop (s.offset + n) := by
    simp only [held, State.emit, hn]
    by_cases hf : s.offset + n = s.header.length
    · simp [hf]
    · simp [hf]
  rw [hnext, hheld, ← List.drop_drop, List.take_append_drop]

/-- **The next piece of a header.** -/
theorem Aligned.emit (hp : s.pending = true) (size : ℕ) :
    (s.emit size : Turn ε).state.Aligned ms (log ++ (s.emit size : Turn ε).actions) done todo
      body := by
  have hoff := h.header hp
  refine ⟨h.messages, h.ordinary, ?_, ?_, h.rest, h.remaining, fun _ => ?_, fun hf => ?_⟩
  · rw [headers_append, h.headers]
    simp [Fence.headers, State.emit]
  · rw [← h.delivered, delivered_append, held_emit (ε := ε) hp size]
    simp [Fence.delivered, State.emit]
  · simp only [State.emit]
    split
    · exact Nat.zero_le _
    · omega
  · simp only [State.emit, Bool.not_eq_false'] at hf ⊢
    rw [if_pos hf]

/-- **The next piece of a body.** -/
theorem Aligned.pass (hp : s.pending = false) {size : ℕ} {c : Chunk (Err ε)}
    (ht : s.pass size c = some t) :
    t.state.Aligned ms (log ++ t.actions) done todo (body.drop c.count) := by
  obtain ⟨hc, rfl⟩ := of_guard_not ht
  simp only [Bool.or_eq_true, decide_eq_true_eq, not_or, not_lt] at hc
  have hrem := h.remaining
  have hbody : c.count ≤ body.length := by omega
  have hheld : s.held = [] := by simp [held, hp]
  have htake : s.rest.take c.count = body.take c.count := by
    rw [h.rest, List.take_append_of_le_length hbody]
  refine ⟨h.messages, h.ordinary, ?_, ?_, ?_, ?_, fun hq => absurd (hp.symm.trans hq) nofun,
    h.start⟩
  · rw [headers_append, h.headers]
    simp [Fence.headers]
  · rw [← h.delivered, delivered_append, htake, hheld]
    simp [Fence.delivered, held, hp]
  · show s.rest.drop c.count = _
    rw [h.rest, List.drop_append_of_le_length hbody]
  · show (body.drop c.count).length = s.remaining - c.count
    rw [List.length_drop, hrem]

/-- **A header is that of the next message.** -/
theorem Aligned.next (hrem : s.remaining = 0) {header : Bytes} (hh : header <+: s.rest)
    (hlen : header.length = 5) :
    body = [] ∧ ∃ m todo', todo = m :: todo' ∧ header = m.header ∧
      s.rest.drop 5 = m.body ++ stream todo' ∧ ¬ Bytes.big (m.header.drop 1) < 4 := by
  have hbody : body = [] := List.length_eq_zero_iff.mp (h.remaining.trans hrem)
  have hrest : s.rest = stream todo := by simpa [hbody] using h.rest
  refine ⟨hbody, ?_⟩
  cases todo with
  | nil =>
    have hnil : header = [] := by simpa [hrest, stream] using hh
    exact absurd hlen (by simp [hnil])
  | cons m todo =>
    rw [hrest] at hh ⊢
    obtain ⟨rfl, hdrop⟩ := header_of_stream hh hlen
    refine ⟨m, todo, rfl, rfl, hdrop, ?_⟩
    rw [m.big_header]
    omega

/-- **A header is looked at** where a message begins. -/
theorem Aligned.inspect (hp : s.pending = false) (hrem : s.remaining = 0) {header : Bytes}
    (hh : header <+: s.rest) (hlen : header.length = 5) (size : ℕ) :
    Safe ms (log ++ (s.inspect header size : Turn ε).actions) ∧
      (Clean (s.inspect header size : Turn ε).actions → ∃ done todo body,
        (s.inspect header size : Turn ε).state.Aligned ms
          (log ++ (s.inspect header size : Turn ε).actions) done todo body) := by
  obtain ⟨hbody, m, todo, rfl, rfl, hdrop, hlong⟩ := h.next hrem hh hlen
  have hheld : s.held = [] := by simp [held, hp]
  have hdone : Fence.delivered log = stream done := by
    simpa [hbody, hheld] using h.delivered
  have hheaders : ∀ rest : List (Action ε), Fence.headers rest = [] →
      Fence.headers (log ++ .parsed m.header :: rest)
        = (done ++ [m]).map Message.header := by
    intro rest hr
    rw [headers_append, h.headers, List.map_append]
    unfold Fence.headers at hr ⊢
    simp [hr]
  unfold State.inspect
  rw [if_neg hlong]
  split
  · -- a message of COPY: it is refused, and nothing is delivered
    refine ⟨⟨?_, ?_⟩, fun hc => nomatch hc .refused (by simp)⟩
    · rw [hheaders _ rfl, h.messages]
      exact ⟨todo.map Message.header, by simp⟩
    · rw [delivered_append]
      simpa [Fence.delivered] using h.safe.delivered
  · next hcopy =>
    let s' : State := ⟨s.rest.drop 5, m.header, s.offset, true, Bytes.big (m.header.drop 1) - 4⟩
    have hnew : s'.Aligned ms (log ++ [.parsed m.header]) (done ++ [m]) todo m.body := by
      refine ⟨by simp [h.messages], ?_, hheaders [] rfl, ?_, ?_, ?_, ?_, nofun⟩
      · intro m' hm'
        obtain hm' | hm' := List.mem_append.mp hm'
        · exact h.ordinary m' hm'
        · obtain rfl := List.mem_singleton.mp hm'
          simpa [Message.copies, Message.header] using hcopy
      · have hs' : s'.held = m.header := by simp [held, s', h.start hp]
        rw [delivered_append, hdone, stream_append, hs']
        simp [Fence.delivered, stream, Message.encode]
      · exact hdrop
      · show m.body.length = Bytes.big (m.header.drop 1) - 4
        rw [m.big_header]
        rfl
      · exact fun _ => (h.start hp).trans_le (Nat.zero_le _)
    have hall := hnew.emit rfl size
    rw [List.append_assoc] at hall
    exact ⟨hall.safe, fun _ => ⟨_, _, _, hall⟩⟩

/-- **One step**: what is delivered is safe, and the fence stays aligned unless
it refuses a message or loses a part of a header. -/
theorem Aligned.read {size : ℕ} {chunks : List (Chunk (Err ε))} (ht : s.read size chunks = some t) :
    Safe ms (log ++ t.actions) ∧
      (Clean t.actions →
        ∃ done todo body, t.state.Aligned ms (log ++ t.actions) done todo body) := by
  have hquiet : ∀ {s' : State}, s'.held = s.held → s'.rest = s.rest →
      s'.remaining = s.remaining → (s'.pending = true → s'.offset ≤ s'.header.length) →
      (s'.pending = false → s'.offset = 0) → ∀ more : List (Action ε), Fence.delivered more = [] →
      Fence.headers more = [] → s'.Aligned ms (log ++ more) done todo body := by
    intro s' hheld hrest hrem hhead hstart more hd hh
    refine ⟨h.messages, h.ordinary, ?_, ?_, hrest.trans h.rest, h.remaining.trans hrem.symm, hhead,
      hstart⟩
    · rw [headers_append, hh, List.append_nil]
      exact h.headers
    · rw [delivered_append, hd, List.append_nil, hheld]
      exact h.delivered
  unfold State.read at ht
  repeat' split at ht
  any_goals cases ht
  · have hsame := hquiet rfl rfl rfl h.header h.start [.returned [] none] rfl rfl
    exact ⟨hsame.safe, fun _ => ⟨_, _, _, hsame⟩⟩
  · next hp =>
    have hnext := h.emit hp size
    exact ⟨hnext.safe, fun _ => ⟨_, _, _, hnext⟩⟩
  all_goals have hp := eq_false_of_ne_true ‹¬s.pending = true›
  · have hnext := h.pass hp ht
    exact ⟨hnext.safe, fun _ => ⟨_, _, _, hnext⟩⟩
  · next hfull =>
    obtain ⟨hpre, -, hlen⟩ := Reader.readFull_spec hfull
    exact h.inspect hp (by omega) hpre (hlen rfl) size
  · next part err hfull =>
    refine ⟨h.safe.append rfl rfl, fun hc => ⟨done, todo, body, ?_⟩⟩
    obtain rfl : part = [] := by simpa using hc (.lost part) (by simp)
    exact hquiet (by simp [held, hp]) rfl rfl (fun hq => nomatch hp.symm.trans hq) h.start _ rfl rfl

/-- **What is refused is COPY, and a part of a header is lost by an error of the
connection** with that many bytes. -/
theorem Aligned.spoiled {l : Event ε} (ht : s.read l.size l.chunks = some t) :
    (.refused ∈ t.actions → ∃ m todo', todo = m :: todo' ∧ m.copies = true) ∧
      ∀ part, .lost part ∈ t.actions → part.length < 5 ∧
        part.length = (l.chunks.map Chunk.count).sum ∧ ∃ c ∈ l.chunks, c.err.isSome = true := by
  unfold State.read at ht
  repeat' split at ht
  any_goals cases ht
  · simp
  · simp [State.emit]
  · obtain ⟨-, rfl⟩ := of_guard_not ht
    simp
  · next hfull =>
    obtain ⟨hpre, -, hlen⟩ := Reader.readFull_spec hfull
    obtain ⟨-, m, todo', rfl, rfl, -, hlong⟩ := h.next (by omega) hpre (hlen rfl)
    unfold State.inspect
    rw [if_neg hlong]
    split
    · next hcopy => exact ⟨fun _ => ⟨m, todo', rfl, hcopy⟩, by simp⟩
    · simp [State.emit]
  · next part err hfull =>
    obtain ⟨hsum, hlt, c, hc, herr⟩ := Reader.readFull_error hfull
    simp [hsum.symm, hlt]
    exact ⟨c, hc, by rw [herr]; rfl⟩

end State

/-- **A fence that has not lost its place.** -/
theorem aligned_of_run {tr : List (Event ε)} (hr : (machine ms).machine.Run tr s)
    (hc : Clean ((machine ms : Mealy State (Event ε) (Action ε)).log tr)) :
    ∃ done todo body, s.Aligned ms ((machine ms).log tr) done todo body := by
  refine Mealy.log_invariant (I := fun log s => Clean log →
    ∃ done todo body, s.Aligned ms log done todo body) ?_ (fun ih ht hc => ?_) hr hc
  · exact fun _ => ⟨[], ms, [], rfl, nofun, rfl, rfl, rfl, rfl, nofun, fun _ => rfl⟩
  · obtain ⟨done, todo, body, h⟩ := ih (fun a ha => hc a (List.mem_append_left _ ha))
    exact (h.read ht).2 (fun a ha => hc a (List.mem_append_right _ ha))

/-- **The fence is transparent, and stays aligned.** However the connection
cuts the stream and wherever it fails, the driver gets a beginning of the
stream and nothing of a message of COPY, and every header the fence looks at
is the header of the next message – as long as nobody reads on after the
fence has refused a message, or has lost a part of a header. It refuses
nothing but COPY, and what it loses has come with an error. -/
theorem delivers_beginning {tr : List (Event ε)} (hr : (machine ms).machine.Run tr s)
    (hc : Clean ((machine ms : Mealy State (Event ε) (Action ε)).log tr.dropLast)) :
    let log := (machine ms).log tr
    delivered log <+: stream ms ∧ delivered log <+: stream (ordinary ms) ∧
      headers log <+: ms.map Message.header ∧
      (Clean log → ∀ (l : Event ε) t, (machine ms).turn s l = some t →
        (.refused ∈ t.actions → ∃ done m todo, ms = done ++ m :: todo ∧
          headers log = done.map Message.header ∧ m.copies = true) ∧
        ∀ part, .lost part ∈ t.actions → part.length < 5 ∧
          part.length = (l.chunks.map Chunk.count).sum ∧ ∃ c ∈ l.chunks, c.err.isSome = true) := by
  intro log
  have hsafe : State.Safe ms log := by
    rcases tr.eq_nil_or_concat with rfl | ⟨tr, l, rfl⟩
    · exact ⟨List.nil_prefix, List.nil_prefix⟩
    · rw [List.concat_eq_append] at hr hc
      obtain ⟨s', u, hr', hu, -⟩ := hr.split
      obtain ⟨t, ht, -⟩ := Mealy.step_eq_some.mp hu
      rw [List.dropLast_concat] at hc
      obtain ⟨done, todo, body, h⟩ := aligned_of_run hr' hc
      show State.Safe ms ((machine ms).log (tr.concat l))
      rw [List.concat_eq_append, Mealy.log_concat hr' ht]
      exact (h.read ht).1
  refine ⟨hsafe.delivered.trans ?_, hsafe.delivered, hsafe.headers, fun hclean l t ht => ?_⟩
  swap
  · obtain ⟨done, todo, body, h⟩ := aligned_of_run hr hclean
    obtain ⟨hrefused, hlost⟩ := h.spoiled ht
    refine ⟨fun hm => ?_, hlost⟩
    obtain ⟨m, todo, rfl, hcopy⟩ := hrefused hm
    exact ⟨done, m, todo, h.messages, h.headers, hcopy⟩
  obtain ⟨rest, hrest⟩ := List.takeWhile_prefix (fun m : Message => !m.copies)
  refine ⟨stream rest, ?_⟩
  rw [← stream_append]
  exact congrArg stream hrest

def ready : Message := ⟨90, [73], by decide⟩

def copyData : Message := ⟨100, ready.encode, by decide⟩

/-- The fence of a connection whose errors say nothing. -/
abbrev fenced (ms : List Message) : Mealy State (Event Unit) (Action Unit) := machine ms

def expired : Option (Err Unit) := some (.native (.other ()))

/-- A message in three chunks, a deadline that expires, and a piece of the
next header. -/
def chunked : List (Event Unit) :=
  [⟨9, [⟨2, none⟩, ⟨3, none⟩]⟩, ⟨9, [⟨1, expired⟩]⟩, ⟨9, [⟨0, expired⟩]⟩, ⟨2, [⟨5, none⟩]⟩]

theorem delivers_beginning_chunked : ∃ s, (fenced [ready, ready]).machine.Run chunked s ∧
    delivered ((fenced [ready, ready]).log chunked) <+: stream [ready, ready] := by
  have hr := (fenced [ready, ready]).machine.run_reached chunked (by decide +kernel)
  exact ⟨_, hr, (delivers_beginning hr (by unfold Clean; decide +kernel)).1⟩

/-- **Nothing is kept back.** A fence that has not lost its place, holds no
part of a header and has read the connection to its end has delivered all
that the server has sent, and none of it was COPY. -/
theorem delivers_whole {tr : List (Event ε)} (hr : (machine ms).machine.Run tr s)
    (hc : Clean ((machine ms).log tr)) (hend : s.rest = []) (hp : s.pending = false) :
    delivered ((machine ms).log tr) = stream ms ∧ ∀ m ∈ ms, m.copies = false := by
  obtain ⟨done, todo, body, h⟩ := aligned_of_run hr hc
  obtain ⟨hbody, htodo⟩ := List.append_eq_nil_iff.mp (h.rest.symm.trans hend)
  have hdone : ms = done := by
    cases todo with
    | nil => exact h.messages.trans (List.append_nil _)
    | cons m todo => simp [stream, Message.encode, Message.header] at htodo
  have hall := h.delivered
  rw [hbody, show s.held = [] by simp [State.held, hp], List.append_nil, List.append_nil] at hall
  rw [← hdone] at hall
  exact ⟨hall, hdone ▸ h.ordinary⟩

/-- A message in two pieces. -/
theorem delivers_whole_ready :
    delivered ((fenced [ready]).log [⟨9, [⟨5, none⟩]⟩, ⟨9, [⟨1, none⟩]⟩]) = stream [ready] :=
  (delivers_whole ((fenced [ready]).machine.run_reached _ (by decide +kernel))
    (by unfold Clean; decide +kernel) (by decide +kernel) (by decide +kernel)).1

def interrupted : List (Event Unit) := [⟨9, [⟨2, expired⟩]⟩, ⟨9, [⟨5, none⟩]⟩]

def insisted : List (Event Unit) := [⟨9, [⟨5, none⟩]⟩, ⟨9, [⟨5, none⟩]⟩]

/-- **A header that is lost.** After two bytes of a header the connection
fails once, and what is read then is not what the server has sent. And when
the fence is read again after it has refused a message of COPY, the driver
gets what is in that message. -/
theorem header_lost :
    (∃ s, (fenced [ready, ready]).machine.Run interrupted s ∧
      ¬ delivered ((fenced [ready, ready]).log interrupted) <+: stream [ready, ready]) ∧
    ∃ s, (fenced [copyData]).machine.Run insisted s ∧
      ¬ delivered ((fenced [copyData]).log insisted) <+: stream (ordinary [copyData]) :=
  ⟨⟨_, (fenced [ready, ready]).machine.run_reached _ (by decide +kernel), by decide +kernel⟩,
    ⟨_, (fenced [copyData]).machine.run_reached _ (by decide +kernel), by decide +kernel⟩⟩

end Fence

end Pgx
