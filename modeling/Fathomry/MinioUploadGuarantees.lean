import Fathomry.MinioUpload

/-!
# What an upload sends

The log of a run says what the reader has given, which parts have been sent
and stored, and what has been asked to be published. While an upload is alive
these add up: the input is what is stored followed by what the buffer holds,
and all parts are full (`Filling`, `Filled`). The bytes that may still come
and the bytes a part may have decide together how much is asked for, so a
part that is not full, without the end of the input, is one byte too long –
and this is why every part but the last one is full and why the number of
parts never has to be limited.
-/

namespace Minio

namespace Upload

variable {ε : Type}

/-! ## Reading a log -/

structure Part where
  uploadID : String
  number : ℕ
  data : Bytes

/-- A request that publishes an object. -/
inductive Publication where
  | object (data : Bytes) (opts : Options)
  | parts (uploadID : String) (parts : List CompletePart) (opts : Options)

namespace Action

@[simp] def given : Action ε → Option (Bytes × Option (Err ε))
  | .read data err => some (data, err)
  | _ => none

@[simp] def sent : Action ε → Option Part
  | .part uploadID number data => some ⟨uploadID, number, data⟩
  | _ => none

@[simp] def kept : Action ε → Option (CompletePart × Part)
  | .stored uploadID p data => some (p, ⟨uploadID, p.number, data⟩)
  | _ => none

@[simp] def publication : Action ε → Option Publication
  | .put data opts => some (.object data opts)
  | .complete uploadID parts opts => some (.parts uploadID parts opts)
  | _ => none

@[simp] def aborted : Action ε → Option String
  | .abort uploadID => some uploadID
  | _ => none

/-- What only an upload that is over does. -/
@[simp] def ending : Action ε → Bool
  | .failed _ | .abort _ | .ended _ => true
  | _ => false

/-- What the label of a step accounts for. -/
@[simp] def tells : Action ε → Bool
  | .read _ _ | .adopted _ | .stored _ _ _ => true
  | _ => false

/-- What does not move any data. -/
@[simp] def neutral : Action ε → Bool
  | .failed _ | .abort _ | .ended _ | .adopted _ | .allocate _ => true
  | _ => false

end Action

@[simp] def Event.given : Event ε → Option (Bytes × Option (Err ε))
  | .read data err => some (data, err)
  | _ => none

/-- The object is acknowledged, by an answer without an error that confirms
it. -/
def Event.acknowledges (value : Source) (request : Request) : Event ε → Bool
  | .stored info none => confirms info.etag
  | .completed info none none =>
    confirms info.etag && info.bucket = value.bucket && info.key = request.key
  | _ => false

/-- **What a label means** where it is taken: the reader gives bytes, a
response is about this upload, and a part is stored by an answer without an
error that confirms it. -/
def State.told (value : Source) (request : Request) (s : State ε) : Event ε → List (Action ε)
  | .read data err => [.read data err]
  | .allocated uploadID [page] _ =>
    if (page.allocationIdentity value.bucket request.key uploadID).1 then [.adopted uploadID]
    else []
  | .partStored etag none =>
    if confirms etag then
      [.stored s.data.transfer.uploadID ⟨s.completed.length + 1, etag⟩ s.held]
    else []
  | _ => []

section Log

variable (log : List (Action ε))

def reads : List (Bytes × Option (Err ε)) := log.filterMap Action.given

/-- **All bytes the reader has given.** -/
def input : Bytes := ((reads log).map Prod.fst).flatten

def sent : List Part := log.filterMap Action.sent

def kept : List (CompletePart × Part) := log.filterMap Action.kept

def content : Bytes := ((kept log).map (fun x => x.2.data)).flatten

def publications : List Publication := log.filterMap Action.publication

def aborts : List String := log.filterMap Action.aborted

variable {log}

section

variable (more : List (Action ε))
include more

@[simp] theorem reads_append :
    reads (log ++ more) = reads log ++ reads more := List.filterMap_append

@[simp] theorem input_append :
    input (log ++ more) = input log ++ input more := by simp [input]

@[simp] theorem sent_append : sent (log ++ more) = sent log ++ sent more :=
  List.filterMap_append

@[simp] theorem kept_append : kept (log ++ more) = kept log ++ kept more :=
  List.filterMap_append

@[simp] theorem publications_append :
    publications (log ++ more) = publications log ++ publications more := List.filterMap_append

@[simp] theorem aborts_append :
    aborts (log ++ more) = aborts log ++ aborts more := List.filterMap_append

end

theorem aborts_eq_nil (h : ∀ a ∈ log, a.ending = false) : aborts log = [] := by
  refine List.filterMap_eq_nil_iff.mpr (fun a ha => ?_)
  have ha := h a ha
  cases a
  all_goals first | rfl | simp at ha

theorem number_of_mem_kept {x : CompletePart × Part} (h : x ∈ kept log) :
    x.2.number = x.1.number := by
  obtain ⟨a, -, ha⟩ := List.mem_filterMap.mp h
  cases a
  all_goals first | exact (Option.some.inj ha) ▸ rfl | cases ha

theorem length_content {n : ℕ} (h : ∀ x ∈ kept log, x.2.data.length = n) :
    (content log).length = (kept log).length * n := by
  have hlens : ((kept log).map (fun x => x.2.data)).map List.length
      = List.replicate (kept log).length n := by
    rw [List.map_map, List.eq_replicate_iff]
    refine ⟨List.length_map _, fun y hy => ?_⟩
    obtain ⟨x, hx, rfl⟩ := List.mem_map.mp hy
    exact h x hx
  rw [content, List.length_flatten, hlens, List.sum_replicate_nat]

/-- The data that a log tells of. -/
structure Same (log log' : List (Action ε)) : Prop where
  reads : reads log' = reads log
  sent : sent log' = sent log
  kept : kept log' = kept log
  publications : publications log' = publications log

theorem same_append {more : List (Action ε)} (h : ∀ a ∈ more, a.neutral = true) :
    Same log (log ++ more) := by
  have hnone : ∀ {β : Type} (f : Action ε → Option β),
      (∀ a : Action ε, a.neutral = true → f a = none) →
        (log ++ more).filterMap f = log.filterMap f := by
    intro β f hf
    rw [List.filterMap_append, List.filterMap_eq_nil_iff.mpr (fun a ha => hf a (h a ha)),
      List.append_nil]
  constructor
  all_goals
    refine hnone _ (fun a ha => ?_)
    cases a
    all_goals first | rfl | simp at ha

end Log

def Request.limit (value : Source) (request : Request) : ℤ :=
  if 0 ≤ request.size then min request.size value.maxTransferBytes else value.maxTransferBytes

theorem Request.limit_le (value : Source) (request : Request) :
    request.limit value ≤ value.maxTransferBytes := by
  unfold limit
  split
  · exact min_le_right _ _
  · exact le_rfl

/-- The input has ended, and nothing was wrong with it before. -/
def Ended (reads : List (Bytes × Option (Err ε))) : Prop :=
  ∃ earlier data, reads = earlier ++ [(data, some .eof)] ∧ ∀ r ∈ earlier, r.2 = none

section Spec

variable (value : Source) (request : Request) (log : List (Action ε))

/-- **The input is published.** It has ended and has the length it should
have, and there is a single request, which publishes all of it – as such, or
as the parts that were sent, which are all stored and in this order. -/
structure Published : Prop where
  ended : Ended (reads log)
  declared : 0 ≤ request.size → ((input log).length : ℤ) = request.size
  bounded : (input log).length ≤ value.maxTransferBytes
  sole : (∃ opts, publications log = [.object (input log) opts]) ∨
    ∃ uploadID opts, publications log = [.parts uploadID ((kept log).map Prod.fst) opts] ∧
      (kept log).map (fun x => x.1.number) = List.range' 1 (kept log).length ∧
      (∀ x ∈ kept log, x.2.uploadID = uploadID) ∧ content log = input log ∧
      sent log = (kept log).map Prod.snd

/-- **What holds for every log.** -/
structure Sound : Prop where
  consumed : ((input log).length : ℤ) ≤ request.limit value + 1
  numbered : (sent log).map Part.number = List.range' 1 (sent log).length
  full : ∀ x ∈ (sent log).dropLast, x.data.length = value.partBytes
  few : .failed .tooMany ∉ log
  published : publications log ≠ [] → Published value request log

variable {value request log}

theorem Published.same {log' : List (Action ε)} (h : Published value request log)
    (hs : Same log log') : Published value request log' := by
  refine ⟨?_, ?_, ?_, ?_⟩
  all_goals simp only [input, content, hs.reads, hs.kept, hs.sent, hs.publications]
  exacts [h.ended, h.declared, h.bounded, h.sole]

theorem Sound.same {log' : List (Action ε)} (h : Sound value request log) (hs : Same log log')
    (hfew : .failed .tooMany ∉ log') : Sound value request log' := by
  refine ⟨?_, ?_, ?_, hfew, fun hp => (h.published (hs.publications ▸ hp)).same hs⟩
  all_goals simp only [input, hs.reads, hs.sent]
  exacts [h.consumed, h.numbered, h.full]

/-- **A first publication**, of the whole input. -/
theorem Sound.publish (h : Sound value request log) {a : Action ε} {p : Publication}
    (ha : a.publication = some p) (hnil : publications log = []) (hended : Ended (reads log))
    (hsize : 0 ≤ request.size → ((input log).length : ℤ) = request.size)
    (hmax : (input log).length ≤ value.maxTransferBytes)
    (hsole : (∃ opts, p = .object (input log) opts) ∨
      ∃ uploadID opts, p = .parts uploadID ((kept log).map Prod.fst) opts ∧
        (kept log).map (fun x => x.1.number) = List.range' 1 (kept log).length ∧
        (∀ x ∈ kept log, x.2.uploadID = uploadID) ∧ content log = input log ∧
        sent log = (kept log).map Prod.snd) :
    Sound value request (log ++ [a]) ∧ publications (log ++ [a]) ≠ [] := by
  have hpub : publications (log ++ [a]) = [p] := by
    rw [publications_append, hnil]
    exact List.filterMap_cons_some ha
  have hkeep : ∀ {β : Type} (f : Action ε → Option β), f a = none →
      (log ++ [a]).filterMap f = log.filterMap f := by
    intro β f hf
    rw [List.filterMap_append, List.filterMap_cons_none hf, List.filterMap_nil, List.append_nil]
  have hreads : reads (log ++ [a]) = reads log := hkeep _ (by cases a; all_goals simp_all)
  have hsent : sent (log ++ [a]) = sent log := hkeep _ (by cases a; all_goals simp_all)
  have hkept : kept (log ++ [a]) = kept log := hkeep _ (by cases a; all_goals simp_all)
  have hfew : .failed .tooMany ∉ log ++ [a] := by
    intro hfew
    obtain hfew | hfew := List.mem_append.mp hfew
    · exact h.few hfew
    · rw [← List.mem_singleton.mp hfew] at ha
      cases ha
  refine ⟨⟨?_, ?_, ?_, hfew, fun _ => ⟨?_, ?_, ?_, ?_⟩⟩, by rw [hpub]; nofun⟩
  all_goals simp only [input, content, hreads, hsent, hkept, hpub]
  · exact h.consumed
  · exact h.numbered
  · exact h.full
  · exact hended
  · exact hsize
  · exact hmax
  · obtain ⟨opts, rfl⟩ | ⟨uploadID, opts, rfl, hparts⟩ := hsole
    · exact .inl ⟨opts, rfl⟩
    · exact .inr ⟨uploadID, opts, rfl, hparts⟩

end Spec

namespace State

variable (value : Source) (request : Request) (log : List (Action ε)) (s : State ε)

/-- The parts in the store are those the upload knows of, and `flight` is on
its way. -/
structure Kept (flight : List Part) : Prop where
  valid : -1 ≤ request.size ∧ request.size ≤ value.maxTransferBytes
  buffer : (s.buffer : ℤ) = min (value.partBytes : ℤ) (request.limit value) + 1
  parts : (kept log).map Prod.fst = s.completed
  numbered : (kept log).map (fun x => x.1.number) = List.range' 1 (kept log).length
  sent : sent log = (kept log).map Prod.snd ++ flight
  own : ∀ x ∈ kept log, x.2.uploadID = s.data.transfer.uploadID
  adopted : s.data.transfer.uploadID ≠ "" → .adopted s.data.transfer.uploadID ∈ log
  started : s.data.transfer.uploadID = "" → kept log = []
  alive : ∀ a ∈ log, a.ending = false
  incomplete : s.data.transfer.complete = false
  unpublished : publications log = []

/-- A part is read, or has been. -/
structure Loading : Prop extends s.Kept value request log [] where
  input : input log = content log ++ s.held
  full : ∀ x ∈ kept log, x.2.data.length = value.partBytes
  bytes : s.bytes = (content log).length
  le : (s.bytes : ℤ) ≤ request.limit value
  held : (s.held.length : ℤ) ≤ s.capacity value request

/-- There is room for more, and nothing was wrong. -/
structure Filling (n : ℕ) : Prop extends s.Loading value request log where
  capacity : (n : ℤ) = s.capacity value request
  room : s.held.length < n
  fine : ∀ r ∈ reads log, r.2 = none

/-- A part has been read, and it is full unless it is the last one. -/
structure Filled (flight : List Part) : Prop extends s.Kept value request log flight where
  input : input log = content log ++ s.held
  full : ∀ x ∈ kept log, x.2.data.length = value.partBytes
  bytes : s.bytes = (Upload.input log).length
  le : (s.bytes : ℤ) ≤ request.limit value
  more : s.eof = false → s.held.length = value.partBytes ∧ ∀ r ∈ reads log, r.2 = none
  last : s.eof = true → (s.ctxErr.isSome = true ∨ Ended (reads log)) ∧
    (0 ≤ request.size → (s.bytes : ℤ) = request.size)

/-- What has been read is in the store. -/
structure Drained : Prop extends s.Kept value request log [] where
  input : input log = content log
  full : ∀ x ∈ (kept log).dropLast, x.2.data.length = value.partBytes
  bytes : s.bytes = (Upload.input log).length
  le : (s.bytes : ℤ) ≤ request.limit value
  more : s.eof = false → (∀ x ∈ kept log, x.2.data.length = value.partBytes) ∧
    ∀ r ∈ reads log, r.2 = none
  last : s.eof = true → Ended (reads log) ∧ (0 ≤ request.size → (s.bytes : ℤ) = request.size)

/-- **An upload that can fail.** -/
structure Alive : Prop where
  sound : Sound value request log
  alive : ∀ a ∈ log, a.ending = false
  incomplete : s.data.transfer.complete = false
  adopted : s.data.transfer.uploadID ≠ "" → .adopted s.data.transfer.uploadID ∈ log

def FailedLate (log : List (Action ε)) (uploadID : String)
    (later : List (Action ε) → Prop) : Prop :=
  ∃ before reason after, log = before ++ .failed reason :: after ∧
    .adopted uploadID ∈ before ∧ later after

/-- **An upload that is over.** -/
structure Over : Prop where
  sound : Sound value request log
  complete : s.data.transfer.complete = true → publications log ≠ []
  once : (aborts log).length ≤ 1
  late : ∀ uploadID, .abort uploadID ∈ log → FailedLate log uploadID (.abort uploadID ∈ ·)
  reported : ∀ o, .ended o ∈ log → s.stage = .done ∧ ∀ d ∈ o.value, d = s.data

/-- **What a run knows about its state.** -/
def Track : Prop :=
  match s.stage with
  | .idle => log = [] ∧ ∃ ctxErr, s = { init with ctxErr := ctxErr }
  | .polling capacity _ | .reading capacity _ => s.Filling value request log capacity
  | .checking => s.Filled value request log []
  | .allocating =>
    s.Filled value request log [] ∧ s.data.transfer.uploadID = "" ∧ s.eof = false
  | .storing =>
    s.Filled value request log
      [⟨s.data.transfer.uploadID, s.completed.length + 1, s.held⟩] ∧
    s.data.transfer.uploadID ≠ "" ∧ (s.eof = true → Ended (reads log))
  | .putting | .completing => s.Alive value request log ∧ publications log ≠ []
  | .authorizing _ =>
    s.Over value request log ∧ aborts log = []
      ∧ FailedLate log s.data.transfer.uploadID (fun _ => True)
  | .aborting _ | .finishing _ _ | .done => s.Over value request log
  | .panicked => False

def Follows (t : Turn ε) : Prop := t.state.Track value request (log ++ t.actions)

variable {value request log s}

/-! ## Reading -/

theorem remaining_eq : s.remaining value request = request.limit value - s.bytes := by
  unfold remaining Request.limit
  simp only [Bool.and_eq_true, decide_eq_true_eq]
  split
  · next h => rw [if_pos h.1, min_eq_left (by omega)]
  · split
    · rw [min_eq_right (by omega)]
    · rfl

/-- A read asks for no more than a part, and for at most one byte too much –
which it does if it does not ask for a part. -/
theorem capacity_spec (h : (s.bytes : ℤ) ≤ request.limit value) :
    0 < s.capacity value request ∧ s.capacity value request ≤ value.partBytes ∧
      s.capacity value request ≤ request.limit value - s.bytes + 1 ∧
      (s.capacity value request = value.partBytes ∨
        s.capacity value request = request.limit value - s.bytes + 1) := by
  have hpart : (0 : ℤ) < value.partBytes := by
    have := value.le_partBytes
    unfold minPartBytes at this
    omega
  unfold capacity
  rw [remaining_eq]
  split
  · exact ⟨by omega, by omega, by omega, .inr rfl⟩
  · exact ⟨hpart, le_rfl, by omega, .inl rfl⟩

variable {flight : List Part}

/-- **A live upload has a sound log**, if its parts are full. -/
theorem Kept.sound (h : s.Kept value request log flight)
    (hflight : ∀ x ∈ flight, flight = [x] ∧ x.number = s.completed.length + 1)
    (hfull : ∀ x ∈ ((kept log).map Prod.snd ++ flight).dropLast, x.data.length = value.partBytes)
    (hconsumed : ((input log).length : ℤ) ≤ request.limit value + 1) : Sound value request log := by
  have hlen : (kept log).length = s.completed.length := by rw [← h.parts, List.length_map]
  have hnumbers : ((kept log).map Prod.snd).map Part.number = List.range' 1 s.completed.length := by
    rw [List.map_map, ← hlen, ← h.numbered]
    exact List.map_congr_left (fun x => number_of_mem_kept)
  refine ⟨hconsumed, ?_, ?_, fun hfew => ?_, fun hp => absurd h.unpublished hp⟩
  · rw [h.sent, List.map_append, hnumbers, List.length_append, List.length_map, hlen]
    cases flight with
    | nil => simp
    | cons x =>
      obtain ⟨hx, hn⟩ := hflight x (.head _)
      rw [hx, List.map_singleton, hn, List.length_singleton, List.range'_concat, Nat.one_mul,
        Nat.add_comm 1]
  · rw [h.sent]
    exact hfull
  · exact nomatch h.alive _ hfew

theorem Kept.toAlive (h : s.Kept value request log flight) (hsound : Sound value request log) :
    s.Alive value request log :=
  ⟨hsound, h.alive, h.incomplete, h.adopted⟩

variable {actions : List (Action ε)}

theorem Alive.fail (h : s.Alive value request (log ++ actions)) {reason : Reason ε}
    (hreason : reason ≠ .tooMany) : Follows value request log (s.fail reason actions) := by
  unfold Follows State.fail
  rw [← List.append_assoc]
  generalize log ++ actions = log at h
  have hends : ∀ a ∈ log ++ [.failed reason], a.ending = true → a = .failed reason := by
    intro a ha hend
    obtain ha | ha := List.mem_append.mp ha
    · rw [h.alive a ha] at hend
      cases hend
    · exact List.mem_singleton.mp ha
  have hover : ∀ stage, (s.goto stage).Over value request (log ++ [.failed reason]) := by
    intro stage
    refine ⟨h.sound.same (same_append (by simp)) (fun hmem => ?_), fun hc => ?_, ?_,
      fun uploadID hmem => ?_, fun o hmem => ?_⟩
    · injection hends _ hmem rfl with he
      exact hreason he.symm
    · rw [show (s.goto stage).data.transfer.complete = false from h.incomplete] at hc
      cases hc
    · rw [aborts_append, aborts_eq_nil h.alive]
      exact Nat.zero_le _
    all_goals exact nomatch hends _ hmem rfl
  by_cases hid : s.data.transfer.uploadID = ""
  · rw [if_neg (by simp [hid])]
    exact hover _
  · rw [if_pos hid]
    refine ⟨hover _, ?_, log, reason, [], rfl, h.adopted hid, trivial⟩
    rw [aborts_append, aborts_eq_nil h.alive]
    rfl

/-- An upload without a part on its way goes on, perhaps with a part. -/
theorem Kept.append {more : List (Action ε)} (h : s.Kept value request log [])
    (hmore : ∀ a ∈ more, a.ending = false)
    (hnil : Upload.kept more = [] ∧ publications more = []) :
    s.Kept value request (log ++ more) (Upload.sent more) := by
  obtain ⟨hkept, hpub⟩ := hnil
  have hkept : kept (log ++ more) = kept log := by rw [kept_append, hkept, List.append_nil]
  have hsent := h.sent.trans (List.append_nil _)
  refine ⟨h.valid, h.buffer, ?_, ?_, ?_, ?_, fun hid => List.mem_append_left _ (h.adopted hid), ?_,
    List.forall_mem_append.mpr ⟨h.alive, hmore⟩, h.incomplete, ?_⟩
  all_goals simp only [hkept, sent_append, hsent, publications_append, hpub, List.append_nil]
  exacts [h.parts, h.numbered, h.own, h.started, h.unpublished]

theorem Alive.failed (h : s.Alive value request log) {reason : Reason ε}
    (hreason : reason ≠ .tooMany) : Follows value request log (s.fail reason []) := by
  refine Alive.fail ?_ hreason
  rw [List.append_nil]
  exact h

theorem Loading.length_input (h : s.Loading value request log) :
    (Upload.input log).length = s.bytes + s.held.length := by
  rw [h.input, h.bytes, List.length_append]

theorem Loading.toAlive (h : s.Loading value request log) : s.Alive value request log := by
  refine h.toKept.toAlive (h.sound nofun (fun x hx => ?_) ?_)
  · rw [List.append_nil] at hx
    obtain ⟨y, hy, rfl⟩ := List.mem_map.mp (List.dropLast_subset _ hx)
    exact h.full y hy
  · obtain ⟨-, -, hcap, -⟩ := capacity_spec h.le
    have := h.held
    rw [h.length_input]
    omega

/-- **A part has been read**, or a read has failed: the upload fails, or goes
on with a part that is full unless it is the last one. -/
theorem Loading.received {err : Option (Err ε)} (h : s.Loading value request (log ++ actions))
    (hmore : err = none → (s.held.length : ℤ) = s.capacity value request
      ∧ ∀ r ∈ reads (log ++ actions), r.2 = none)
    (hlast : isEOF err = true → s.ctxErr.isSome = true ∨ Ended (reads (log ++ actions))) :
    Follows value request log (s.received value request err actions) := by
  have hlen := h.length_input
  have halive : (s.setTransfer { s.data.transfer with bytes := s.bytes + s.held.length }).Alive
      value request (log ++ actions) :=
    ⟨h.toAlive.sound, h.alive, h.incomplete, h.adopted⟩
  unfold State.received
  dsimp only
  split
  · exact halive.fail nofun
  next hmax =>
  split
  · exact halive.fail nofun
  next hsize =>
  simp only [Bool.and_eq_true, decide_eq_true_eq, not_and, not_lt] at hsize
  have hle : ((s.bytes + s.held.length : ℕ) : ℤ) ≤ request.limit value := by
    unfold Request.limit
    split
    · exact le_min (by omega) (by omega)
    · omega
  cases err with
  | none =>
    obtain ⟨hheld, hfine⟩ := hmore rfl
    refine ⟨{ h.toKept with }, h.input, h.full, hlen.symm, hle, fun _ => ?_, nofun⟩
    obtain ⟨-, -, -, hcap | hcap⟩ := capacity_spec h.le
    · rw [hcap] at hheld
      exact ⟨by exact_mod_cast hheld, hfine⟩
    · omega
  | some e =>
    cases he : isEOF (some e) with
    | false => exact halive.fail nofun
    | true =>
      dsimp only
      split
      · refine Alive.fail ?_ nofun
        exact { halive with }
      next hshort =>
      refine ⟨{ h.toKept with }, h.input, h.full, hlen.symm, hle, nofun,
        fun _ => ⟨hlast he, fun h0 => ?_⟩⟩
      show ((s.bytes + s.held.length : ℕ) : ℤ) = request.size
      simpa [h0] using hshort

variable {n : ℕ}

theorem Loading.readOn {empty : ℕ} (h : s.Loading value request (log ++ actions))
    (hn : (n : ℤ) = s.capacity value request) (hfine : ∀ r ∈ reads (log ++ actions), r.2 = none) :
    Follows value request log (s.readOn value request n empty actions) := by
  unfold State.readOn
  split
  · next hlt =>
    exact ⟨⟨{ h.toKept with }, h.input, h.full, h.bytes, h.le, h.held⟩, hn, hlt, hfine⟩
  · have hheld := h.held
    exact h.received (fun _ => ⟨by omega, hfine⟩) nofun

/-- **The next part.** The slice is in the buffer. -/
theorem Drained.next (h : s.Drained value request log) (he : s.eof = false) :
    Follows value request log (s.next value request) := by
  obtain ⟨hfull, hfine⟩ := h.more he
  obtain ⟨hpos, hpart, hcap, -⟩ := capacity_spec h.le
  have hbuffer := h.buffer
  have hin : s.capacity value request ≤ s.buffer := by
    rw [hbuffer]
    omega
  unfold State.next
  rw [if_pos (by simp only [Bool.and_eq_true, decide_eq_true_eq]; exact ⟨hpos.le, hin⟩)]
  have hload : ({ s with held := [] } : State ε).Loading value request log := by
    refine ⟨{ h.toKept with }, ?_, hfull, ?_, h.le, hpos.le⟩
    · rw [h.input]
      exact (List.append_nil _).symm
    · rw [← h.input]
      exact h.bytes
  rw [← List.append_nil log] at hload hfine
  exact hload.readOn (Int.toNat_of_nonneg hpos.le) hfine

theorem Filling.read {empty : ℕ} {data : Bytes} {err : Option (Err ε)}
    (h : s.Filling value request log n) (hroom : s.held.length + data.length ≤ n) :
    Follows value request log (s.read value request n empty data err) := by
  have hfine : ∀ r ∈ reads (log ++ [.read data none]), r.2 = none := by
    rw [reads_append]
    exact List.forall_mem_append.mpr ⟨h.fine, List.forall_mem_singleton.mpr rfl⟩
  have hload : ∀ err, ({ s with held := s.held ++ data } : State ε).Loading value request
      (log ++ [.read data err]) := by
    intro err
    have hcontent : content (log ++ [.read data err]) = content log := by simp [content, kept]
    have hk : s.Kept value request (log ++ [.read data err]) [] :=
      h.toKept.append (by simp) ⟨rfl, rfl⟩
    refine ⟨{ hk with }, ?_, ?_, ?_, h.le, ?_⟩
    · rw [hcontent, input_append, h.input, List.append_assoc,
        show input [.read data err] = data from
        List.append_nil _]
    · rw [kept_append]
      exact List.forall_mem_append.mpr ⟨h.full, nofun⟩
    · rw [hcontent]
      exact h.bytes
    · have hcap := h.capacity
      show ((s.held ++ data).length : ℤ) ≤ s.capacity value request
      rw [List.length_append]
      omega
  unfold State.read
  cases err with
  | some e =>
    refine (hload (some e)).received nofun (fun he => .inr ?_)
    cases e with
    | eof => exact ⟨reads log, data, reads_append _, h.fine⟩
    | _ => cases he
  | none =>
    dsimp only
    split
    · split
      · exact (hload none).received nofun nofun
      · exact (hload none).readOn h.capacity hfine
    · exact (hload none).readOn h.capacity hfine

/-! ## Sending -/

/-- **All parts are stored**: the upload is completed, or there is another
part. -/
theorem Drained.partDone (h : s.Drained value request (log ++ actions)) :
    Follows value request log (s.partDone value request actions) := by
  unfold State.partDone
  split
  · next he =>
    obtain ⟨hended, hsize⟩ := h.last he
    unfold Follows
    rw [← List.append_assoc]
    generalize log ++ actions = log at h hended
    have hsound : Sound value request log := by
      refine h.sound nofun (fun x hx => ?_) ?_
      · rw [List.append_nil, ← List.map_dropLast] at hx
        obtain ⟨y, hy, rfl⟩ := List.mem_map.mp hx
        exact h.full y hy
      · have := h.bytes
        have := h.le
        omega
    have hlen := h.bytes
    have hmax := h.le.trans (request.limit_le value)
    obtain ⟨hs, hne⟩ := hsound.publish
      (a := .complete s.data.transfer.uploadID s.completed s.opts) rfl h.unpublished hended
      (fun h0 => hlen ▸ hsize h0) (hlen ▸ Int.ofNat_le.mp hmax)
      (.inr ⟨_, _, by rw [h.parts], h.numbered, h.own, h.input.symm,
        h.sent.trans (List.append_nil _)⟩)
    refine ⟨⟨hs, ?_, h.incomplete, fun hid => List.mem_append_left _ (h.adopted hid)⟩, hne⟩
    exact List.forall_mem_append.mpr ⟨h.alive, by simp⟩
  · next he =>
    have := Drained.next h (by simpa using he)
    unfold Follows at this ⊢
    rw [List.append_assoc] at this
    exact this

variable {s' : State ε}

theorem Filled.move {flight' : List Part} {log' : List (Action ε)}
    (h : s.Filled value request log flight) (hk : s'.Kept value request log' flight')
    (hreads : reads log' = reads log) (hkept : kept log' = kept log)
    (hs : s'.held = s.held ∧ s'.eof = s.eof ∧ s'.ctxErr = s.ctxErr ∧ s'.bytes = s.bytes) :
    s'.Filled value request log' flight' := by
  obtain ⟨hheld, heof, hctx, hbytes⟩ := hs
  refine ⟨hk, ?_, ?_, ?_, ?_, ?_, ?_⟩
  all_goals simp only [Upload.input, content, hreads, hkept, hheld, heof, hctx, hbytes]
  exacts [h.input, h.full, h.bytes, h.le, h.more, h.last]

/-- The number of parts is no reason to fail: what is stored in so many parts
is all that may come. -/
theorem Filled.few (h : s.Filled value request log flight) (hheld : s.held ≠ []) :
    s.completed.length < value.maxParts := by
  by_contra hmany
  have hlen : (kept log).length = s.completed.length := by rw [← h.parts, List.length_map]
  have hbytes : s.bytes = s.completed.length * value.partBytes + s.held.length := by
    rw [h.bytes, h.input, List.length_append, length_content h.full, hlen]
  have hle := h.le
  have hlimit := request.limit_le value
  have hmax := value.maxTransferBytes_le
  have hpos := List.length_pos_of_ne_nil hheld
  have hmul : value.partBytes * value.maxParts ≤ s.completed.length * value.partBytes := by
    rw [Nat.mul_comm]
    exact Nat.mul_le_mul_right _ (by omega)
  omega

theorem Filled.drained (h : s.Filled value request log []) (hheld : s.held = [])
    (hended : s.eof = true → Ended (reads log)) : s.Drained value request log := by
  refine ⟨h.toKept, ?_, fun x hx => h.full x (List.dropLast_subset _ hx), h.bytes, h.le,
    fun he => ⟨h.full, (h.more he).2⟩, fun he => ⟨hended he, (h.last he).2⟩⟩
  rw [h.input, hheld, List.append_nil]

theorem Filled.toAlive (h : s.Filled value request log flight)
    (hflight : ∀ x ∈ flight, flight = [x] ∧ x.number = s.completed.length + 1) :
    s.Alive value request log := by
  refine h.toKept.toAlive (h.sound hflight (fun x hx => ?_) ?_)
  · have hx : x ∈ (kept log).map Prod.snd := by
      cases flight with
      | nil =>
        rw [List.append_nil] at hx
        exact List.dropLast_subset _ hx
      | cons y =>
        rw [(hflight y (.head _)).1, List.dropLast_concat] at hx
        exact hx
    obtain ⟨y, hy, rfl⟩ := List.mem_map.mp hx
    exact h.full y hy
  · have := h.bytes
    have := h.le
    omega

/-- **A part is sent**, unless there is none. -/
theorem Filled.sendPart (h : s.Filled value request (log ++ actions) [])
    (hid : s.data.transfer.uploadID ≠ "") (hended : s.eof = true → Ended (reads (log ++ actions))) :
    Follows value request log (s.sendPart value request actions) := by
  unfold State.sendPart
  split
  · next hheld => exact (h.drained hheld hended).partDone
  next hheld =>
  rw [if_neg (not_le.mpr (h.few hheld))]
  unfold Follows
  rw [← List.append_assoc]
  generalize log ++ actions = log at h hended
  have hreads : reads (log ++ [.part s.data.transfer.uploadID (s.completed.length + 1) s.held])
      = reads log := (reads_append _).trans (List.append_nil _)
  have hkept : kept (log ++ [.part s.data.transfer.uploadID (s.completed.length + 1) s.held])
      = kept log := (kept_append _).trans (List.append_nil _)
  have hk : s.Kept value request (log ++ [.part s.data.transfer.uploadID (s.completed.length + 1)
      s.held]) [⟨s.data.transfer.uploadID, s.completed.length + 1, s.held⟩] :=
    h.toKept.append (by simp) ⟨rfl, rfl⟩
  refine ⟨h.move { hk with } hreads hkept ⟨rfl, rfl, rfl, rfl⟩, hid, ?_⟩
  rw [hreads]
  exact hended

theorem Filled.partStored
    (h : s.Filled value request log [⟨s.data.transfer.uploadID, s.completed.length + 1, s.held⟩])
    (hid : s.data.transfer.uploadID ≠ "") (hended : s.eof = true → Ended (reads log))
    (etag : String) (err : Option (Err ε)) :
    Follows value request log (s.partStored value request etag err) := by
  have halive := h.toAlive (by simp)
  unfold State.partStored
  split
  · exact halive.failed nofun
  split
  · exact halive.failed nofun
  have hlen : (kept log).length = s.completed.length := by rw [← h.parts, List.length_map]
  refine Drained.partDone ?_
  generalize ha : Action.stored s.data.transfer.uploadID ⟨s.completed.length + 1, etag⟩
    s.held = a
  have hreads : reads (log ++ [a]) = reads log := by
    rw [reads_append, ← ha]
    exact List.append_nil _
  have hinput : Upload.input (log ++ [a]) = Upload.input log := by
    rw [input_append, ← ha]
    exact List.append_nil _
  have hkept : kept (log ++ [a]) = kept log ++ [(⟨s.completed.length + 1, etag⟩,
      ⟨s.data.transfer.uploadID, s.completed.length + 1, s.held⟩)] := by
    rw [kept_append, ← ha]
    rfl
  refine ⟨⟨h.valid, h.buffer, ?_, ?_, ?_, ?_, fun hid => List.mem_append_left _ (h.adopted hid), ?_,
    List.forall_mem_append.mpr ⟨h.alive, by simp [← ha]⟩, h.incomplete, ?_⟩, ?_, ?_, ?_, h.le,
    ?_, ?_⟩
  · rw [hkept, List.map_append, h.parts]
    rfl
  · rw [hkept, List.map_append, h.numbered, List.length_append, hlen, List.length_singleton,
      List.range'_concat, Nat.one_mul, Nat.add_comm 1]
    rfl
  · rw [sent_append, h.sent, hkept, ← ha, List.map_append, List.append_nil]
    exact List.append_nil _
  · rw [hkept]
    exact List.forall_mem_append.mpr ⟨h.own, List.forall_mem_singleton.mpr rfl⟩
  · exact fun he => absurd he hid
  · rw [publications_append, h.unpublished, ← ha]
    rfl
  · rw [hinput, h.input, content, content, hkept]
    simp
  · rw [hkept, List.dropLast_concat]
    exact h.full
  · rw [hinput]
    exact h.bytes
  · intro he
    rw [hkept, hreads]
    exact ⟨List.forall_mem_append.mpr ⟨h.full, List.forall_mem_singleton.mpr (h.more he).1⟩,
      (h.more he).2⟩
  · intro he
    rw [hreads]
    exact ⟨hended he, (h.last he).2⟩

theorem Filled.adopt (h : s.Filled value request log []) (hid : s.data.transfer.uploadID = "")
    (he : s.eof = false) (uploadID : String) (owned : Bool) (err : Option (Err ε)) :
    Follows value request log (s.adopt value request uploadID owned err) := by
  unfold State.adopt
  cases owned with
  | false =>
    have halive := h.toAlive nofun
    rw [if_neg nofun, if_neg nofun]
    split
    · exact halive.failed nofun
    · rw [if_pos hid]
      exact halive.failed nofun
  | true =>
    dsimp only
    rw [if_pos rfl, if_pos rfl]
    have hs : Same log (log ++ [.adopted uploadID]) := same_append (by simp)
    have hfilled : (s.setTransfer { s.data.transfer with uploadID := uploadID }).Filled
        value request (log ++ [.adopted uploadID]) [] := by
      have hk : s.Kept value request (log ++ [.adopted uploadID]) [] :=
        h.toKept.append (by simp) ⟨rfl, rfl⟩
      have hnil : kept (log ++ [.adopted uploadID]) = [] := hs.kept.trans (h.started hid)
      refine h.move ⟨hk.valid, hk.buffer, hk.parts, hk.numbered, hk.sent, ?_, ?_, fun _ => hnil,
        hk.alive, hk.incomplete, hk.unpublished⟩ hs.reads hs.kept ⟨rfl, rfl, rfl, rfl⟩
      · rw [hnil]
        nofun
      · exact fun _ => List.mem_append_right _ (.head _)
    have halive := hfilled.toAlive nofun
    split
    · exact halive.fail nofun
    split
    · exact halive.fail nofun
    · next hne =>
      refine hfilled.sendPart hne (fun heof => ?_)
      exact nomatch heof.symm.trans he

theorem Filled.allocated (h : s.Filled value request log []) (hid : s.data.transfer.uploadID = "")
    (he : s.eof = false) (uploadID : String) (pages : List (Page ε)) (err : Option (Err ε)) :
    Follows value request log (s.allocated value request uploadID pages err) := by
  unfold State.allocated
  split
  · exact h.adopt hid he _ _ _
  · exact (h.toAlive nofun).failed nofun

/-- **The whole input in one part**, the first of several parts, or another
one. -/
theorem Filled.send (h : s.Filled value request log []) (hctx : s.ctxErr = none) :
    Follows value request log (s.send value request) := by
  have hended : s.eof = true → Ended (reads log) := by
    intro he
    obtain hctx' | hended := (h.last he).1
    · rw [hctx] at hctx'
      cases hctx'
    · exact hended
  unfold State.send
  split
  · next hid =>
    split
    · next he =>
      have hheld : Upload.input log = s.held := by
        rw [h.input, content, h.started hid]
        rfl
      have hlen := h.bytes
      have hmax := h.le.trans (request.limit_le value)
      obtain ⟨hs, hne⟩ := (h.toAlive nofun).sound.publish (a := .put s.held s.opts) rfl
        h.unpublished (hended he) (fun h0 => hlen ▸ (h.last he).2 h0)
        (hlen ▸ Int.ofNat_le.mp hmax) (.inl ⟨s.opts, by rw [hheld]⟩)
      refine ⟨⟨hs, ?_, h.incomplete, fun hid => List.mem_append_left _ (h.adopted hid)⟩, hne⟩
      exact List.forall_mem_append.mpr ⟨h.alive, by simp⟩
    · next he =>
      have hs : Same log (log ++ [.allocate s.opts.initial]) := same_append (by simp)
      have hk : s.Kept value request (log ++ [.allocate s.opts.initial]) [] :=
        h.toKept.append (by simp) ⟨rfl, rfl⟩
      exact ⟨h.move { hk with } hs.reads hs.kept ⟨rfl, rfl, rfl, rfl⟩, hid, eq_false_of_ne_true he⟩
  · next hid =>
    refine Filled.sendPart ?_ hid ?_
    · rw [List.append_nil]
      exact h
    · rw [List.append_nil]
      exact hended

/-! ## The end -/

theorem Alive.publish (h : s.Alive value request log) (hne : publications log ≠ [])
    (info : UploadInfo) (size : ℕ) : Follows value request log (s.publish info size) := by
  unfold Follows
  rw [show (s.publish info size).actions = [] from rfl, List.append_nil]
  refine ⟨h.sound, fun _ => hne, ?_, fun uploadID hmem => ?_, fun o hmem => ?_⟩
  · rw [aborts_eq_nil h.alive]
    exact Nat.zero_le _
  all_goals exact nomatch h.alive _ hmem

theorem Alive.stored (h : s.Alive value request log) (hne : publications log ≠ [])
    (info : UploadInfo) (err : Option (Err ε)) : Follows value request log (s.stored info err) := by
  fun_cases State.stored
  iterate 2 exact h.failed nofun
  · exact h.publish hne _ _

theorem Alive.completedWith (h : s.Alive value request log) (hne : publications log ≠ [])
    (info : UploadInfo) (err responseErr : Option (Err ε)) :
    Follows value request log (s.completedWith value request info err responseErr) := by
  fun_cases State.completedWith
  iterate 2 exact h.failed nofun
  · exact h.publish hne _ _

theorem FailedLate.append {uploadID : String} {later : List (Action ε) → Prop}
    (h : FailedLate log uploadID later) {more : List (Action ε)} {later' : List (Action ε) → Prop}
    (hlater : ∀ after, later after → later' (after ++ more)) :
    FailedLate (log ++ more) uploadID later' := by
  obtain ⟨before, reason, after, rfl, hid, hl⟩ := h
  exact ⟨before, reason, after ++ more, by simp, hid, hlater after hl⟩

section

variable (h : s.Over value request log)
include h

/-- **An upload that is over** does nothing with data. -/
theorem Over.append {a : Action ε} (hneutral : a.neutral = true) (hreason : a ≠ .failed .tooMany)
    (hcomplete : s'.data.transfer.complete = s.data.transfer.complete)
    (honce : (aborts (log ++ [a])).length ≤ 1)
    (hlate : ∀ uploadID, a = .abort uploadID → FailedLate log uploadID (fun _ => True))
    (hreported : ∀ o, .ended o ∈ log ++ [a] → s'.stage = .done ∧ ∀ d ∈ o.value, d = s'.data) :
    s'.Over value request (log ++ [a]) := by
  have hs : Same log (log ++ [a]) := same_append (by simpa using hneutral)
  refine ⟨h.sound.same hs ?_, ?_, honce, fun uploadID hmem => ?_, hreported⟩
  · exact fun hfew => (List.mem_append.mp hfew).elim h.sound.few
      (fun hmem => hreason (List.mem_singleton.mp hmem).symm)
  · rw [hcomplete, hs.publications]
    exact h.complete
  · obtain hmem | hmem := List.mem_append.mp hmem
    · exact (h.late uploadID hmem).append (fun after => List.mem_append_left _)
    · obtain rfl := List.mem_singleton.mp hmem
      exact (hlate uploadID rfl).append (fun after _ => List.mem_append_right _ (.head _))

theorem Over.unreported (hstage : s.stage ≠ .done) (o : Invocation.Outcome Data (Err ε)) :
    .ended o ∉ log := fun hmem =>
  hstage (h.reported o hmem).1

theorem Over.silent (hstage : s.stage ≠ .done)
    (hcomplete : s'.data.transfer.complete = s.data.transfer.complete) :
    s'.Over value request (log ++ []) := by
  rw [List.append_nil]
  exact ⟨h.sound, by rw [hcomplete]; exact h.complete, h.once, h.late,
    fun o hmem => absurd hmem (h.unreported hstage o)⟩

theorem Over.authorized (haborts : aborts log = [])
    (hlate : FailedLate log s.data.transfer.uploadID (fun _ => True)) (hstage : s.stage ≠ .done)
    (primary : Err ε) (err : Option (Err ε)) (added : List (Option (Err ε))) :
    Follows value request log (s.authorized primary err added) := by
  cases err with
  | none =>
    refine h.append rfl nofun rfl ?_ (fun uploadID he => ?_) (fun o hmem => ?_)
    · rw [aborts_append, haborts]
      exact le_rfl
    · injection he with he
      exact he ▸ hlate
    · obtain hmem | hmem := List.mem_append.mp hmem
      · exact absurd hmem (h.unreported hstage o)
      · exact nomatch List.mem_singleton.mp hmem
  | some => exact h.silent hstage rfl

theorem Over.finished (hstage : s.stage ≠ .done) (primary cleanup wireErr closeErr : Option (Err ε))
    (added : List (Option (Err ε))) :
    Follows value request log (s.finished primary cleanup wireErr closeErr added) := by
  refine h.append rfl nofun rfl ?_ nofun (fun o hmem => ⟨rfl, ?_⟩)
  · rw [aborts_append]
    exact (List.length_append ..).trans_le h.once
  · obtain hmem | hmem := List.mem_append.mp hmem
    · exact absurd hmem (h.unreported hstage o)
    · injection List.mem_singleton.mp hmem with he
      rw [he]
      exact fun d hd => (Option.some.inj hd).symm

end

/-! ## The run -/

theorem writeOptions_ok {opts : Options} (h : writeOptions (ε := ε) value request = .ok opts) :
    -1 ≤ request.size ∧ request.size ≤ value.maxTransferBytes := by
  revert h
  fun_cases writeOptions
  all_goals rintro ⟨⟩
  next hvalid _ =>
  simp only [Bool.or_eq_true, decide_eq_true_eq, not_or, not_lt] at hvalid
  exact ⟨hvalid.1.1.1.1.1, hvalid.1.1.1.1.2⟩

theorem sound_nil : Sound value request ([] : List (Action ε)) := by
  refine ⟨?_, rfl, nofun, nofun, fun h => absurd rfl h⟩
  show (0 : ℤ) ≤ request.limit value + 1
  unfold Request.limit
  split
  · have : (0 : ℤ) ≤ min request.size value.maxTransferBytes := le_min (by omega) (by omega)
    omega
  · omega

theorem follows_put (ctxErr : Option (Err ε)) (valid given : Bool)
    (refusal expired : Option (Err ε)) :
    Follows value request [] (({ init with ctxErr := ctxErr } : State ε).put value request valid
      given refusal expired).2 := by
  have hidle : Follows value request [] ⟨({ init with ctxErr := ctxErr } : State ε), []⟩ :=
    ⟨rfl, ctxErr, rfl⟩
  fun_cases State.put
  iterate 4 exact hidle
  · refine ⟨sound_nil.same (same_append (by simp)) (by simp), nofun, Nat.zero_le _, ?_, ?_⟩
    · simp
    · exact fun o hmem => ⟨rfl, by simp_all⟩
  · next hopts _ _ =>
    obtain ⟨hlow, hhigh⟩ := writeOptions_ok hopts
    refine Drained.next ⟨⟨⟨hlow, hhigh⟩, ?_, rfl, rfl, rfl, nofun, fun h => absurd rfl h,
      fun _ => rfl, nofun, rfl, rfl⟩, rfl, nofun, rfl, ?_, fun _ => ⟨nofun, nofun⟩, nofun⟩ rfl
    · show ((_ : ℕ) : ℤ) = _
      dsimp only [Request.limit]
      split
      · omega
      · omega
    · show (0 : ℤ) ≤ request.limit value
      unfold Request.limit
      split
      · omega
      · omega

theorem Filled.cancel (h : s.Filled value request log flight) (err : Err ε) :
    ({ s with ctxErr := some err } : State ε).Filled value request log flight :=
  ⟨{ h.toKept with }, h.input, h.full, h.bytes, h.le, h.more, fun he => ⟨.inl rfl, (h.last he).2⟩⟩

theorem Filling.copy {ctxErr : Option (Err ε)} {stage : Stage ε}
    (h : s.Filling value request log n) :
    ({ s with ctxErr := ctxErr, stage := stage } : State ε).Filling value request log n :=
  ⟨{ h.toLoading with toKept := { h.toKept with } }, h.capacity, h.room, h.fine⟩

theorem Track.cancel (h : s.Track value request log) (err : Err ε) :
    Follows value request log ⟨{ s with ctxErr := some err }, []⟩ := by
  unfold Follows
  rw [List.append_nil]
  obtain ⟨buffer, held, eof, completed, opts, ctxErr, data, call, stage⟩ := s
  cases stage with
  | idle =>
    obtain ⟨rfl, ctxErr, hs⟩ := h
    injection hs
    subst_vars
    exact ⟨rfl, some err, rfl⟩
  | polling | reading => exact Filling.copy h
  | checking => exact Filled.cancel h err
  | allocating | storing => exact ⟨Filled.cancel h.1 err, h.2⟩
  | putting | completing | authorizing => exact ⟨{ h.1 with }, h.2⟩
  | aborting | finishing | done =>
    exact { h with }
  | panicked => exact h

/-- **Every step keeps track.** With the stage known, what is known about the
state and what the step does both compute. -/
theorem Track.turn {l : Event ε} {t : Turn ε} (h : s.Track value request log)
    (ht : s.turn value request l = some t) : Follows value request log t := by
  obtain ⟨buffer, held, eof, completed, opts, ctxErr, data, call, stage⟩ := s
  unfold State.turn at ht
  dsimp only at ht
  repeat' split at ht
  all_goals cases ht
  · obtain ⟨rfl, ctxErr, hs⟩ := h
    rw [hs]
    exact follows_put ctxErr _ _ _ _
  · exact h.cancel _
  · unfold Follows
    rw [List.append_nil]
    exact Filling.copy h
  · refine Loading.received ?_ nofun (fun _ => .inl rfl)
    rw [List.append_nil]
    exact h.toLoading
  · exact Filled.send h rfl
  · exact (Filled.toAlive h nofun).failed nofun
  · next hroom => exact Filling.read h hroom
  · refine Loading.received ?_ nofun nofun
    rw [List.append_nil]
    exact h.toLoading
  · exact h.1.stored h.2 _ _
  · exact h.1.allocated h.2.1 h.2.2 _ _ _
  · exact h.1.partStored h.2.1 h.2.2 _ _
  · exact h.1.completedWith h.2 _ _ _
  · exact h.1.authorized h.2.1 h.2.2 nofun _ _ _
  · exact Over.silent h nofun rfl
  · exact Over.finished h nofun _ _ _ _ _

theorem track_of_run {tr : List (Event ε)} (hr : (machine value request).machine.Run tr s) :
    s.Track value request ((machine value request).log tr) :=
  Mealy.log_invariant ⟨rfl, none, rfl⟩
    (fun h => h.turn) hr

theorem Track.alive_or_over (h : s.Track value request log) :
    s.stage ≠ .panicked ∧ (s.Alive value request log ∨ s.Over value request log) := by
  cases hstage : s.stage
  all_goals simp only [Track, hstage] at h
  case idle =>
    obtain ⟨rfl, ctxErr, rfl⟩ := h
    exact ⟨nofun, .inl ⟨sound_nil, nofun, rfl, fun hid => absurd rfl hid⟩⟩
  case polling | reading => exact ⟨nofun, .inl h.toAlive⟩
  case checking => exact ⟨nofun, .inl (h.toAlive nofun)⟩
  case allocating => exact ⟨nofun, .inl (h.1.toAlive nofun)⟩
  case storing => exact ⟨nofun, .inl (h.1.toAlive (by simp))⟩
  case putting | completing => exact ⟨nofun, .inl h.1⟩
  case authorizing => exact ⟨nofun, .inr h.1⟩
  case aborting | finishing | done => exact ⟨nofun, .inr h⟩

/-! ## Labels -/

/-- What follows a step of `upload` adds nothing that a label accounts for,
and does not complete the upload. -/
def Keeps (s : State ε) (actions : List (Action ε)) (t : Turn ε) : Prop :=
  t.actions.filter Action.tells = actions.filter Action.tells ∧
    t.state.data.transfer.complete = s.data.transfer.complete

theorem keeps_fail (s : State ε) (reason : Reason ε) (actions : List (Action ε)) :
    Keeps s actions (s.fail reason actions) :=
  ⟨by simp [State.fail], rfl⟩

theorem keeps_received (s : State ε) (err : Option (Err ε)) (actions : List (Action ε)) :
    Keeps s actions (s.received value request err actions) := by
  unfold State.received
  dsimp only
  repeat' split
  any_goals exact keeps_fail _ _ _
  exact ⟨rfl, rfl⟩

theorem keeps_readOn (s : State ε) (capacity empty : ℕ) (actions : List (Action ε)) :
    Keeps s actions (s.readOn value request capacity empty actions) := by
  unfold State.readOn
  split
  · exact ⟨rfl, rfl⟩
  · exact keeps_received _ _ _

theorem keeps_next (s : State ε) : Keeps s [] (s.next value request) := by
  unfold State.next
  dsimp only
  split
  · exact keeps_readOn { s with held := [] } _ _ _
  · exact ⟨rfl, rfl⟩

theorem keeps_partDone (s : State ε) (actions : List (Action ε)) :
    Keeps s actions (s.partDone value request actions) := by
  unfold State.partDone
  split
  · exact ⟨by simp, rfl⟩
  · obtain ⟨hactions, hcomplete⟩ : Keeps s [] (s.next value request) := keeps_next s
    exact ⟨by rw [List.filter_append, hactions, List.filter_nil, List.append_nil], hcomplete⟩

theorem keeps_sendPart (s : State ε) (actions : List (Action ε)) :
    Keeps s actions (s.sendPart value request actions) := by
  unfold State.sendPart
  split
  · exact keeps_partDone s actions
  split
  · exact keeps_fail _ _ _
  · exact ⟨by simp, rfl⟩

/-- **The log says what the label says**, and only an acknowledgement
completes an upload. -/
def Agrees (value : Source) (request : Request) (s : State ε) (l : Event ε) (t : Turn ε) : Prop :=
  t.actions.filter Action.tells = s.told value request l ∧
    (t.state.data.transfer.complete = true →
      s.data.transfer.complete = true ∨ l.acknowledges value request = true)

variable {l : Event ε} {t : Turn ε}

theorem Keeps.agrees {u : State ε} (h : Keeps u actions t)
    (hu : u.data.transfer.complete = s.data.transfer.complete)
    (hl : actions.filter Action.tells = s.told value request l) : Agrees value request s l t :=
  ⟨h.1.trans hl, fun hc => .inl ((h.2.trans hu).symm.trans hc)⟩

theorem agrees_put (valid given : Bool) (refusal expired : Option (Err ε)) :
    Agrees value request s (.put valid given refusal expired)
      (s.put value request valid given refusal expired).2 := by
  fun_cases State.put
  iterate 5 exact ⟨rfl, .inl⟩
  · exact (keeps_next _).agrees rfl rfl

theorem agrees_polled (ht : s.turn value request .polled = some t) :
    Agrees value request s .polled t := by
  unfold turn send at ht
  dsimp only at ht
  repeat' split at ht
  all_goals cases ht
  · exact ⟨rfl, .inl⟩
  · exact (keeps_received _ _ _).agrees rfl rfl
  iterate 2 exact ⟨rfl, .inl⟩
  · exact (keeps_sendPart _ _).agrees rfl rfl
  · exact (keeps_fail _ _ _).agrees rfl rfl

theorem agrees_read (capacity empty : ℕ) (data : Bytes) (err : Option (Err ε)) :
    Agrees value request s (.read data err) (s.read value request capacity empty data err) := by
  unfold State.read
  dsimp only
  repeat' split
  any_goals exact (keeps_received { s with held := s.held ++ data } _ _).agrees rfl rfl
  all_goals exact (keeps_readOn { s with held := s.held ++ data } _ _ _).agrees rfl rfl

theorem keeps_adopt (s : State ε) (uploadID : String) (owned : Bool) (err : Option (Err ε)) :
    Keeps s (if owned then [.adopted uploadID] else [])
      (s.adopt value request uploadID owned err) := by
  unfold adopt
  cases owned
  all_goals
    dsimp only
    repeat' split
    any_goals exact keeps_fail _ _ _
    any_goals exact keeps_sendPart _ _

theorem agrees_allocated (uploadID : String) (pages : List (Page ε)) (err : Option (Err ε)) :
    Agrees value request s (.allocated uploadID pages err)
      (s.allocated value request uploadID pages err) := by
  unfold State.allocated
  split
  · next page =>
    refine (keeps_adopt _ _ _ _).agrees rfl ?_
    show List.filter Action.tells (if (page.allocationIdentity _ _ uploadID).1 then _ else _)
      = if (page.allocationIdentity _ _ uploadID).1 then _ else _
    split
    · rfl
    · rfl
  · refine (keeps_fail _ _ _).agrees rfl ?_
    unfold told
    split
    all_goals simp_all

theorem agrees_partStored (etag : String) (err : Option (Err ε)) :
    Agrees value request s (.partStored etag err) (s.partStored value request etag err) := by
  cases err with
  | some => exact (keeps_fail _ _ _).agrees rfl rfl
  | none =>
    unfold State.partStored
    dsimp only
    split
    · next hc => exact (keeps_fail _ _ _).agrees rfl (by simp [told, hc])
    · next hc => exact (keeps_partDone _ _).agrees rfl (by simp [told, hc])

theorem agrees_stored (info : UploadInfo) (err : Option (Err ε)) :
    Agrees value request s (.stored info err) (s.stored info err) := by
  fun_cases State.stored
  iterate 2 exact (keeps_fail _ _ _).agrees rfl rfl
  · next hc => exact ⟨rfl, fun _ => .inr (by simpa [Event.acknowledges] using hc)⟩

theorem agrees_completed (info : UploadInfo) (err responseErr : Option (Err ε)) :
    Agrees value request s (.completed info err responseErr)
      (s.completedWith value request info err responseErr) := by
  fun_cases State.completedWith
  iterate 2 exact (keeps_fail _ _ _).agrees rfl rfl
  · next herr hc =>
    refine ⟨rfl, fun _ => .inr ?_⟩
    cases err
    all_goals cases responseErr
    all_goals simp_all [Fault.joined, Event.acknowledges]

theorem agrees_of_turn (ht : s.turn value request l = some t) : Agrees value request s l t := by
  cases l with
  | polled => exact agrees_polled ht
  | authorized err =>
    unfold turn at ht
    dsimp only at ht
    split at ht
    all_goals cases ht
    cases err
    all_goals exact ⟨rfl, .inl⟩
  | _ =>
    unfold turn at ht
    dsimp only at ht
    repeat' split at ht
    all_goals cases ht
    all_goals first
      | exact agrees_put _ _ _ _
      | exact agrees_read _ _ _ _
      | exact agrees_stored _ _
      | exact agrees_allocated _ _ _
      | exact agrees_partStored _ _
      | exact agrees_completed _ _ _
      | exact (keeps_received _ _ _).agrees rfl rfl
      | exact ⟨rfl, .inl⟩

theorem reads_of_turn (ht : s.turn value request l = some t) :
    reads t.actions = [l].filterMap Event.given := by
  have htells : reads t.actions = (t.actions.filter Action.tells).filterMap Action.given := by
    rw [List.filterMap_filter]
    refine List.filterMap_congr (fun a _ => ?_)
    cases a
    all_goals rfl
  rw [htells, (agrees_of_turn ht).1]
  fun_cases told
  all_goals simp_all [List.filterMap_cons]

/-- **The input is what the reader gave**, and an upload is complete by an
acknowledgement only. -/
theorem labels_of_run {tr : List (Event ε)} (hr : (machine value request).machine.Run tr s) :
    reads ((machine value request).log tr) = tr.filterMap Event.given ∧
      (s.data.transfer.complete = true → ∃ l ∈ tr, l.acknowledges value request = true) := by
  refine Mealy.invariant (I := fun tr s =>
    reads ((machine value request).log tr) = tr.filterMap Event.given ∧
      (s.data.transfer.complete = true → ∃ l ∈ tr, l.acknowledges value request = true))
    ⟨rfl, fun hc => absurd hc Bool.false_ne_true⟩ (fun {tr s l t} hr ih ht => ⟨?_, fun hc => ?_⟩) hr
  · rw [Mealy.log_concat hr ht, reads_append, ih.1, reads_of_turn ht, List.filterMap_append]
  · obtain hc | hl := (agrees_of_turn ht).2 hc
    · obtain ⟨l', hl', hack⟩ := ih.2 hc
      exact ⟨l', List.mem_append_left _ hl', hack⟩
    · exact ⟨l, by simp, hl⟩

/-- **An upload sends exactly its input.** In every run – whatever the
contexts, the reader and the store do – an upload that is reported to be
complete has published its input, all of it and only it, with one request that
was acknowledged; and there is no such request for an input that does not end
or has another length than it should. The input is what the reader gave, and
parts are stored by the answers that confirm them (`told`). Parts are numbered
from 1, and all but the last are full. No slice is out of range, no upload
fails because of the number of its parts, and at most one byte too much is
read. There is at most one abort, of an upload that has failed after its id was
adopted. -/
theorem sends_input {tr : List (Event ε)} (hr : (machine value request).machine.Run tr s) :
    let log := (machine value request).log tr
    reads log = tr.filterMap Event.given ∧
    (∀ l t, s.turn value request l = some t →
      t.actions.filter Action.tells = s.told value request l) ∧
    (∀ o, .ended o ∈ log → ∀ d ∈ o.value, d.transfer.complete = true →
      Published value request log ∧ ∃ l ∈ tr, l.acknowledges value request = true) ∧
    (publications log ≠ [] → Published value request log) ∧
    (sent log).map Part.number = List.range' 1 (sent log).length ∧
    (∀ x ∈ (sent log).dropLast, x.data.length = value.partBytes) ∧
    s.stage ≠ .panicked ∧ .failed .tooMany ∉ log ∧
    ((input log).length : ℤ) ≤ request.limit value + 1 ∧
    (aborts log).length ≤ 1 ∧
    ∀ uploadID, .abort uploadID ∈ log → FailedLate log uploadID (.abort uploadID ∈ ·) := by
  intro log
  obtain ⟨hreads, hack⟩ := labels_of_run hr
  refine ⟨hreads, fun l t ht => (agrees_of_turn ht).1, ?_⟩
  obtain ⟨hstage, h | h⟩ := (track_of_run hr).alive_or_over
  · have hs : Sound value request log := h.sound
    refine ⟨fun o hmem => absurd (h.alive _ hmem) nofun, hs.published, hs.numbered, hs.full, hstage,
      hs.few, hs.consumed, ?_, fun uploadID hmem => nomatch h.alive _ hmem⟩
    rw [aborts_eq_nil h.alive]
    exact Nat.zero_le _
  · have hs : Sound value request log := h.sound
    refine ⟨fun o hmem d hd hc => ?_, hs.published, hs.numbered, hs.full,
      hstage, hs.few, hs.consumed, h.once, h.late⟩
    rw [(h.reported o hmem).2 d hd] at hc
    exact ⟨hs.published (h.complete hc), hack hc⟩

def sampleSource : Source where
  bucket := "b"
  partBytes := minPartBytes
  maxParts := 7
  maxTransferBytes := 7 * minPartBytes
  le_partBytes := le_rfl
  partBytes_le := minPartBytes_le
  maxParts_pos := by decide
  maxParts_le := by decide
  maxTransferBytes_pos := by decide
  maxTransferBytes_le := by decide
  keyPrefix := ""
  writes := true
  plaintext := false

def sampleRequest : Request := ⟨"k", -1, true, "", "", [], ""⟩

def samplePage : Page Empty :=
  ⟨true, "InitiateMultipartUploadResult", ["b"], ["k"], ["u"], none, false, none, none⟩

def sampleRun (data : Bytes) : List (Event Empty) :=
  [.put true true none none, .polled, .read data none, .polled, .allocated "u" [samplePage] none,
    .partStored "e" none, .polled, .read [] (some .eof), .polled,
    .completed ⟨"b", "k", "e"⟩ none none]

theorem run_sample (data : Bytes) (h : data.length = 5242880) :
    ∃ s : State Empty, (machine sampleSource sampleRequest).machine.Run (sampleRun data) s ∧
      s.stage = .finishing none none ∧ s.data.transfer.complete = true := by
  have hne : data ≠ [] := List.length_pos_iff.mp (by omega)
  have hopts : writeOptions (ε := Empty) sampleSource sampleRequest
      = .ok ⟨"", [], false, true, ""⟩ := rfl
  have hpage : samplePage.allocationIdentity "b" "k" "u" = (true, none) := rfl
  have hetag : confirms "e" = true := by decide
  obtain ⟨h1, h2, h3, h4, h5, h6⟩ : sampleSource.partBytes = 5242880 ∧
      sampleSource.maxTransferBytes = 36700160 ∧ sampleSource.maxParts = 7 ∧
      sampleSource.bucket = "b" ∧ sampleRequest.key = "k" ∧ sampleRequest.size = -1 :=
    ⟨rfl, rfl, rfl, rfl, rfl, rfl⟩
  have hturn (s : State Empty) (l : Event Empty) : (machine sampleSource sampleRequest).turn s l
      = s.turn sampleSource sampleRequest l := rfl
  show ∃ s, (machine sampleSource sampleRequest).machine.exec init (sampleRun data) = some s ∧ _
  simp [-Machine.exec_singleton, sampleRun, Mealy.exec_cons, hturn, turn, put, hopts, next,
    capacity, remaining, readOn, State.read, received, send, State.allocated, hpage, adopt,
    sendPart, State.partStored, partDone, completedWith, publish, init, goto, setTransfer, bytes,
    isEOF, Fault.joined, Transfer.new, List.reduceOption, h, hne, hetag, h1, h2, h3, h4, h5, h6]

/-- A part is published, by a completion. -/
theorem sends_input_parts :
    ∃ (s : State Empty) (tr : List (Event Empty)),
      (machine sampleSource sampleRequest).machine.Run tr s ∧
      Published sampleSource sampleRequest ((machine sampleSource sampleRequest).log tr) ∧
      ∃ l ∈ tr, l.acknowledges sampleSource sampleRequest = true := by
  obtain ⟨u, hu, hstage, hc⟩ := run_sample (.replicate 5242880 7) List.length_replicate
  have ht : (machine sampleSource sampleRequest).turn u (.finished none none [])
      = some (u.finished none none none none []) := by
    simp only [machine, turn, hstage]
  have hr := hu.concat (Mealy.step_eq_some.mpr ⟨_, ht, rfl⟩)
  have hend := (Mealy.mem_log hr).mpr ⟨_, _, [], u, _, rfl, hu, ht, .head _⟩
  exact ⟨_, _, hr, (sends_input hr).2.2.1 _ hend u.data rfl hc⟩

end State

end Upload

end Minio
