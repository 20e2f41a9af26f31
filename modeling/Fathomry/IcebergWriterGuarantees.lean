import Fathomry.IcebergWriter

/-!
# All or nothing

Until a writer asks for its object, the bytes it has taken over are those in
the store followed by those in its buffer (`Alive`). It asks for the object
only in `Close`, only if no `Write` has failed, and only once all of the
bytes are where they belong. Whatever comes after this moves no data
(`Ended`), and an upload that is not completed is aborted there: the request
for this has been reserved as long as there is an upload.
-/

namespace Iceberg

variable {ε : Type}

structure Stored where
  uploadID : String
  part : CompletedPart
  data : Bytes
deriving DecidableEq

/-- A request that creates an object, and what was known when it was made:
the `Write`s that had failed, and how the writer was being ended. -/
structure Publication (ε : Type) where
  request : Request
  failures : List (Err ε)
  endings : List Bool

/-- **What a writer has done.** -/
structure View (ε : Type) where
  accepted : Bytes
  /-- What the `Write`s have returned. -/
  counts : List ℕ
  /-- The parts that were sent, with their uploads and numbers. -/
  sent : List (String × ℕ × Bytes)
  kept : List Stored
  publications : List (Publication ε)
  aborts : List String
  /-- `true` for `shutdown`. -/
  endings : List Bool
  failures : List (Err ε)

def Request.creates : Request → Bool
  | .put _ _ | .complete _ _ _ => true
  | _ => false

def Request.completes : Request → Bool
  | .complete _ _ _ => true
  | _ => false

namespace View

def empty : View ε := ⟨[], [], [], [], [], [], [], []⟩

variable (v : View ε)

def add : Action ε → View ε
  | .accepted data => { v with accepted := v.accepted ++ data }
  | .stored uploadID part data => { v with kept := v.kept ++ [⟨uploadID, part, data⟩] }
  | .request (.uploadPart uploadID number data) =>
    { v with sent := v.sent ++ [(uploadID, number, data)] }
  | .request (.put data cond) =>
    { v with publications := v.publications ++ [⟨.put data cond, v.failures, v.endings⟩] }
  | .request (.complete uploadID parts cond) =>
    { v with publications :=
        v.publications ++ [⟨.complete uploadID parts cond, v.failures, v.endings⟩] }
  | .request (.abort uploadID) => { v with aborts := v.aborts ++ [uploadID] }
  | .ending shutdown => { v with endings := v.endings ++ [shutdown] }
  | .wrote written err =>
    { v with counts := v.counts ++ [written], failures := v.failures ++ err.toList }
  | _ => v

def content : Bytes := (v.kept.map Stored.data).flatten

def completions : List (Publication ε) := v.publications.filter (fun x => x.request.completes)

end View

/-- What a log has done. -/
def view (log : List (Action ε)) : View ε := log.foldl View.add .empty

/-- **A request for the whole object**: for all bytes that were taken over,
and only if there is no such object. All parts but the last are full. -/
def Whole (config : Config) (v : View ε) (p : Request) : Prop :=
  p = .put v.accepted "*" ∨
    ∃ uploadID, p = .complete uploadID (v.kept.map Stored.part) "*" ∧
      v.kept.map (fun x => x.part.number) = List.range' 1 v.kept.length ∧
      (∀ x ∈ v.kept, x.uploadID = uploadID) ∧
      (∀ x ∈ v.kept.dropLast, x.data.length = config.partSize) ∧ v.content = v.accepted

namespace Writer

variable (config : Config) (v : View ε) (w : Writer ε)

/-- The upload of a writer that has not asked for its object. -/
structure Kept : Prop where
  parts : v.kept.map Stored.part = w.parts
  numbered : v.kept.map (fun x => x.part.number) = List.range' 1 v.kept.length
  own : ∀ x ∈ v.kept, x.uploadID = w.uploadID
  started : w.uploadID = "" → v.kept = []
  unpublished : v.publications = []
  unaborted : v.aborts = []
  submitted : w.completeSubmitted = false
  reserved : w.uploadID ≠ "" → w.abortReserved = true

/-- **A writer that can go on.** -/
structure Alive : Prop extends w.Kept v where
  accepted : v.accepted = v.content ++ w.held
  full : ∀ x ∈ v.kept, x.data.length = config.partSize
  room : w.held.length ≤ config.capacity
  total : w.total = v.accepted.length
  le : w.total ≤ config.maxObjectBytes
  fine : w.err = none → v.failures = []

/-- A `Write` with so many bytes to go. -/
structure Writing (data : Bytes) : Prop extends w.Alive config v where
  opened : w.closed = false
  quiet : v.endings = []
  good : w.err = none
  fits : w.total + data.length ≤ config.maxObjectBytes

structure Closing : Prop extends w.Alive config v where
  closed : w.closed = true
  ended : v.endings = [false]
  good : w.err = none

/-- All bytes are in the store, and the upload is to be completed. -/
structure Drained : Prop extends w.Kept v where
  accepted : v.accepted = v.content
  full : ∀ x ∈ v.kept.dropLast, x.data.length = config.partSize
  closed : w.closed = true
  ended : v.endings = [false]
  fine : v.failures = []
  existing : w.uploadID ≠ ""

/-- **An upload has been completed or aborted**, and not both. -/
def Finished (v : View ε) (uploadID : String) : Prop :=
  if uploadID = "" then v.completions = [] ∧ v.aborts = []
  else v.completions.length = 1 ∧ v.aborts = [] ∨ v.completions = [] ∧ v.aborts = [uploadID]

/-- **A writer that moves no data any more.** -/
structure Ended : Prop where
  closed : w.closed = true
  once : v.publications.length ≤ 1
  whole : ∀ x ∈ v.publications, Whole config v x.request ∧ x.failures = [] ∧ x.endings = [false]
  shut : true ∈ v.endings → v.publications = []
  finished : Finished v w.uploadID

/-- A flush, by `Write` of a full buffer or by `Close` of what is left. -/
def Flushing : Task → Prop
  | .write data _ => w.Writing config v data ∧ data ≠ [] ∧ w.held.length = config.partSize
  | .close => w.Closing config v ∧ w.held ≠ []

def Busy : Op → Task → Prop
  | .write, .write data _ => w.Writing config v data
  | .abortReservation, task => w.Flushing config v task ∧ w.uploadID = ""
  | .multipartCreate, task =>
    w.Flushing config v task ∧ w.uploadID = "" ∧ w.abortReserved = true
  | .uploadPart, task => w.Flushing config v task ∧ w.uploadID ≠ ""
  | .put, .close => w.Closing config v ∧ w.uploadID = ""
  | .multipartComplete, .close => w.Drained config v
  | _, _ => False

/-- An object has been asked for: there is nothing to abort. -/
def Asked : Prop := w.Ended config v ∧ (w.uploadID = "" ∨ w.completeSubmitted = true)

/-- **What a run knows about its writer.** -/
def Track : Prop :=
  match w.stage with
  | .free => if w.closed then w.Ended config v else w.Alive config v ∧ v.endings = []
  | .starting (.write _ _) => w.Alive config v ∧ w.closed = false ∧ v.endings = [] ∧
      w.err = none
  | .starting .close => w.Alive config v ∧ w.closed = true ∧ v.endings = [false]
  | .reserving op task | .reserved op task => w.Busy config v op task
  | .requesting .put _ | .requesting .multipartComplete _ => w.Asked config v
  | .requesting op task => w.Busy config v op task
  | .claiming data => w.Writing config v data ∧ w.buffer = none ∧ data ≠ []
  | .returning _ err => w.Alive config v ∧ w.closed = false ∧ v.endings = [] ∧
      (w.err = none → err = none)
  | .aborting _ | .departing | .draining | .releasing | .notifying => w.Ended config v

def Follows (t : Turn ε) : Prop := t.state.Track config (t.actions.foldl View.add v)

variable {config v w}

variable {err : Option (Err ε)} {buffer : Option Bytes} {stage : Stage ε}

/-- What the upload of a writer does not depend on. -/
theorem Kept.congr {closed : Bool} {total : ℕ} (h : w.Kept v) :
    ({ w with closed := closed, err := err, buffer := buffer, total := total, stage := stage } :
      Writer ε).Kept v :=
  { h with }

@[inherit_doc Kept.congr]
theorem Kept.view {accepted : Bytes} {counts : List ℕ} {sent : List (String × ℕ × Bytes)}
    {endings : List Bool} {failures : List (Err ε)} (h : w.Kept v) :
    w.Kept { v with
      accepted := accepted, counts := counts, sent := sent, endings := endings,
      failures := failures } :=
  { h with }

theorem Alive.congr {closed : Bool} (h : w.Alive config v) (hheld : buffer.getD [] = w.held)
    (herr : err = none → w.err = none) :
    ({ w with closed := closed, err := err, buffer := buffer, stage := stage } :
      Writer ε).Alive config v := by
  refine ⟨h.toKept.congr, ?_, h.full, ?_, h.total, h.le, fun he => h.fine (herr he)⟩
  · rw [h.accepted, ← hheld]
    rfl
  · exact (congrArg List.length hheld).trans_le h.room

variable {data : Bytes}

theorem Writing.goto (h : w.Writing config v data) (stage : Stage ε) :
    (w.goto stage).Writing config v data :=
  ⟨h.toAlive.congr rfl id, h.opened, h.quiet, h.good, h.fits⟩

theorem Closing.goto (h : w.Closing config v) (stage : Stage ε) : (w.goto stage).Closing config v :=
  ⟨h.toAlive.congr rfl id, h.closed, h.ended, h.good⟩

variable {task : Task}

theorem Flushing.goto (h : w.Flushing config v task) (stage : Stage ε) :
    (w.goto stage).Flushing config v task := by
  cases task with
  | write | close => exact ⟨h.1.goto stage, h.2⟩

theorem Flushing.sent {sent : List (String × ℕ × Bytes)} (h : w.Flushing config v task) :
    w.Flushing config { v with sent := sent } task := by
  cases task with
  | write | close => exact ⟨{ h.1 with toKept := h.1.toKept.view }, h.2⟩

theorem Flushing.upload {uploadID : String} {reserved : Bool} (h : w.Flushing config v task)
    (hk : w.Kept v →
      ({ w with uploadID := uploadID, abortReserved := reserved, stage := stage } : Writer ε).Kept
        v) :
    ({ w with uploadID := uploadID, abortReserved := reserved, stage := stage } :
      Writer ε).Flushing config v task := by
  cases task with
  | write =>
    obtain ⟨h, hdata, hheld⟩ := h
    exact ⟨{ h with toKept := hk h.toKept }, hdata, hheld⟩
  | close =>
    obtain ⟨h, hheld⟩ := h
    exact ⟨{ h with toKept := hk h.toKept }, hheld⟩

/-! ## The end -/

theorem Ended.congr {total : ℕ} {parts : List CompletedPart} {submitted reserved : Bool}
    (h : w.Ended config v) :
    ({ w with err := err, buffer := buffer, total := total, parts := parts,
              completeSubmitted := submitted, abortReserved := reserved, stage := stage } :
      Writer ε).Ended config v :=
  { h with }

variable {ending : Ending} {actions : List (Action ε)}

theorem Ended.depart (h : w.Ended config (actions.foldl View.add v)) :
    Follows config v (w.depart ending actions) := by
  unfold Writer.depart
  split
  all_goals exact h.congr

theorem Ended.aborted (h : w.Ended config (actions.foldl View.add v)) :
    Follows config v (w.aborted ending err actions) := by
  unfold Writer.aborted
  split
  · exact h.congr.depart
  · exact h.depart

/-- **An upload that was not completed is aborted**, if there is one. -/
theorem Kept.abort (h : w.Kept (actions.foldl View.add v)) (hclosed : w.closed = true) :
    Follows config v (w.abort ending actions) := by
  generalize hv : actions.foldl View.add v = v' at h
  have hnil : v'.publications = [] := h.unpublished
  have hcompletions : v'.completions = [] := by
    rw [View.completions, hnil]
    rfl
  unfold Writer.abort
  split
  · next hnone =>
    have hid : w.uploadID = "" := by
      by_contra hid
      simp [hid, h.submitted, h.reserved hid] at hnone
    refine Ended.aborted ?_
    rw [hv]
    refine ⟨hclosed, by rw [hnil]; exact Nat.zero_le _, by rw [hnil]; nofun, fun _ => hnil, ?_⟩
    rw [Finished, if_pos hid]
    exact ⟨hcompletions, h.unaborted⟩
  · next hsome =>
    have hid : w.uploadID ≠ "" := fun hid => hsome (by simp [hid])
    unfold Follows
    rw [List.foldl_append, hv, List.foldl_cons, List.foldl_nil]
    have hp : (v'.add (.request (.abort w.uploadID))).publications = [] := hnil
    have ha : (v'.add (.request (.abort w.uploadID))).aborts = [w.uploadID] :=
      congrArg (· ++ [w.uploadID]) h.unaborted
    generalize v'.add (.request (.abort w.uploadID)) = v'' at hp ha ⊢
    refine ⟨hclosed, by rw [hp]; exact Nat.zero_le _, by rw [hp]; nofun, fun _ => hp, ?_⟩
    rw [Finished, if_neg hid, View.completions, hp]
    exact .inr ⟨rfl, ha⟩

theorem Kept.committed {err : Err ε} (h : w.Kept v) (hclosed : w.closed = true) :
    Follows config v (w.committed (some err) []) :=
  Kept.abort (h.congr) hclosed

theorem Asked.committed (h : w.Asked config v) : Follows config v (w.committed err []) := by
  unfold Writer.committed
  cases err with
  | none => exact h.1.congr.depart
  | some =>
    dsimp only
    unfold Writer.abort
    rw [if_pos (by obtain hid | hc := h.2; all_goals simp [*])]
    exact h.1.congr.aborted

/-- **The object is asked for.** -/
theorem Kept.asked {p : Request} (h : w.Kept v) (hclosed : w.closed = true)
    (hfine : v.failures = []) (hended : v.endings = [false]) (hp : p.creates = true)
    (hwhole : Whole config v p)
    (hkind : p.completes = true ↔ w.uploadID ≠ "") : w.Ended config (v.add (.request p)) := by
  have hadd : v.add (.request p) = { v with publications := [⟨p, [], [false]⟩] } := by
    cases p
    case put data cond => rw [View.add, h.unpublished, hfine, hended]; rfl
    case complete uploadID parts cond => rw [View.add, h.unpublished, hfine, hended]; rfl
    all_goals cases hp
  rw [hadd]
  refine ⟨hclosed, le_rfl, List.forall_mem_singleton.mpr ⟨hwhole, rfl, rfl⟩, ?_, ?_⟩
  · rw [hended]
    simp
  · have hcompletions : ({ v with publications := [⟨p, [], [false]⟩] } : View ε).completions
        = if p.completes then [⟨p, [], [false]⟩] else [] :=
      List.filter_singleton.trans (Bool.cond_eq_ite _ _ _)
    unfold Finished
    rw [hcompletions]
    split
    · next hid => exact ⟨if_neg (fun hc => hkind.mp hc hid), h.unaborted⟩
    · next hid =>
      rw [if_pos (hkind.mpr hid)]
      exact .inl ⟨rfl, h.unaborted⟩

/-! ## Tasks -/

theorem Writing.failWrite (h : w.Writing config v data) (written : ℕ) (err : Err ε) :
    (w.failWrite written err).Track config v := by
  exact ⟨h.toAlive.congr rfl nofun, h.opened, h.quiet, nofun⟩

theorem Flushing.failTask (h : w.Flushing config v task) (err : Err ε) :
    Follows config v (w.failTask task err) := by
  cases task with
  | write data written => exact h.1.failWrite written err
  | close => exact h.1.toKept.committed h.1.closed

theorem Flushing.flushPart (h : w.Flushing config v task) (hs : w.flushPart task = .ok stage) :
    (w.goto stage).Track config v := by
  unfold Writer.flushPart at hs
  split at hs
  · cases hs
  split at hs
  iterate 2
    next hid =>
    cases hs
    exact ⟨h.goto _, hid⟩

/-- **The loop of `Write`.** A buffer that has to be flushed is a full part:
if it was shorter, the object would be at its limit. -/
theorem Writing.pump {written : ℕ} (h : w.Writing config (actions.foldl View.add v) data) :
    Follows config v (w.pump config data written actions) := by
  unfold Writer.pump
  dsimp only
  generalize hcount : min (config.capacity - w.held.length) data.length = count
  have hle : count ≤ data.length := hcount ▸ Nat.min_le_right _ _
  have hchunk : (data.take count).length = count := List.length_take_of_le hle
  have hroom := h.room
  have hfits := h.fits
  have hnext : ({ w with buffer := some (w.held ++ data.take count), total := w.total + count } :
      Writer ε).Writing config ((actions ++ [Action.accepted (data.take count)]).foldl View.add v)
        (data.drop count) := by
    rw [List.foldl_append]
    have hk : w.Kept ((actions.foldl View.add v).add (.accepted (data.take count))) :=
      h.toKept.view
    refine ⟨⟨hk.congr, ?_, h.full, ?_, ?_, ?_, h.fine⟩, h.opened, h.quiet, h.good, ?_⟩
    · show (actions.foldl View.add v).accepted ++ data.take count = _
      rw [h.accepted, List.append_assoc]
      rfl
    · show (w.held ++ data.take count).length ≤ config.capacity
      rw [List.length_append, hchunk]
      omega
    · show w.total + count = ((actions.foldl View.add v).accepted ++ data.take count).length
      rw [List.length_append, hchunk, h.total]
    · show w.total + count ≤ config.maxObjectBytes
      omega
    · show w.total + count + (data.drop count).length ≤ config.maxObjectBytes
      rw [List.length_drop]
      omega
  split
  · exact ⟨(hnext.goto _).toAlive, hnext.opened, hnext.quiet, fun _ => rfl⟩
  next hmore =>
  have hlt : count < data.length := by
    by_contra hge
    exact hmore (List.drop_eq_nil_of_le (by omega))
  have hfull : (w.held ++ data.take count).length = config.partSize := by
    have hcap : (w.held ++ data.take count).length = config.capacity := by
      rw [List.length_append, hchunk]
      omega
    have hle : w.held.length ≤ w.total := by
      rw [h.total, h.accepted, List.length_append]
      omega
    rw [hcap]
    unfold Config.capacity at hcap ⊢
    rw [List.length_append, hchunk] at hcap
    omega
  have hflush : Flushing config _ _ (.write (data.drop count) (written + count)) :=
    ⟨hnext, hmore, hfull⟩
  split
  · exact hnext.failWrite _ _
  · next stage hs => exact hflush.flushPart hs

theorem Closing.commit (h : w.Closing config v) : Follows config v w.commit := by
  unfold Writer.commit
  split
  · next hid => exact ⟨h.goto _, hid⟩
  next hid =>
  split
  · next hheld =>
    refine ⟨h.toKept.congr, ?_,
      fun x hx => h.full x (List.dropLast_subset _ hx), h.closed, h.ended, h.fine h.good, hid⟩
    show v.accepted = v.content
    rw [h.accepted, hheld, List.append_nil]
  next hheld =>
  have hflush : w.Flushing config v .close := ⟨h, hheld⟩
  split
  · exact h.toKept.committed h.closed
  · next stage hs => exact hflush.flushPart hs

/-! ## Steps -/

/-- **What a step can be**: where the writer is, and what it does there. -/
inductive Turned (config : Config) (w : Writer ε) : WriterEvent ε → Turn ε → Prop
  | write (data : Bytes) (hs : w.stage = .free) : Turned config w (.write data) (w.write data)
  | close (hs : w.stage = .free) : Turned config w .close w.close
  | shutdown (hs : w.stage = .free) : Turned config w .shutdown w.shutdown
  | started (task : Task) (err : Option (Err ε)) (hs : w.stage = .starting task) :
      Turned config w (.started err) (w.started config task err)
  | admitted (op : Op) (task : Task) (err : Option (Err ε)) (hs : w.stage = .reserving op task) :
      Turned config w (.admitted err) (w.admitted op task err)
  | answered (op : Op) (task : Task) (err : Option (Err ε)) (hs : w.stage = .reserved op task) :
      Turned config w (.answered err) (w.reserved config op task err)
  | claimed (data : Bytes) (err : Option (Err ε)) (hs : w.stage = .claiming data) :
      Turned config w (.answered err) (w.claimed config data err)
  | created (task : Task) (err : Option (Err ε)) (uploadID : String)
      (hs : w.stage = .requesting .multipartCreate task) :
      Turned config w (.created err uploadID) (w.created task err uploadID)
  | uploaded (task : Task) (err : Option (Err ε)) (etag : String)
      (hs : w.stage = .requesting .uploadPart task) :
      Turned config w (.uploaded err etag) (w.uploaded config task err etag)
  | stored (op : Op) (err : Option (Err ε)) (etag : String)
      (ho : op = .put ∨ op = .multipartComplete) (hs : w.stage = .requesting op .close) :
      Turned config w (.stored err etag) (w.stored op err etag)
  | aborted (ending : Ending) (err : Option (Err ε)) (hs : w.stage = .aborting ending) :
      Turned config w (.aborted err) (w.aborted ending err [])
  | returned (written : ℕ) (err : Option (Err ε)) (hs : w.stage = .returning written err) :
      Turned config w .left ⟨w.goto .free, [.wrote written err]⟩
  | departed (hs : w.stage = .departing) : Turned config w .left ⟨w.goto .draining, []⟩
  | drained (hs : w.stage = .draining) : Turned config w .drained (w.drained config)
  | released (hs : w.stage = .releasing) : Turned config w .released ⟨w.goto .notifying, []⟩
  | notified (hs : w.stage = .notifying) : Turned config w .notified ⟨w.goto .free, [.unclaim]⟩

/-- Every proof about steps splits here, and never unfolds `turn`. -/
theorem turned {l : WriterEvent ε} {t : Turn ε} (ht : w.turn config l = some t) :
    Turned config w l t := by
  revert ht
  fun_cases Writer.turn
  all_goals rintro ⟨⟩
  all_goals constructor
  all_goals first | assumption | simp only [true_or, or_true]

variable {op : Op}

theorem Busy.failTask (h : w.Busy config v op task) (err : Err ε) :
    Follows config v (w.failTask task err) := by
  cases op with
  | write =>
    cases task with
    | write data written => exact Writing.failWrite h written err
    | close => exact h.elim
  | abortReservation | multipartCreate | uploadPart => exact h.1.failTask err
  | put =>
    cases task with
    | write => exact h.elim
    | close => exact h.1.toKept.committed h.1.closed
  | multipartComplete =>
    cases task with
    | write => exact h.elim
    | close => exact Kept.committed (Drained.toKept h) (Drained.closed h)

theorem Busy.goto (h : w.Busy config v op task) (stage : Stage ε) :
    (w.goto stage).Busy config v op task := by
  cases op with
  | write =>
    cases task with
    | write => exact Writing.goto h stage
    | close => exact h.elim
  | abortReservation | multipartCreate | uploadPart => exact ⟨h.1.goto stage, h.2⟩
  | put =>
    cases task with
    | write => exact h.elim
    | close => exact ⟨h.1.goto stage, h.2⟩
  | multipartComplete =>
    cases task with
    | write => exact h.elim
    | close =>
      obtain ⟨hk, ha, hf, hc, he, hfine, hid⟩ := h
      exact ⟨hk.congr, ha, hf, hc, he, hfine, hid⟩

/-- **A reservation is there**, and what it was for begins. -/
theorem Busy.reserved (h : w.Busy config v op task) :
    Follows config v (w.reserved config op task err) := by
  unfold Writer.reserved
  cases err with
  | some err => exact h.failTask err
  | none =>
    cases op with
    | write =>
      cases task with
      | close => exact h.elim
      | write =>
        dsimp only
        split
        · exact ⟨(h.goto _).toAlive, h.opened, h.quiet, fun _ => rfl⟩
        next hdata =>
        split
        · next hbuffer => exact ⟨h.goto _, hbuffer, hdata⟩
        · exact Writing.pump h
    | abortReservation =>
      obtain ⟨h, hid⟩ := h
      refine ⟨h.upload (fun hk => ?_), hid, rfl⟩
      exact { hk with reserved := fun _ => rfl }
    | multipartCreate => exact Busy.goto h _
    | uploadPart => exact ⟨(h.1.goto _).sent, h.2⟩
    | put =>
      cases task with
      | write => exact h.elim
      | close =>
        obtain ⟨h, hid⟩ := h
        have hheld : v.accepted = w.held := by
          rw [h.accepted, View.content, h.started hid]
          rfl
        have hwhole : Whole config v (.put w.held "*") := .inl (by rw [hheld])
        have h' := h.toKept.asked h.closed (h.fine h.good) h.ended rfl hwhole
          ⟨nofun, fun hne => absurd hid hne⟩
        exact ⟨h'.congr, .inl hid⟩
    | multipartComplete =>
      cases task with
      | write => exact h.elim
      | close =>
        have hwhole : Whole config v (.complete w.uploadID w.parts "*") :=
          .inr ⟨w.uploadID, by rw [h.parts], h.numbered, h.own, h.full, h.accepted.symm⟩
        have h' := h.toKept.asked h.closed h.fine h.ended rfl hwhole
          ⟨fun _ => h.existing, fun _ => rfl⟩
        exact ⟨h'.congr, .inr rfl⟩

theorem Writing.claimed (h : w.Writing config v data) (hbuffer : w.buffer = none) :
    Follows config v (w.claimed config data err) := by
  cases err with
  | some err => exact h.failWrite 0 err
  | none =>
    refine Writing.pump ⟨h.toAlive.congr ?_ id, h.opened, h.quiet, h.good, h.fits⟩
    unfold Writer.held
    rw [hbuffer]
    rfl

theorem Busy.created {uploadID : String} (h : w.Busy config v .multipartCreate task) :
    Follows config v (w.created task err uploadID) := by
  obtain ⟨h, hid, hreserved⟩ := h
  unfold Writer.created
  cases err with
  | some err => exact h.failTask err
  | none =>
    have hflush : ({ w with uploadID := uploadID } : Writer ε).Flushing config v task :=
      h.upload (fun hk => ⟨hk.parts, hk.numbered, by rw [hk.started hid]; nofun,
        fun _ => hk.started hid, hk.unpublished, hk.unaborted, hk.submitted, fun _ => hreserved⟩)
    dsimp only
    split
    · exact hflush.failTask _
    · next hne => exact ⟨hflush.goto _, hne⟩

theorem Busy.uploaded {etag : String} (h : w.Busy config v .uploadPart task) :
    Follows config v (w.uploaded config task err etag) := by
  obtain ⟨h, hid⟩ := h
  unfold Writer.uploaded
  cases err with
  | some err => exact h.failTask err
  | none =>
    dsimp only
    split
    · exact h.failTask _
    have hk : w.Kept v → ({ w with
        parts := w.parts ++ [⟨w.parts.length + 1, etag⟩]
        buffer := w.buffer.map (fun _ => []) } : Writer ε).Kept
          (v.add (.stored w.uploadID ⟨w.parts.length + 1, etag⟩ w.held)) := by
      intro hk
      have hlen : v.kept.length = w.parts.length := by rw [← hk.parts, List.length_map]
      refine ⟨?_, ?_, ?_, fun he => absurd he hid, hk.unpublished, hk.unaborted, hk.submitted,
        hk.reserved⟩
      · show (v.kept ++ [_]).map Stored.part = _
        rw [List.map_append, hk.parts]
        rfl
      · show (v.kept ++ [_]).map (fun x : Stored => x.part.number)
          = List.range' 1 (v.kept ++ [_]).length
        rw [List.map_append, hk.numbered, List.length_append, hlen, List.length_singleton,
          List.range'_concat, Nat.one_mul, Nat.add_comm 1]
        rfl
      · exact List.forall_mem_append.mpr ⟨hk.own, List.forall_mem_singleton.mpr rfl⟩
    have hcontent : (v.add (.stored w.uploadID ⟨w.parts.length + 1, etag⟩ w.held)).content
        = v.content ++ w.held := by
      show ((v.kept ++ [_]).map Stored.data).flatten = _
      simp [View.content]
    have hnil : (w.buffer.map (fun _ => ([] : Bytes))).getD [] = [] := by
      cases w.buffer
      · rfl
      · rfl
    cases task with
    | write =>
      obtain ⟨h, hdata, hheld⟩ := h
      have haccepted : v.accepted
          = (v.add (.stored w.uploadID ⟨w.parts.length + 1, etag⟩ w.held)).content
            ++ (w.buffer.map (fun _ => ([] : Bytes))).getD [] := by
        rw [hcontent, hnil, List.append_nil]
        exact h.accepted
      have hroom : ((w.buffer.map (fun _ => ([] : Bytes))).getD []).length ≤ config.capacity := by
        rw [hnil]
        exact Nat.zero_le _
      exact Writing.pump ⟨⟨hk h.toKept, haccepted,
        List.forall_mem_append.mpr ⟨h.full, List.forall_mem_singleton.mpr hheld⟩, hroom, h.total,
        h.le, h.fine⟩, h.opened, h.quiet, h.good, h.fits⟩
    | close =>
      obtain ⟨h, hheld⟩ := h
      have hfull : ∀ x ∈
          (v.kept ++ [Stored.mk w.uploadID ⟨w.parts.length + 1, etag⟩ w.held]).dropLast,
          x.data.length = config.partSize := by
        rw [List.dropLast_concat]
        exact h.full
      exact ⟨(hk h.toKept).congr, h.accepted.trans hcontent.symm, hfull, h.closed,
        h.ended, h.fine h.good, hid⟩

theorem Ended.free (h : w.Ended config v) (hstage : w.stage = .free) : w.Track config v := by
  simp only [Track, hstage]
  rw [if_pos h.closed]
  exact h

theorem Alive.free (h : w.Alive config v) (hstage : w.stage = .free) (hopened : w.closed = false)
    (hquiet : v.endings = []) : w.Track config v := by
  simp only [Track, hstage]
  rw [if_neg (by simp [hopened])]
  exact ⟨h, hquiet⟩

variable (h : w.Track config v)
include h

theorem Track.of_free (hstage : w.stage = .free) :
    (w.closed = true ∧ w.Ended config v) ∨
      (w.closed = false ∧ w.Alive config v ∧ v.endings = []) := by
  simp only [Track, hstage] at h
  split at h
  · next hc => exact .inl ⟨hc, h⟩
  · next hc => exact .inr ⟨eq_false_of_ne_true hc, h⟩

theorem Track.write (hstage : w.stage = .free) : Follows config v (w.write data) := by
  unfold Writer.write
  obtain ⟨hc, h⟩ | ⟨hc, h, hquiet⟩ := h.of_free hstage
  · rw [if_pos hc]
    exact Ended.free { h with } hstage
  · rw [if_neg (by simp [hc])]
    split
    · next err he =>
      refine Alive.free ?_ hstage hc hquiet
      exact ⟨h.toKept.view, h.accepted, h.full, h.room, h.total, h.le,
        fun hnone => nomatch he.symm.trans hnone⟩
    · next he =>
      exact ⟨h.congr rfl id, hc, hquiet, he⟩

theorem Track.close (hstage : w.stage = .free) : Follows config v w.close := by
  unfold Writer.close
  obtain ⟨hc, h⟩ | ⟨hc, h, hquiet⟩ := h.of_free hstage
  · rw [if_pos hc]
    exact h.free hstage
  · rw [if_neg (by simp [hc])]
    have hk : w.Kept (v.add (.ending false)) := h.toKept.view
    exact ⟨⟨hk.congr, h.accepted, h.full, h.room, h.total, h.le, h.fine⟩, rfl,
      congrArg (· ++ [false]) hquiet⟩

theorem Track.shutdown (hstage : w.stage = .free) : Follows config v w.shutdown := by
  unfold Writer.shutdown
  obtain ⟨hc, h⟩ | ⟨hc, h, hquiet⟩ := h.of_free hstage
  · rw [if_pos hc]
    exact h.free hstage
  · rw [if_neg (by simp [hc])]
    have hk : w.Kept (v.add (.ending true)) := h.toKept.view
    exact Kept.abort (hk.congr) rfl

theorem Track.started (hstage : w.stage = .starting task) :
    Follows config v (w.started config task err) := by
  cases task with
  | write data =>
    simp only [Track, hstage] at h
    obtain ⟨h, hc, hquiet, he⟩ := h
    cases err with
    | some err =>
      refine Alive.free ?_ rfl hc hquiet
      have hk : w.Kept (v.add (.wrote 0 (some err))) := h.toKept.view
      exact { h with toKept := hk.congr, fine := nofun }
    | none =>
      unfold Writer.started
      dsimp only
      split
      · exact ⟨h.congr rfl nofun, hc, hquiet, nofun⟩
      · have := h.le
        exact ⟨h.congr rfl id, hc, hquiet, he, show w.total + data.length ≤ _ by omega⟩
  | close =>
    simp only [Track, hstage] at h
    obtain ⟨h, hc, hended⟩ := h
    cases err with
    | some => exact Kept.abort (h.toKept.congr) hc
    | none =>
      unfold Writer.started
      dsimp only
      split
      · exact Kept.abort h.toKept hc
      · next he => exact Closing.commit ⟨h, hc, hended, he⟩

theorem Track.returned {written : ℕ} (hstage : w.stage = .returning written err) :
    Follows config v ⟨w.goto .free, [.wrote written err]⟩ := by
  simp only [Track, hstage] at h
  obtain ⟨h, hc, hquiet, he⟩ := h
  refine Alive.free ?_ rfl hc hquiet
  have hk : w.Kept (v.add (.wrote written err)) := h.toKept.view
  refine ⟨hk.congr, h.accepted, h.full, h.room, h.total, h.le, fun hnone => ?_⟩
  show v.failures ++ err.toList = []
  rw [h.fine hnone, he hnone]
  rfl

theorem Track.turn {l : WriterEvent ε} {t : Turn ε} (ht : w.turn config l = some t) :
    Follows config v t := by
  have htrack := h
  unfold Track at h
  cases turned ht with
  | write data hs => exact htrack.write hs
  | close hs => exact htrack.close hs
  | shutdown hs => exact htrack.shutdown hs
  | started task err hs => exact htrack.started hs
  | returned written err hs => exact htrack.returned hs
  | admitted op task err hs =>
    rw [hs] at h
    cases err with
    | some err => exact Busy.failTask h err
    | none => exact Busy.goto h _
  | answered op task err hs =>
    rw [hs] at h
    exact Busy.reserved h
  | claimed data err hs =>
    rw [hs] at h
    exact h.1.claimed h.2.1
  | created task err uploadID hs =>
    rw [hs] at h
    exact Busy.created h
  | uploaded task err etag hs =>
    rw [hs] at h
    exact Busy.uploaded h
  | stored op err etag ho hs =>
    obtain rfl | rfl := ho
    all_goals
      rw [hs] at h
      exact Asked.committed h
  | aborted ending err hs =>
    rw [hs] at h
    exact Ended.aborted h
  | departed hs | released hs =>
    rw [hs] at h
    exact Ended.congr h
  | drained hs =>
    rw [hs] at h
    unfold Follows Writer.drained
    split
    all_goals exact Ended.congr h
  | notified hs =>
    rw [hs] at h
    exact Ended.free (Ended.congr h) rfl

end Writer

/-! ## All or nothing -/

/-- **All or nothing**: the object is asked for at most once; by a `Close`,
after `Write`s that have all succeeded, for the whole of it; and never by a
writer that has been shut down. -/
structure AllOrNothing (config : Config) (v : View ε) : Prop where
  once : v.publications.length ≤ 1
  whole : ∀ x ∈ v.publications, Whole config v x.request ∧ x.failures = [] ∧ x.endings = [false]
  shut : true ∈ v.endings → v.publications = []

theorem AllOrNothing.of_nil {config : Config} {v : View ε} (h : v.publications = []) :
    AllOrNothing config v := by
  refine ⟨?_, ?_, fun _ => h⟩
  · rw [h]
    exact Nat.zero_le _
  · rw [h]
    nofun

namespace Writer

variable {config : Config} {v : View ε} {w : Writer ε}

theorem Flushing.kept {task : Task} (h : w.Flushing config v task) : w.Kept v := by
  cases task with
  | write | close => exact h.1.toKept

theorem Busy.kept {op : Op} {task : Task} (h : w.Busy config v op task) : w.Kept v := by
  cases op with
  | write =>
    cases task with
    | write => exact h.toKept
    | close => exact h.elim
  | abortReservation | multipartCreate | uploadPart => exact h.1.kept
  | put =>
    cases task with
    | write => exact h.elim
    | close => exact h.1.toKept
  | multipartComplete =>
    cases task with
    | write => exact h.elim
    | close => exact h.toKept

/-- A writer has not asked for its object, or moves no data any more. -/
theorem Track.kept_or_ended (h : w.Track config v) : w.Kept v ∨ w.Ended config v := by
  unfold Track at h
  split at h
  · split at h
    · exact .inr h
    · exact .inl h.1.toKept
  iterate 2 exact .inl h.1.toKept
  iterate 2 exact .inl h.kept
  · exact .inr h.1
  · exact .inr h.1
  · exact .inl h.kept
  iterate 2 exact .inl h.1.toKept
  all_goals exact .inr h

theorem Track.allOrNothing (h : w.Track config v) : AllOrNothing config v := by
  obtain h | h := h.kept_or_ended
  · exact .of_nil h.unpublished
  · exact ⟨h.once, h.whole, h.shut⟩

end Writer

end Iceberg
