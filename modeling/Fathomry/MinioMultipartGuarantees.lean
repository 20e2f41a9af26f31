import Fathomry.MinioMultipart

/-!
# How an upload in parts ends

A run is read off its log, which holds every request and every answer that
counts. As long as the session is open the log has parts only, and what is
stored is what the session will ask for (`Live`). A completion is the one
request that leaves this phase with the session still open. Everything else
closes it, and from then on there is a single way to go: to the abort, if
there is something to abort, and to the end of the root call (`Shut`).
-/

namespace Minio

namespace Multipart

variable {ε : Type} {value : Settings}

namespace Action

@[simp] def storedPart : Action ε → Option (CompletePart × ℕ)
  | .stored part size => some (part, size)
  | _ => none

@[simp] def failedPart : Action ε → Option ℕ
  | .failed number => some number
  | _ => none

@[simp] def completion : Action ε → Option (List CompletePart)
  | .complete parts => some parts
  | _ => none

@[simp] def outcome : Action ε → Option (Invocation.Outcome Transfer (Err ε))
  | .ended outcome => some outcome
  | _ => none

/-- What the label of a step accounts for. -/
@[simp] def tells : Action ε → Bool
  | .put _ _ | .stored _ _ | .failed _ | .published | .unauthorized => true
  | _ => false

/-- What only a session that is about to end does. -/
@[simp] def closing : Action ε → Bool
  | .published | .abort | .unauthorized | .ended _ => true
  | _ => false

/-- What a session does while all goes well. -/
@[simp] def early : Action ε → Bool
  | .allocate | .put _ _ | .stored _ _ => true
  | _ => false

end Action

/-- The completion is acknowledged: there is no error, and the answer is about
this object. -/
def Event.acknowledges (request : Request value) : Event ε → Bool
  | .completed info none _ _ =>
    info.bucket = value.bucket && info.key = request.key && confirms info.etag
  | _ => false

@[simp] def Event.adopted : Event ε → Option String
  | .allocated uploadID true _ _ _ => some uploadID
  | _ => none

def Read.isFailed : Read ε → Bool
  | .failed _ => true
  | _ => false

/-- **What a label means** where it is taken: a part is sent with the size
that was read and declared, and stored by an answer without an error and with
a confirming ETag; anything else is a failure of the part. -/
def State.told (request : Request value) (s : State ε) (l : Event ε) : List (Action ε) :=
  match l, s.stage with
  | .phased (some _), .preparing n _ => [.failed n]
  | .read count result ctxErr _, .reading n size =>
    if result.isFailed || count ≠ size || ctxErr.isSome then [.failed n] else [.put n size]
  | .put etag err closeErr _, .putting n size =>
    if err.isSome || !confirms etag then [.failed n]
    else .stored ⟨n, etag⟩ size :: if closeErr.isSome then [.failed n] else []
  | .authorized (some _) _, _ => [.unauthorized]
  | l, _ => if l.acknowledges request then [.published] else []

def storedParts (log : List (Action ε)) : List (CompletePart × ℕ) :=
  log.filterMap Action.storedPart

/-- **A completion that is allowed**, after a log and with so many bytes: its
parts are numbered from 1, all of them are stored, all but the last are big
enough, together they are what was transferred – and what was declared – and
no part has failed. -/
structure Fits (request : Request value) (log : List (Action ε)) (parts : List CompletePart)
    (bytes : ℕ) : Prop where
  nonempty : parts ≠ []
  numbered : parts.map CompletePart.number = List.range' 1 parts.length
  stored : (storedParts log).map Prod.fst = parts
  big : ∀ x ∈ (storedParts log).dropLast, minPartBytes ≤ x.2
  sum : ((storedParts log).map Prod.snd).sum = bytes
  declared : 0 ≤ request.size → request.size = bytes
  failed : log.filterMap Action.failedPart = []

/-- **A log with a single completion**, which is allowed. -/
def Attempted (request : Request value) (log : List (Action ε)) (bytes : ℕ) : Prop :=
  ∃ before parts after, log = before ++ .complete parts :: after ∧
    before.filterMap Action.completion = [] ∧ after.filterMap Action.completion = [] ∧
    Fits request before parts bytes

def Attempts (request : Request value) (log : List (Action ε)) (bytes : ℕ) : Prop :=
  log.filterMap Action.completion = [] ∨ Attempted request log bytes

def Settled (uploadID : String) (last : List (Action ε)) : Prop :=
  last = [] ∧ uploadID = "" ∨ last = [.published] ∨ last = [.abort] ∨ last = [.unauthorized]

namespace Stage

/-- The part that is on its way. -/
@[simp] def flight : Stage ε → Option ℕ
  | .preparing number _ | .reading number _ | .putting number _ => some number
  | _ => none

/-- What has been read and not been stored. -/
@[simp] def carried : Stage ε → ℕ
  | .putting _ size => size
  | _ => 0

@[simp] def begun : Stage ε → Bool
  | .beginning | .allocating => false
  | _ => true

@[simp] def working : Stage ε → Bool
  | .beginning | .allocating | .preparing _ _ | .reading _ _ | .putting _ _ => true
  | _ => false

@[simp] def idle : Stage ε → Bool
  | .free | .past => true
  | _ => false

end Stage

variable {request : Request value} {log more : List (Action ε)} {bytes : ℕ}

theorem storedParts_append (log more : List (Action ε)) :
    storedParts (log ++ more) = storedParts log ++ storedParts more :=
  List.filterMap_append

theorem quiet_of_early (h : ∀ a ∈ log, a.early = true) :
    log.filterMap Action.completion = [] ∧ log.filterMap Action.failedPart = []
      ∧ log.filter Action.closing = [] := by
  refine ⟨List.filterMap_eq_nil_iff.mpr ?_, List.filterMap_eq_nil_iff.mpr ?_,
    List.filter_eq_nil_iff.mpr ?_⟩
  all_goals
    intro a ha
    have he := h a ha
    cases a
    all_goals simp_all

theorem Attempts.append (h : Attempts request log bytes)
    (hmore : more.filterMap Action.completion = []) : Attempts request (log ++ more) bytes := by
  obtain h | ⟨before, parts, after, rfl, hb, ha, hf⟩ := h
  · left
    rw [List.filterMap_append, h, hmore, List.append_nil]
  · right
    refine ⟨before, parts, after ++ more, by simp, hb, ?_, hf⟩
    rw [List.filterMap_append, ha, hmore, List.append_nil]

namespace State

variable {s : State ε} {t : Turn ε} {l : Event ε}

/-- **The session is open, and all has gone well.** -/
structure Live (log : List (Action ε)) (s : State ε) : Prop where
  unclosed : s.closed = false
  call : s.call = .new "multipart"
  early : ∀ a ∈ log, a.early = true
  stage : s.stage.working = true ∨ s.stage = .free
  watched : s.stage.begun = true → s.watched = true
  parts : (storedParts log).map Prod.fst = s.parts
  numbered : s.parts.map CompletePart.number = List.range' 1 s.parts.length
  big : ∀ x ∈ (storedParts log).dropLast, minPartBytes ≤ x.2
  full : s.short = false → ∀ x ∈ storedParts log, minPartBytes ≤ x.2
  bytes : ((storedParts log).map Prod.snd).sum + s.stage.carried = s.transfer.bytes
  flight : ∀ n ∈ s.stage.flight, n = s.parts.length + 1 ∧ s.short = false

/-- **A completion is on its way.** -/
structure Completing (request : Request value) (log : List (Action ε)) (s : State ε) : Prop where
  unclosed : s.closed = false
  call : s.call = .new "multipart"
  stage : s.stage = .completing
  closing : log.filter Action.closing = []
  attempts : Attempts request log s.transfer.bytes

def Closing (log : List (Action ε)) (s : State ε) : Prop :=
  match s.stage with
  | .authorizing _ => s.call = .new "multipart" ∧ log.filter Action.closing = []
  | .aborting _ => s.call = .new "multipart" ∧ log.filter Action.closing = [.abort]
  | .free | .past => ∃ o last, s.call = (Invocation.Call.new "multipart").complete o ∧
      log.filter Action.closing = last ++ [.ended o] ∧ Settled s.transfer.uploadID last
  | _ => False

/-- **The session is closed.** -/
structure Shut (request : Request value) (log : List (Action ε)) (s : State ε) : Prop where
  closed : s.closed = true
  attempts : Attempts request log s.transfer.bytes
  closing : s.Closing log

/-- **Where a run is.** -/
inductive Track (request : Request value) (log : List (Action ε)) (s : State ε) : Prop
  | live (h : s.Live log)
  | completing (h : s.Completing request log)
  | shut (h : s.Shut request log)

theorem Track.live_of_working (h : s.Track request log) (hs : s.stage.working = true) :
    s.Live log := by
  cases h with
  | live h => exact h
  | completing h => simp [h.stage] at hs
  | shut h =>
    have hc := h.closing
    unfold Closing at hc
    split at hc
    all_goals simp_all

theorem Track.live_of_free (h : s.Track request log) (hs : s.stage = .free)
    (hc : s.closed = false) : s.Live log := by
  cases h with
  | live h => exact h
  | completing h => exact nomatch hs.symm.trans h.stage
  | shut h => exact nomatch h.closed.symm.trans hc

/-- Only an open session whose mutex nobody has can be locked. -/
theorem free_of_lock (h : s.lock = none) : s.stage = .free ∧ s.closed = false := by
  unfold lock at h
  split_ifs at h with hu hc
  refine ⟨?_, by simpa using hc⟩
  cases hs : s.stage
  all_goals simp_all [Stage.unlocked]

theorem Live.attempts (h : s.Live log) (n : ℕ) : Attempts request log n :=
  .inl (quiet_of_early h.early).1

/-! ## Ends -/

variable {e : Ending ε}

theorem shut_finish {cleanup : Option (Err ε)} (hc : s.closed = true)
    (hcall : s.call = .new "multipart") (ha : Attempts request (log ++ more) s.transfer.bytes)
    (hs : Settled s.transfer.uploadID ((log ++ more).filter Action.closing)) :
    (s.finish e cleanup more).state.Shut request (log ++ (s.finish e cleanup more).actions) := by
  refine ⟨hc, ?_, ?_⟩
  · show Attempts request (log ++ (more ++ [_])) s.transfer.bytes
    rw [← List.append_assoc]
    exact ha.append rfl
  · have hend : ∃ o last, (s.finish e cleanup more).state.call
          = (Invocation.Call.new "multipart").complete o ∧
        (log ++ (s.finish e cleanup more).actions).filter Action.closing = last ++ [.ended o] ∧
        Settled s.transfer.uploadID last := by
      refine ⟨⟨some s.transfer, e.primary, cleanup.toList⟩, _, ?_, ?_, hs⟩
      · simp [finish, hcall]
      · simp [finish]
    unfold Closing
    cases hst : e.starting with
    | false | true => simpa [finish, hst] using hend

/-- **`end`, of an upload that is not known to be complete.** -/
theorem shut_endWith (hc : s.closed = false) (hcall : s.call = .new "multipart")
    (ha : Attempts request (log ++ more) s.transfer.bytes)
    (hq : (log ++ more).filter Action.closing = []) :
    (s.endWith e true more).state.Shut request (log ++ (s.endWith e true more).actions) := by
  unfold endWith
  rw [if_neg (by simp [hc])]
  split
  · exact ⟨rfl, ha, hcall, hq⟩
  · next hid =>
    refine shut_finish rfl hcall ha ?_
    rw [hq]
    exact .inl ⟨rfl, by simpa using hid⟩

/-- **`end`, of an upload that is complete.** -/
theorem shut_endWith_published (hc : s.closed = false) (hcall : s.call = .new "multipart")
    (ha : Attempts request (log ++ more) s.transfer.bytes)
    (hq : (log ++ more).filter Action.closing = [.published]) :
    (s.endWith e false more).state.Shut request (log ++ (s.endWith e false more).actions) := by
  unfold endWith
  rw [if_neg (by simp [hc]), if_neg (by simp)]
  refine shut_finish rfl hcall ha ?_
  rw [hq]
  exact .inr (.inl rfl)

theorem Live.endWith (h : s.Live log) (e : Ending ε) :
    (s.endWith e true []).state.Shut request (log ++ (s.endWith e true []).actions) := by
  refine shut_endWith h.unclosed h.call ?_ ?_
  · rw [List.append_nil]
    exact h.attempts _
  · rw [List.append_nil]
    exact (quiet_of_early h.early).2.2

theorem Live.failPart (h : s.Live log) {n : ℕ} {primary cleanup : Option (Err ε)}
    {transfer : Transfer} :
    let s' : State ε := { s with transfer := transfer }
    (s'.failPart n primary cleanup).state.Shut request
      (log ++ (s'.failPart n primary cleanup).actions) := by
  obtain ⟨h1, -, h3⟩ := quiet_of_early h.early
  refine shut_endWith h.unclosed h.call ?_ ?_
  · exact .inl (by simp [h1])
  · simp [h3]

/-! ## Steps -/

theorem Live.goto (h : s.Live log) {s' : State ε} (hclosed : s'.closed = s.closed)
    (hcall : s'.call = s.call) (hparts : s'.parts = s.parts) (hshort : s'.short = s.short)
    (hbytes : s'.transfer.bytes + s.stage.carried = s.transfer.bytes + s'.stage.carried)
    (hstage : s'.stage.working = true ∨ s'.stage = .free)
    (hwatched : s'.stage.begun = true → s'.watched = true)
    (hflight : ∀ n ∈ s'.stage.flight, n = s.parts.length + 1 ∧ s.short = false)
    (hmore : ∀ a ∈ more, a.early = true) (hstored : storedParts more = []) :
    s'.Live (log ++ more) := by
  have hst : storedParts (log ++ more) = storedParts log := by
    rw [storedParts_append, hstored, List.append_nil]
  refine ⟨hclosed.trans h.unclosed, hcall.trans h.call, ?_, hstage, hwatched, ?_, ?_, ?_, ?_, ?_,
    ?_⟩
  · intro a ha
    exact (List.mem_append.mp ha).elim (h.early a) (hmore a)
  · rw [hst, hparts]
    exact h.parts
  · rw [hparts]
    exact h.numbered
  · rw [hst]
    exact h.big
  · rw [hst, hshort]
    exact h.full
  · rw [hst]
    have := h.bytes
    omega
  · rw [hparts, hshort]
    exact hflight

/-- **A part is stored.** It could be sent only because the parts in front of
it are big enough. -/
theorem Live.store (h : s.Live log) {n size : ℕ} (hs : s.stage = .putting n size) (etag : String) :
    ((s.store ⟨n, etag⟩ size).goto .free).Live (log ++ [.stored ⟨n, etag⟩ size]) := by
  obtain ⟨hn, hshort⟩ := h.flight n (by simp [hs])
  have hbytes : ((storedParts log).map Prod.snd).sum + size = s.transfer.bytes := by
    simpa [hs] using h.bytes
  have hst : storedParts (log ++ [.stored ⟨n, etag⟩ size])
      = storedParts log ++ [(⟨n, etag⟩, size)] := storedParts_append _ _
  refine ⟨h.unclosed, h.call, ?_, .inr rfl, fun _ => h.watched (by simp [hs]), ?_, ?_, ?_, ?_, ?_,
    nofun⟩
  · intro a ha
    obtain ha | ha := List.mem_append.mp ha
    · exact h.early a ha
    · obtain rfl := List.mem_singleton.mp ha
      rfl
  · rw [hst]
    simp [State.store, State.goto, h.parts]
  · show (s.parts ++ [_]).map CompletePart.number = List.range' 1 (s.parts ++ [_]).length
    rw [List.map_append, h.numbered, List.length_append, List.length_singleton, List.range'_concat]
    simp [hn, add_comm]
  · rw [hst, List.dropLast_concat]
    exact h.full hshort
  · intro hsize x hx
    rw [hst] at hx
    obtain hx | hx := List.mem_append.mp hx
    · exact h.full hshort x hx
    · obtain rfl := List.mem_singleton.mp hx
      simpa [State.store, State.goto] using hsize
  · rw [hst]
    simpa [State.store, State.goto] using hbytes

theorem Live.complete (h : s.Live log) (hs : s.stage = .free) (hparts : s.parts ≠ [])
    (hsize : 0 ≤ request.size → request.size = s.transfer.bytes) :
    Attempts request (log ++ [.complete s.parts]) s.transfer.bytes := by
  obtain ⟨h1, h2, -⟩ := quiet_of_early h.early
  refine .inr ⟨log, s.parts, [], rfl, h1, rfl, hparts, h.numbered, h.parts, h.big, ?_, hsize, h2⟩
  simpa [hs] using h.bytes

theorem Track.stay (h : s.Track request log) : s.Track request (log ++ []) := by
  rwa [List.append_nil]

variable {err : Option (Err ε)}

theorem track_phased (h : s.Track request log) (ht : s.phased err = some t) :
    t.state.Track request (log ++ t.actions) := by
  revert ht
  fun_cases phased
  all_goals rintro ⟨⟩
  all_goals
    have hs := ‹s.stage = _›
    have hl := h.live_of_working (by simp [hs])
  · refine .live (hl.goto rfl rfl rfl rfl ?_ (.inl rfl) nofun nofun ?_ rfl)
    · simp [hs]
    · simp
  · exact .shut (hl.endWith _)
  · refine .live (hl.goto rfl rfl rfl rfl ?_ (.inl rfl) ?_ ?_ nofun rfl)
    · simp [State.goto, hs]
    · exact fun _ => hl.watched (by simp [hs])
    · simpa [State.goto, hs] using hl.flight
  · exact .shut hl.failPart

variable {closeErr : Option (Err ε)} {added : List (Option (Err ε))}

theorem track_allocated {uploadID : String} {owned : Bool} (h : s.Track request log)
    (ht : s.allocated uploadID owned err closeErr added = some t) :
    t.state.Track request (log ++ t.actions) := by
  revert ht
  fun_cases allocated
  all_goals rintro ⟨⟩
  next hs =>
  have hl := h.live_of_working (by simp [hs])
  have hadopt : (s.adopt uploadID owned).Live log := by
    rw [← log.append_nil]
    exact hl.goto rfl rfl rfl rfl rfl hl.stage hl.watched hl.flight nofun rfl
  unfold opening
  split
  · exact .shut (hadopt.endWith _)
  · refine .live (hadopt.goto rfl rfl rfl rfl ?_ (.inr rfl) (fun _ => rfl) nofun nofun rfl)
    simp [adopt, hs]

variable {valid : Bool}

theorem of_partInput {number size : ℤ} (h : s.partInput request number size valid = true) :
    number = s.parts.length + 1 ∧ s.short = false := by
  simp only [partInput, Bool.not_or, Bool.and_eq_true, Bool.not_eq_true'] at h
  exact ⟨by simpa using h.1.1.1.1.1.1.2, h.1.1.2⟩

section

variable (h : s.Track request log)
include h

theorem track_part {number size : ℤ} {refusal : Option (Err ε)} :
    (s.part request number size valid refusal).2.state.Track request
      (log ++ (s.part request number size valid refusal).2.actions) := by
  fun_cases part
  iterate 3 exact h.stay
  · next hlock hin =>
    obtain ⟨hs, hc⟩ := free_of_lock hlock
    have hl := h.live_of_free hs hc
    obtain ⟨hn, hshort⟩ := of_partInput (by simpa using hin)
    refine .live (hl.goto rfl rfl rfl rfl ?_ (.inl rfl) ?_ ?_ nofun rfl)
    · simp [State.goto, hs]
    · exact fun _ => hl.watched (by simp [hs])
    · intro n hnum
      obtain rfl : number.toNat = n := by simpa [State.goto] using hnum
      exact ⟨by omega, hshort⟩

theorem track_read {count : ℕ} {result : Read ε} {ctxErr : Option (Err ε)}
    (ht : s.read count result ctxErr added = some t) :
    t.state.Track request (log ++ t.actions) := by
  unfold read at ht
  dsimp only at ht
  repeat' split at ht
  all_goals cases ht
  all_goals
    have hs := ‹s.stage = _›
    have hl := h.live_of_working (by simp [hs])
  iterate 3 exact .shut hl.failPart
  · next hcount _ =>
    obtain rfl := not_not.mp hcount
    refine .live (hl.goto rfl rfl rfl rfl ?_ (.inl rfl) ?_ ?_ ?_ rfl)
    · simp [State.goto, hs]
    · exact fun _ => hl.watched (by simp [hs])
    · simpa [State.goto, hs] using hl.flight
    · simp

theorem track_put {etag : String} (ht : s.put etag err closeErr added = some t) :
    t.state.Track request (log ++ t.actions) := by
  unfold put at ht
  dsimp only at ht
  split at ht
  all_goals cases ht
  next hs =>
  have hl := h.live_of_working (by simp [hs])
  split
  · exact .shut hl.failPart
  split
  · -- the part is stored, but its connection could not be closed
    obtain ⟨h1, -, h3⟩ := quiet_of_early hl.early
    refine .shut (shut_endWith hl.unclosed hl.call ?_ ?_)
    · exact .inl (by simp [h1, List.filterMap_cons])
    · simp [h3]
  · exact .live (hl.store hs etag)

theorem track_complete {phase : Option (Err ε)} :
    (s.complete request valid phase).2.state.Track request
      (log ++ (s.complete request valid phase).2.actions) := by
  fun_cases complete
  iterate 3 exact h.stay
  · next hlock hin =>
    obtain ⟨hs, hc⟩ := free_of_lock hlock
    have hl := h.live_of_free hs hc
    simp only [Bool.or_eq_true, not_or] at hin
    refine .completing ⟨hl.unclosed, hl.call, rfl, ?_, ?_⟩
    · simp [(quiet_of_early hl.early).2.2]
    · exact hl.complete hs (by simpa using hin.1.2) (by simpa using hin.2)

theorem track_completed {info : UploadInfo}
    (ht : s.completed request info err closeErr added = some t) :
    t.state.Track request (log ++ t.actions) := by
  unfold completed at ht
  dsimp only at ht
  split at ht
  all_goals cases ht
  next hs =>
  obtain h | h | h := h
  · simpa [hs] using h.stage
  · unfold conclude
    split
    · refine .shut (shut_endWith_published h.unclosed h.call (h.attempts.append rfl) ?_)
      simp [h.closing]
    · refine .shut (shut_endWith h.unclosed h.call (h.attempts.append rfl) ?_)
      simp [h.closing]
  · have hc := h.closing
    simp [Closing, hs] at hc

theorem track_abort : (s.abort valid).2.state.Track request (log ++ (s.abort valid).2.actions) := by
  fun_cases abort
  · exact h.stay
  · next hlock _ =>
    obtain ⟨hs, hc⟩ := free_of_lock hlock
    exact .shut ((h.live_of_free hs hc).endWith _)
  · exact h.stay

theorem track_watch (ht : s.watch err = some t) : t.state.Track request (log ++ t.actions) := by
  obtain ⟨hw, ht⟩ := Option.ite_none_right_eq_some.mp ht
  have hs : s.stage = .free := by
    cases hs : s.stage
    all_goals simp_all [Stage.unlocked]
  cases ht
  split
  · next hc =>
    obtain h | h | h := h
    iterate 2 exact nomatch h.unclosed.symm.trans hc
    · refine Track.stay (.shut ⟨h.closed, h.attempts, ?_⟩)
      simpa [Closing] using h.closing
  · next hc =>
    have hl := h.live_of_free hs (by simpa using hc)
    obtain ⟨h1, -, h3⟩ := quiet_of_early hl.early
    refine .shut (shut_endWith hl.unclosed hl.call ?_ ?_)
    · exact .inl (by simpa using h1)
    · simpa using h3

theorem track_turn (ht : s.turn request l = some t) : t.state.Track request (log ++ t.actions) := by
  unfold turn at ht
  repeat' split at ht
  any_goals cases ht
  · exact track_phased h ht
  · exact track_allocated h ht
  · exact track_part h
  · exact track_read h ht
  · exact track_put h ht
  · exact track_complete h
  · exact track_completed h ht
  · exact track_abort h
  · next err _ _ e hs =>
    obtain h | h | h := h
    iterate 2 simpa [hs] using h.stage
    obtain ⟨hcall, hq⟩ : s.call = .new "multipart" ∧ log.filter Action.closing = [] := by
      simpa [Closing, hs] using h.closing
    cases err with
    | none => exact .shut ⟨h.closed, h.attempts.append rfl, hcall, by simp [authorized, hq]⟩
    | some =>
      refine .shut (shut_finish h.closed hcall (h.attempts.append rfl) ?_)
      exact .inr (.inr (.inr (by simp [hq])))
  · next hs =>
    obtain h | h | h := h
    iterate 2 simpa [hs] using h.stage
    obtain ⟨hcall, hq⟩ : s.call = .new "multipart" ∧ log.filter Action.closing = [.abort] := by
      simpa [Closing, hs] using h.closing
    refine .shut (shut_finish h.closed hcall (h.attempts.append rfl) ?_)
    exact .inr (.inr (.inl (by simp [hq])))
  · refine Track.stay ?_
    obtain h | h | h := h
    · exact .live { h with }
    · exact .completing { h with }
    · exact .shut ⟨h.closed, h.attempts, h.closing⟩
  · exact track_watch h ht

omit h in
theorem track_of_run {tr : List (Event ε)} (hr : (machine request).machine.Run tr s) :
    s.Track request ((machine request).log tr) := by
  refine Mealy.log_invariant (.live ?_)
    track_turn hr
  exact ⟨rfl, rfl, nofun, .inl rfl, nofun, rfl, rfl, nofun, nofun, rfl, nofun⟩

/-! ## The log of a run -/

theorem Track.attempts : Attempts request log s.transfer.bytes := by
  cases h with
  | live h => exact h.attempts _
  | completing h | shut h => exact h.attempts

/-- **The last actions of a log.** -/
theorem Track.closing :
    (log.filter Action.closing = [] ∧ (s.closed = true → s.stage.idle = false)) ∨
    (log.filter Action.closing = [.abort] ∧ s.stage.idle = false) ∨
    ∃ o last, s.call = (Invocation.Call.new "multipart").complete o ∧
      log.filter Action.closing = last ++ [.ended o] ∧ Settled s.transfer.uploadID last := by
  cases h with
  | live h =>
    exact .inl ⟨(quiet_of_early h.early).2.2, fun hc => nomatch h.unclosed.symm.trans hc⟩
  | completing h => exact .inl ⟨h.closing, fun hc => nomatch h.unclosed.symm.trans hc⟩
  | shut h =>
    have hc := h.closing
    cases hs : s.stage with
    | authorizing =>
      simp only [Closing, hs] at hc
      exact .inl ⟨hc.2, fun _ => rfl⟩
    | aborting =>
      simp only [Closing, hs] at hc
      exact .inr (.inl ⟨hc.2, rfl⟩)
    | free | past =>
      simp only [Closing, hs] at hc
      exact .inr (.inr hc)
    | _ => simp [Closing, hs] at hc

/-- The watcher can always end a session that is open. -/
theorem Track.watch (hc : s.closed = false) (hs : s.stage = .free) (hcancel : s.cancelled = true)
    (err : Option (Err ε)) : ∃ t, s.turn request (.watch err) = some t ∧ t.state.closed = true := by
  have hw := (h.live_of_free hs hc).watched (by simp [hs])
  refine ⟨_, if_pos (by simp [hw, hcancel, hs, Stage.unlocked]), ?_⟩
  rw [if_neg (by simp [hc])]
  unfold endWith
  rw [if_neg (by simp [hc])]
  split
  · rfl
  · rfl

end

/-! ## Labels -/

@[simp] theorem filter_endWith (s : State ε) (e : Ending ε) (abort : Bool)
    (actions : List (Action ε)) :
    (s.endWith e abort actions).actions.filter Action.tells = actions.filter Action.tells := by
  fun_cases endWith
  · rfl
  · rfl
  · simp [finish]

def sampleSettings : Settings where
  bucket := "b"
  partBytes := minPartBytes
  maxParts := 2
  maxTransferBytes := 2 * minPartBytes
  le_partBytes := le_rfl
  partBytes_le := minPartBytes_le
  maxParts_pos := by decide
  maxParts_le := by decide
  maxTransferBytes_pos := by decide
  maxTransferBytes_le := by decide

def sampleRequest : Request sampleSettings := ⟨"k", 3, by decide, by decide, by decide⟩

def sampleRun : List (Event Empty) :=
  [.phased none, .allocated "u" true none none [], .part 1 3 true none, .phased none,
    .read 3 .eof none [], .put "e" none none [], .complete true none,
    .completed ⟨"b", "k", "e"⟩ none none []]

end State

end Multipart

end Minio
