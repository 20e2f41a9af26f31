import Fathomry.IcebergWriterGuarantees

/-!
# What a writer owes

A family keeps accounts of its handles: requests that are reserved, calls
that are active, handles and buffers that its budget has granted. What a
single writer has of each can be read off its state. A step either changes
nothing about this or does what its actions say – a request uses up a
reservation, a buffer that is claimed is held – and this is all that the
accounts of a family need to know about writers (`Leads`).
-/

namespace Iceberg

variable {ε : Type}

namespace Action

@[simp] def isRequest : Action ε → Bool
  | .request _ => true
  | _ => false

@[simp] def isClaim : Action ε → Bool
  | .claim => true
  | _ => false

@[simp] def isUnclaim : Action ε → Bool
  | .unclaim => true
  | _ => false

@[simp] def isBuffer : Action ε → Bool
  | .buffer _ => true
  | _ => false

@[simp] def isUnbuffer : Action ε → Bool
  | .unbuffer _ => true
  | _ => false

end Action

def WriterEvent.own : WriterEvent ε → Bool
  | .started _ | .admitted _ | .answered _ | .left | .released | .notified => false
  | _ => true

def Ending.busy : Ending → ℕ
  | .close true => 1
  | _ => 0

namespace Stage

def busy : Stage ε → ℕ
  | .reserving _ _ | .reserved _ _ | .claiming _ | .requesting _ _ | .returning _ _
  | .departing => 1
  | .aborting ending => ending.busy
  | _ => 0

def token : Stage ε → ℕ
  | .reserved op _ => if op.request then 1 else 0
  | _ => 0

/-- Stages in which somebody holds the mutex, up to `releaseBuffer`. -/
def working : Stage ε → Bool
  | .free | .releasing | .notifying => false
  | _ => true

end Stage

namespace Writer

variable (w : Writer ε)

def abortToken : ℕ := if w.abortReserved then 1 else 0

def tokens : ℕ := w.abortToken + w.stage.token

def listed : Bool :=
  match w.stage with
  | .notifying => false
  | .free => !w.closed
  | _ => true

/-- The budget has the handle. -/
def owed : ℕ :=
  match w.stage with
  | .free => if w.closed then 0 else 1
  | _ => 1

def buffered : ℕ := if w.buffer.isSome then 1 else 0

def isDrained : Bool :=
  match w.stage with
  | .releasing | .notifying => true
  | .free => w.closed
  | _ => false

/-- **What a step leaves behind**: at most so many reserved requests, and
exactly so many calls that are active and buffers that are claimed. The
handle is in the family, before and after. -/
structure Leads (t : Turn ε) (tokens busy buffered : ℕ) : Prop where
  tokens : t.actions.countP Action.isRequest + t.state.tokens ≤ tokens
  busy : t.state.stage.busy = busy
  listed : t.state.listed = true
  owed : t.state.owed = 1
  claims : t.actions.countP Action.isClaim = 0
  unclaims : t.actions.countP Action.isUnclaim = 0
  buffers : t.actions.countP Action.isBuffer + buffered
    = t.actions.countP Action.isUnbuffer + t.state.buffered
  undrained : t.state.isDrained = false

/-- Actions that no account is kept of. -/
def Silent (actions : List (Action ε)) : Prop :=
  ∀ a ∈ actions, a.isRequest = false ∧ a.isClaim = false ∧ a.isUnclaim = false ∧
    a.isBuffer = false ∧ a.isUnbuffer = false

variable {config : Config} {w}

theorem listed_of_working (h : w.stage.working = true) : w.listed = true ∧ w.owed = 1 ∧
    w.isDrained = false := by
  unfold listed owed isDrained
  cases hs : w.stage
  all_goals first | exact ⟨rfl, rfl, rfl⟩ | (rw [hs] at h; exact absurd h nofun)

variable {actions : List (Action ε)}

theorem Silent.countP (hs : Silent actions) :
    actions.countP Action.isRequest = 0 ∧ actions.countP Action.isClaim = 0 ∧
      actions.countP Action.isUnclaim = 0 ∧ actions.countP Action.isBuffer = 0 ∧
      actions.countP Action.isUnbuffer = 0 := by
  have hcount : ∀ p : Action ε → Bool, (∀ a ∈ actions, p a = false) → actions.countP p = 0 := by
    intro p hp
    rw [List.countP_eq_zero]
    intro a ha
    rw [hp a ha]
    nofun
  exact ⟨hcount _ (fun a ha => (hs a ha).1), hcount _ (fun a ha => (hs a ha).2.1),
    hcount _ (fun a ha => (hs a ha).2.2.1), hcount _ (fun a ha => (hs a ha).2.2.2.1),
    hcount _ (fun a ha => (hs a ha).2.2.2.2)⟩

theorem leads_silent {w' : Writer ε} (hs : Silent actions) (hstage : w'.stage.working = true) :
    Leads ⟨w', actions⟩ w'.tokens w'.stage.busy w'.buffered := by
  obtain ⟨hr, hc, hu, hb, hn⟩ := hs.countP
  obtain ⟨hlisted, howed, hdrained⟩ := listed_of_working hstage
  refine ⟨?_, rfl, hlisted, howed, hc, hu, congrArg (· + _) (hb.trans hn.symm), hdrained⟩
  rw [hr, Nat.zero_add]

theorem silent_nil : Silent ([] : List (Action ε)) := nofun

theorem leads_goto (stage : Stage ε) (h : stage.working = true) :
    Leads ⟨w.goto stage, []⟩ (w.abortToken + stage.token) stage.busy w.buffered :=
  leads_silent silent_nil h

variable {ending : Ending}

theorem leads_depart (hs : Silent actions) :
    Leads (w.depart ending actions) w.abortToken ending.busy w.buffered := by
  unfold depart
  split
  · exact leads_silent hs rfl
  · next hne =>
    have hbusy : ending.busy = 0 := by
      unfold Ending.busy
      split
      · exact absurd rfl hne
      · rfl
    rw [hbusy]
    exact leads_silent hs rfl

variable {err : Option (Err ε)}

theorem leads_aborted (hs : Silent actions) :
    Leads (w.aborted ending err actions) w.abortToken ending.busy w.buffered := by
  unfold aborted
  split
  all_goals exact leads_depart hs

variable {t : Turn ε} {n busy : ℕ}

/-- A request uses up a reservation. -/
theorem Leads.request {b : ℕ} (h : Leads t n busy b) (r : Request) :
    Leads ⟨t.state, t.actions ++ [.request r]⟩ (n + 1) busy b := by
  obtain ⟨ht, hbusy, hl, ho, hc, hu, hb, hd⟩ := h
  refine ⟨?_, hbusy, hl, ho, ?_, ?_, ?_, hd⟩
  all_goals dsimp only
  all_goals rw [List.countP_append]
  · show t.actions.countP Action.isRequest + 1 + t.state.tokens ≤ n + 1
    omega
  · exact hc
  · exact hu
  · rw [List.countP_append]
    exact hb

theorem leads_abort (hs : Silent actions) :
    Leads (w.abort ending actions) w.abortToken ending.busy w.buffered := by
  unfold abort
  split
  · exact leads_aborted hs
  · next hsome =>
    have hreserved : w.abortReserved = true := by
      by_contra hr
      simp [hr] at hsome
    have htoken : w.abortToken = 0 + 1 := by
      rw [abortToken, if_pos hreserved]
    have hturn : Leads (⟨{ w with abortReserved := false, stage := .aborting ending }, actions⟩ :
        Turn ε) 0 ending.busy w.buffered := leads_silent hs rfl
    rw [htoken]
    exact hturn.request _

theorem leads_committed (hs : Silent actions) :
    Leads (w.committed err actions) w.abortToken 1 w.buffered := by
  unfold committed
  split
  · exact leads_depart hs
  · exact leads_abort hs

variable {task : Task}

theorem leads_failTask {err : Err ε} : Leads (w.failTask task err) w.abortToken 1 w.buffered := by
  unfold failTask
  split
  · exact leads_silent silent_nil rfl
  · exact leads_committed silent_nil

theorem flushPart_ok {stage : Stage ε} (h : w.flushPart task = .ok stage) :
    ∃ op : Op, op.request = true ∧ stage = .reserving op task := by
  unfold flushPart at h
  split at h
  · cases h
  split at h
  all_goals exact ⟨_, rfl, (Except.ok.inj h).symm⟩

theorem leads_commit : Leads w.commit w.abortToken 1 w.buffered := by
  unfold commit
  split
  · exact leads_silent silent_nil rfl
  split
  · exact leads_silent silent_nil rfl
  split
  · exact leads_committed silent_nil
  · next stage hs =>
    obtain ⟨op, -, rfl⟩ := flushPart_ok hs
    exact leads_silent silent_nil rfl

variable {data : Bytes}

/-- **The loop of `Write`**, which has a buffer at the end. -/
theorem leads_pump {written b : ℕ} (hr : actions.countP Action.isRequest = 0)
    (hc : actions.countP Action.isClaim = 0) (hu : actions.countP Action.isUnclaim = 0)
    (hb : actions.countP Action.isBuffer + b = actions.countP Action.isUnbuffer + 1) :
    Leads (w.pump config data written actions) w.abortToken 1 b := by
  have hleads : ∀ w' : Writer ε, w'.stage.working = true → w'.abortToken = w.abortToken →
      w'.stage.token = 0 → w'.stage.busy = 1 → w'.buffered = 1 → ∀ chunk,
      Leads ⟨w', actions ++ [.accepted chunk]⟩ w.abortToken 1 b := by
    intro w' hstage htoken hzero hbusy hbuffered chunk
    obtain ⟨hlisted, howed, hdrained⟩ := listed_of_working hstage
    refine ⟨?_, hbusy, hlisted, howed, ?_, ?_, ?_, hdrained⟩
    all_goals dsimp only
    · rw [tokens, htoken, hzero, List.countP_append, hr]
      exact le_of_eq (Nat.zero_add _)
    · rw [List.countP_append, hc]
      rfl
    · rw [List.countP_append, hu]
      rfl
    · rw [hbuffered, List.countP_append, List.countP_append]
      exact hb
  unfold pump
  dsimp only
  split
  · refine hleads _ ?_ ?_ ?_ ?_ ?_ _
    all_goals rfl
  split
  · refine hleads _ ?_ ?_ ?_ ?_ ?_ _
    all_goals rfl
  · next stage hs =>
    obtain ⟨op, -, rfl⟩ := flushPart_ok hs
    refine hleads _ ?_ ?_ ?_ ?_ ?_ _
    all_goals rfl

/-! ## Steps -/

theorem leads_started (hopen : ∀ data written, task = .write data written → w.closed = false) :
    Leads (w.started config task err) w.abortToken (if err.isNone then 1 else 0) w.buffered := by
  unfold started
  split
  · next data written err =>
    have hc := hopen data written rfl
    refine ⟨(Nat.zero_add _).le, rfl, ?_, ?_, rfl, rfl, rfl, ?_⟩
    · show (!w.closed) = true
      rw [hc]
      rfl
    · show (if w.closed then 0 else 1) = 1
      rw [hc]
      rfl
    · exact hc
  · split
    all_goals exact leads_silent silent_nil rfl
  · exact leads_abort silent_nil
  · split
    · exact leads_abort silent_nil
    · exact leads_commit

theorem leads_reserved {op : Op} (hstage : w.stage = .reserved op task) :
    Leads (w.reserved config op task err) w.tokens 1 w.buffered := by
  have htokens : w.tokens = w.abortToken + if op.request then 1 else 0 := by
    rw [tokens, hstage]
    rfl
  have hmono : ∀ {t : Turn ε}, Leads t w.abortToken 1 w.buffered → Leads t w.tokens 1 w.buffered :=
    fun h => { h with tokens := h.tokens.trans (by omega) }
  have hask : ∀ (w' : Writer ε) (r : Request), op.request = true → w'.stage.working = true →
      w'.tokens = w.abortToken → w'.stage.busy = 1 → w'.buffered = w.buffered →
      Leads ⟨w', [.request r]⟩ w.tokens 1 w.buffered := by
    intro w' r hop hworking htoken hbusy hbuffered
    have h := (leads_silent silent_nil hworking).request r
    rw [htoken, hbusy, hbuffered] at h
    rw [htokens, if_pos hop]
    exact h
  unfold reserved
  split
  · exact hmono leads_failTask
  split
  · split
    · exact hmono (leads_silent silent_nil rfl)
    split
    · exact hmono (leads_silent silent_nil rfl)
    · next hne =>
      refine hmono (leads_pump rfl rfl rfl ?_)
      rw [buffered, if_pos (Option.isSome_iff_ne_none.mpr hne)]
      rfl
  · have hworking : w.stage.working = true := by
      rw [hstage]
      rfl
    have h := leads_silent silent_nil hworking
    rw [show w.stage.busy = 1 by rw [hstage]; rfl] at h
    exact h
  · rw [htokens]
    refine ⟨?_, rfl, rfl, rfl, rfl, rfl, rfl, rfl⟩
    exact Nat.le_add_left _ _
  all_goals exact hask _ _ rfl rfl rfl rfl rfl

theorem leads_claimed (hbuffer : w.buffer = none) :
    Leads (w.claimed config data err) w.abortToken 1 w.buffered := by
  unfold claimed
  split
  · exact leads_silent silent_nil rfl
  · refine leads_pump rfl rfl rfl ?_
    rw [buffered, hbuffer]
    rfl

theorem leads_created {uploadID : String} :
    Leads (w.created task err uploadID) w.abortToken 1 w.buffered := by
  unfold created
  split
  · exact leads_failTask
  split
  · exact leads_failTask
  · exact leads_silent silent_nil rfl

theorem leads_uploaded {etag : String} (hbuffer : w.buffer.isSome = true) :
    Leads (w.uploaded config task err etag) w.abortToken 1 w.buffered := by
  have hone : w.buffered = 1 := by rw [buffered, if_pos hbuffer]
  unfold uploaded
  split
  · exact leads_failTask
  split
  · exact leads_failTask
  split
  · refine leads_pump rfl rfl rfl ?_
    rw [hone]
    rfl
  · have hsame : ∀ parts, ({ w with parts := parts, buffer := w.buffer.map (fun _ => []) } :
        Writer ε).buffered = w.buffered := by
      intro parts
      unfold buffered
      rw [Option.isSome_map]
    have hsilent : Silent [Action.stored (ε := ε) w.uploadID ⟨w.parts.length + 1, etag⟩ w.held] :=
      List.forall_mem_singleton.mpr ⟨rfl, rfl, rfl, rfl, rfl⟩
    rw [← hsame (w.parts ++ [⟨w.parts.length + 1, etag⟩])]
    exact leads_silent hsilent rfl

/-! ## The accounts -/

/-- **What a step does to the accounts**: it may have been granted a request,
and may have become active or have ceased to be so. Everything else stays as
it is, or is what the actions say. -/
structure Ledger (w : Writer ε) (t : Turn ε) (charge start done : ℕ) : Prop where
  tokens : t.actions.countP Action.isRequest + t.state.tokens ≤ w.tokens + charge
  busy : t.state.stage.busy + done = w.stage.busy + start
  listed : t.state.listed = w.listed
  owed : t.state.owed = w.owed
  claims : t.actions.countP Action.isClaim = 0
  unclaims : t.actions.countP Action.isUnclaim = 0
  buffers : t.actions.countP Action.isBuffer + w.buffered
    = t.actions.countP Action.isUnbuffer + t.state.buffered
  drained : (w.isDrained = true → w.buffer = none) → t.state.isDrained = true →
    t.state.buffer = none

theorem Leads.ledger {charge start done : ℕ} (h : Leads t n busy w.buffered)
    (hlisted : w.listed = true) (howed : w.owed = 1) (htokens : n ≤ w.tokens + charge)
    (hbusy : busy + done = w.stage.busy + start) : Ledger w t charge start done :=
  ⟨h.tokens.trans htokens, by rw [h.busy, hbusy], h.listed.trans hlisted.symm,
    h.owed.trans howed.symm, h.claims, h.unclaims, h.buffers,
    fun _ hd => nomatch h.undrained.symm.trans hd⟩

theorem Leads.of_working {charge start done : ℕ} {stage : Stage ε} (h : Leads t n busy w.buffered)
    (hs : w.stage = stage) (hstage : stage.working = true) (htokens : n ≤ w.tokens + charge)
    (hbusy : busy + done = stage.busy + start) : Ledger w t charge start done := by
  subst hs
  exact h.ledger (listed_of_working hstage).1 (listed_of_working hstage).2.1 htokens hbusy

theorem ledger_silent (hs : Silent actions) : Ledger w ⟨w, actions⟩ 0 0 0 := by
  obtain ⟨hr, hc, hu, hb, hn⟩ := hs.countP
  refine ⟨?_, rfl, rfl, rfl, hc, hu, congrArg (· + _) (hb.trans hn.symm), fun h hd => h hd⟩
  rw [hr]
  exact (Nat.zero_add _).le

theorem listed_of_open (hstage : w.stage = .free) (hc : w.closed = false) :
    w.listed = true ∧ w.owed = 1 := by
  unfold listed owed
  rw [hstage, hc]
  exact ⟨rfl, rfl⟩

theorem ledger_free (hstage : w.stage = .free) (hclosed : w.closed = true → t = ⟨w, []⟩)
    (hopen : w.closed = false → Leads t w.abortToken 0 w.buffered) : Ledger w t 0 0 0 := by
  cases hc : w.closed with
  | true =>
    rw [hclosed hc]
    exact ledger_silent silent_nil
  | false =>
    obtain ⟨hlisted, howed⟩ := listed_of_open hstage hc
    refine (hopen hc).ledger hlisted howed (Nat.le_add_right _ _) ?_
    rw [hstage]
    rfl

theorem silent_wrote (written : ℕ) (err : Option (Err ε)) : Silent [Action.wrote written err] :=
  List.forall_mem_singleton.mpr ⟨rfl, rfl, rfl, rfl, rfl⟩

theorem silent_ending (shutdown : Bool) : Silent [Action.ending (ε := ε) shutdown] :=
  List.forall_mem_singleton.mpr ⟨rfl, rfl, rfl, rfl, rfl⟩

theorem ledger_write (hstage : w.stage = .free) : Ledger w (w.write data) 0 0 0 := by
  unfold write
  split
  · exact ledger_silent (silent_wrote _ _)
  next hc =>
  split
  · exact ledger_silent (silent_wrote _ _)
  · obtain ⟨hlisted, howed⟩ := listed_of_open hstage (eq_false_of_ne_true hc)
    refine (leads_goto (.starting (.write data 0)) rfl).ledger hlisted howed
      (Nat.le_add_right _ _) ?_
    rw [hstage]
    rfl

theorem ledger_close (hstage : w.stage = .free) : Ledger w w.close 0 0 0 := by
  refine ledger_free hstage (fun hc => if_pos hc) (fun hc => ?_)
  unfold close
  rw [if_neg (by simp [hc])]
  exact leads_silent (silent_ending false) rfl

theorem ledger_shutdown (hstage : w.stage = .free) : Ledger w w.shutdown 0 0 0 := by
  refine ledger_free hstage (fun hc => if_pos hc) (fun hc => ?_)
  unfold shutdown
  rw [if_neg (by simp [hc])]
  exact leads_abort (silent_ending true)

theorem tokens_eq (h : w.stage.token = 0) : w.tokens = w.abortToken := by
  rw [tokens, h, Nat.add_zero]

variable {v : View ε}

theorem ledger_started (h : w.Track config v) (ht : w.turn config (.started err) = some t) :
    Ledger w t 0 (if err.isNone then 1 else 0) 0 := by
  cases turned ht with
  | started task err hs =>
    have hopen : ∀ data written, task = .write data written → w.closed = false := by
      rintro data written rfl
      simp only [Track, hs] at h
      exact h.2.1
    refine (leads_started hopen).of_working hs rfl ?_ (Nat.zero_add _).symm
    exact (tokens_eq (by rw [hs]; rfl)).symm.le

theorem ledger_admitted {op : Op} (hstage : w.stage = .reserving op task)
    (ht : w.turn config (.admitted err) = some t) :
    Ledger w t (if err.isNone && op.request then 1 else 0) 0 0 := by
  unfold Writer.turn at ht
  rw [hstage] at ht
  cases ht
  have htokens : w.abortToken = w.tokens := (tokens_eq (by rw [hstage]; rfl)).symm
  cases err with
  | some => exact leads_failTask.of_working hstage rfl htokens.le rfl
  | none =>
    refine (leads_goto (.reserved op task) rfl).of_working hstage rfl ?_ rfl
    show w.abortToken + (if op.request then 1 else 0) ≤ _
    rw [htokens]
    exact le_rfl

theorem ledger_answered (h : w.Track config v) (ht : w.turn config (.answered err) = some t) :
    Ledger w t 0 0 0 := by
  cases turned ht with
  | answered op task err hs => exact (leads_reserved hs).of_working hs rfl le_rfl rfl
  | claimed data err hs =>
    simp only [Track, hs] at h
    exact (leads_claimed h.2.1).of_working hs rfl (Nat.le_add_right _ _) rfl

/-- A part that is uploaded comes from the buffer. -/
theorem Flushing.buffer (h : w.Flushing config v task) : w.buffer.isSome = true := by
  have hheld : w.held ≠ [] := by
    cases task with
    | write =>
      intro hnil
      have hlen : w.held.length = config.partSize := h.2.2
      have := config.le_partSize
      rw [hnil] at hlen
      simp at hlen
      omega
    | close => exact h.2
  cases hb : w.buffer with
  | none =>
    rw [held, hb] at hheld
    exact absurd rfl hheld
  | some => rfl

theorem ledger_left (h : w.Track config v) (ht : w.turn config .left = some t) :
    Ledger w t 0 0 1 := by
  cases turned ht with
  | returned written err hs =>
    simp only [Track, hs] at h
    obtain ⟨hlisted, howed⟩ := listed_of_open (w := w.goto .free) rfl h.2.1
    obtain ⟨hl, ho, -⟩ := listed_of_working (by rw [hs]; rfl)
    refine ⟨?_, ?_, hlisted.trans hl.symm, howed.trans ho.symm, rfl, rfl, rfl, fun _ hd => ?_⟩
    · rw [tokens_eq (w := w) (by rw [hs]; rfl)]
      exact (Nat.zero_add _).le
    · rw [hs]
      rfl
    · cases h.2.1.symm.trans hd
  | departed hs => exact (leads_goto .draining rfl).of_working hs rfl (Nat.le_add_right _ _) rfl

theorem ledger_drained (hs : w.stage = .draining) : Ledger w (w.drained config) 0 0 0 := by
  obtain ⟨hlisted, howed, -⟩ := listed_of_working (by rw [hs]; rfl)
  have hzero : w.stage.busy = 0 := by
    rw [hs]
    rfl
  have hbuffers : (w.drained config).actions.countP Action.isBuffer + w.buffered
      = (w.drained config).actions.countP Action.isUnbuffer := by
    unfold drained buffered
    cases w.buffer
    · rfl
    · rfl
  have hnone : ∀ p : Action ε → Bool, p (.unbuffer config.capacity) = false →
      (w.drained config).actions.countP p = 0 := by
    intro p hp
    unfold drained
    cases w.buffer
    · rfl
    · simp [hp]
  refine ⟨?_, hzero.symm, hlisted.symm, howed.symm, hnone _ rfl, hnone _ rfl, hbuffers,
    fun _ _ => rfl⟩
  rw [hnone _ rfl, tokens_eq (w := w) (by rw [hs]; rfl)]
  exact (Nat.zero_add _).le

theorem ledger_own {l : WriterEvent ε} (h : w.Track config v) (ht : w.turn config l = some t)
    (hl : l.own = true) : Ledger w t 0 0 0 := by
  cases turned ht with
  | started | admitted | answered | claimed | returned | departed | released | notified => cases hl
  | write data hs => exact ledger_write hs
  | close hs => exact ledger_close hs
  | shutdown hs => exact ledger_shutdown hs
  | created task err uploadID hs =>
    exact leads_created.of_working hs rfl (Nat.le_add_right _ _) rfl
  | uploaded task err etag hs =>
    simp only [Track, hs] at h
    exact (leads_uploaded h.1.buffer).of_working hs rfl (Nat.le_add_right _ _) rfl
  | stored op err etag ho hs =>
    exact (leads_committed silent_nil).of_working hs rfl (Nat.le_add_right _ _) rfl
  | aborted ending err hs =>
    exact (leads_aborted silent_nil).of_working hs rfl (Nat.le_add_right _ _) rfl
  | drained hs => exact ledger_drained hs

end Writer

end Iceberg
