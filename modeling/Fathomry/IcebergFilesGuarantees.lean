import Fathomry.IcebergFiles
import Fathomry.IcebergWriterBytes

/-!
# The accounts of a family

The counters of a family are sums over its handles: calls that are active,
files that are open and – as a bound, since a reservation may be lost – the
requests that have been made or are reserved. What is known of a single
handle (`Local`) does not depend on the others, and a step changes a single
handle. So an event is checked once for its own handle, and once for the
difference it makes to the counters (`Inv.step`).

After `Close` has set its flag, nothing is added to the family and nothing
becomes active. The handles that were there are shut down one by one; calls of
`Create` and `Open` on their way find the flag and give back what they have. A
budget may have to wait longer than `Close`: a handle is taken out of the family
before the budget is told.
-/

namespace Iceberg

variable {ε : Type}

def logOf (k : ℕ) (log : List (ℕ × Action ε)) : List (Action ε) :=
  log.filterMap (fun x => if x.1 = k then some x.2 else none)

theorem logOf_append (j k : ℕ) (log : List (ℕ × Action ε)) (actions : List (Action ε)) :
    logOf j (log ++ actions.map (fun a => (k, a)))
      = logOf j log ++ if j = k then actions else [] := by
  unfold logOf
  split_ifs with h
  · simp [h]
  · simp [Ne.symm h]

def FilesEvent.call (k : ℕ) : FilesEvent ε → Option (WriterEvent ε)
  | .writer j event => if j = k then some event else none
  | _ => none

/-- The calls of the writer at `k`, and what the store has answered. -/
def callsOf (tr : List (FilesEvent ε)) (k : ℕ) : List (WriterEvent ε) :=
  tr.filterMap (FilesEvent.call k)

def Entry.file : Entry ε → Writer ε
  | .writer w _ => w
  | _ => .init

theorem view_append (acts more : List (Action ε)) :
    view (acts ++ more) = more.foldl View.add (view acts) := List.foldl_append

namespace Opening

@[simp] def held : Opening ε → ℕ
  | .claimed | .reserving | .reserved | .requesting | .adding | .undoing _ => 1
  | _ => 0

/-- The budget has the handle. -/
@[simp] def owed : Opening ε → ℕ
  | .reserving | .reserved | .requesting | .adding | .undoing _ | .notifying _ => 1
  | _ => 0

@[simp] def fresh : Opening ε → Bool
  | .claiming | .claimed => true
  | _ => false

/-- A request is reserved. -/
@[simp] def tokens (kind : HandleKind) : Opening ε → ℕ
  | .reserved => if kind = .reader then 1 else 0
  | _ => 0

/-- **What a call of `Create` or `Open` does** between two stages. -/
structure Passes (stage stage' : Opening ε) (actions : List (Action ε)) : Prop where
  view : actions.foldl View.add .empty = (.empty : View ε)
  claims : actions.countP Action.isClaim + stage.owed
    = actions.countP Action.isUnclaim + stage'.owed
  once : actions.countP Action.isClaim = 0 ∨
    (stage.fresh = true ∧ actions.countP Action.isClaim ≤ 1)
  buffers : actions.countP Action.isBuffer = 0 ∧ actions.countP Action.isUnbuffer = 0
  fresh : stage'.fresh = true → actions = [] ∧ stage.fresh = true

/-- Most stages are passed without a word to the budget. -/
theorem Passes.quiet {stage stage' : Opening ε} (h : stage.owed = stage'.owed)
    (hf : stage'.fresh = false) : stage.Passes stage' [] :=
  ⟨rfl, congrArg (0 + ·) h, .inl rfl, ⟨rfl, rfl⟩, fun hs => nomatch hf.symm.trans hs⟩

end Opening

namespace Entry

@[simp] def busy : Entry ε → ℕ
  | .opening _ _ => 1
  | .writer w o => w.stage.busy + if o then 1 else 0
  | .reader r => r.started + r.reserved + r.fetching + if r.opening then 1 else 0
  | .gone => 0

/-- The family has the handle, before it is in the family. -/
@[simp] def held : Entry ε → ℕ
  | .opening _ stage => stage.held
  | _ => 0

/-- The requests that are reserved. -/
@[simp] def tokens : Entry ε → ℕ
  | .opening kind stage => stage.tokens kind
  | .writer w _ => w.tokens
  | .reader r => r.reserved
  | .gone => 0

/-- The budget has the handle, which is in the family or not. -/
@[simp] def owed (listed : Bool) : Entry ε → ℕ
  | .opening _ stage => stage.owed
  | .writer w _ => w.owed
  | .reader r => (if listed then 1 else 0) + if r.notifying.isSome then 1 else 0
  | .gone => 0

@[simp] def buffered : Entry ε → ℕ
  | .writer w _ => w.buffered
  | _ => 0

def Fit (config : Config) (acts : List (Action ε)) (listed : Bool) : Entry ε → Prop
  | .opening _ stage =>
    listed = false ∧ view acts = .empty ∧ (stage.fresh = true → acts = [])
  | .writer w _ =>
    listed = w.listed ∧ w.Track config (view acts) ∧ (w.isDrained = true → w.buffer = none)
  | .reader r =>
    view acts = .empty ∧ (listed = false → r.closed = true ∧ r.idle = true) ∧
      (listed = true → r.notifying = none)
  | .gone => listed = false ∧ view acts = .empty

end Entry

/-- **The accounts of one handle.** -/
structure Local (config : Config) (calls : List (WriterEvent ε)) (acts : List (Action ε))
    (listed : Bool) (e : Entry ε) : Prop where
  claims : acts.countP Action.isClaim = acts.countP Action.isUnclaim + e.owed listed
  once : acts.countP Action.isClaim ≤ 1
  buffers : acts.countP Action.isBuffer = acts.countP Action.isUnbuffer + e.buffered
  fit : e.Fit config acts listed
  told : e.file.Told calls (view acts)

namespace Local

variable {config : Config} {calls calls' : List (WriterEvent ε)} {acts actions : List (Action ε)}
    {listed : Bool}

/-- **A handle goes on**, and what it takes and gives back is accounted for. -/
theorem append {e e' : Entry ε} {listed' : Bool} (h : Local config calls acts listed e)
    (hclaims : actions.countP Action.isClaim + e.owed listed
      = actions.countP Action.isUnclaim + e'.owed listed')
    (honce : actions.countP Action.isClaim = 0 ∨
      (acts = [] ∧ actions.countP Action.isClaim ≤ 1))
    (hbuffers : actions.countP Action.isBuffer + e.buffered
      = actions.countP Action.isUnbuffer + e'.buffered)
    (hfit : e'.Fit config (acts ++ actions) listed')
    (htold : e'.file.Told calls' (actions.foldl View.add (view acts))) :
    Local config calls' (acts ++ actions) listed' e' := by
  have hc := h.claims
  have hb := h.buffers
  refine ⟨?_, ?_, ?_, hfit, view_append acts actions ▸ htold⟩
  · rw [List.countP_append, List.countP_append]
    omega
  · rw [List.countP_append]
    obtain hz | ⟨rfl, hle⟩ := honce
    · rw [hz]
      exact h.once
    · exact (Nat.zero_add _).trans_le hle
  · rw [List.countP_append, List.countP_append]
    omega

theorem quiet {w : Writer ε} (h : w.Told calls (view acts)) (hv : view acts = .empty)
    (hview : actions.foldl View.add .empty = (.empty : View ε)) :
    w.Told calls (actions.foldl View.add (view acts)) := by
  rw [hv] at h ⊢
  rwa [hview]

theorem opening {kind : HandleKind} {stage stage' : Opening ε}
    (h : Local config calls acts listed (.opening kind stage)) (hp : stage.Passes stage' actions) :
    Local config calls (acts ++ actions) listed (.opening kind stage') := by
  obtain ⟨hlisted, hv, hf⟩ := h.fit
  refine h.append hp.claims (hp.once.imp_right (fun ho => ⟨hf ho.1, ho.2⟩))
    (congrArg (· + 0) (hp.buffers.1.trans hp.buffers.2.symm)) ⟨hlisted, ?_, fun hs => ?_⟩
    (quiet h.told hv hp.view)
  · rw [view_append, hv]
    exact hp.view
  · obtain ⟨rfl, hs'⟩ := hp.fresh hs
    rw [hf hs']
    rfl

theorem reader {r r' : Reader} {listed' : Bool} (h : Local config calls acts listed (.reader r))
    (hview : actions.foldl View.add .empty = (.empty : View ε))
    (hclaims : actions.countP Action.isClaim = 0 ∧
      (Entry.reader r : Entry ε).owed listed
        = actions.countP Action.isUnclaim + (Entry.reader r' : Entry ε).owed listed')
    (hbuffers : actions.countP Action.isBuffer = 0 ∧ actions.countP Action.isUnbuffer = 0)
    (hidle : listed' = false → r'.closed = true ∧ r'.idle = true)
    (hnotifying : listed' = true → r'.notifying = none) :
    Local config calls (acts ++ actions) listed' (.reader r') := by
  refine h.append ?_ (.inl hclaims.1)
    (congrArg (· + 0) (hbuffers.1.trans hbuffers.2.symm)) ⟨?_, hidle, hnotifying⟩
    (quiet h.told h.fit.1 hview)
  · rw [hclaims.1, Nat.zero_add]
    exact hclaims.2
  · rw [view_append, h.fit.1]
    exact hview

theorem writer {w : Writer ε} {opening opening' : Bool} {t : Writer.Turn ε} {charge start done : ℕ}
    (h : Local config calls acts listed (.writer w opening)) (hl : w.Ledger t charge start done)
    (ht : Writer.Follows config (view acts) t)
    (htold : t.state.Told calls' (t.actions.foldl View.add (view acts))) :
    Local config calls' (acts ++ t.actions) listed (.writer t.state opening') := by
  obtain ⟨hlisted, -, hdrained⟩ := h.fit
  refine h.append ?_ (.inl hl.claims) hl.buffers
    ⟨hlisted.trans hl.listed.symm, ?_, hl.drained hdrained⟩ htold
  · rw [hl.claims, hl.unclaims]
    exact congrArg (0 + ·) hl.owed.symm
  · rw [view_append]
    exact ht

end Local

namespace Files

variable (config : Config) (s : Files ε) (calls : ℕ → List (WriterEvent ε))
  (log : List (ℕ × Action ε))

/-- What `Close` has achieved. -/
def Progressed : Prop :=
  match s.progress with
  | .running => True
  | .shutting rest => s.closed = true ∧ ∀ k ∈ s.handles, k ∈ rest
  | .returned => s.closed = true ∧ s.handles = ∅ ∧ s.active ≤ 0

/-- **The accounts of a family.** -/
structure Inv : Prop where
  entries : ∀ k < s.entries.next,
    Local config (calls k) (logOf k log) (decide (k ∈ s.handles)) (s.entries.cell k)
  bounds : ∀ k ∈ s.handles, k < s.entries.next
  beyond : ∀ k, s.entries.next ≤ k → calls k = [] ∧ logOf k log = []
  ops : log.countP (fun x => x.2.isRequest) + s.entries.total Entry.tokens ≤ s.ops
  limit : s.ops ≤ config.maxFileOps
  active : s.active = (s.entries.total Entry.busy : ℕ)
  openFiles : s.openFiles = (s.handles.card + s.entries.total Entry.held : ℕ)
  progress : s.Progressed

variable {config s calls log}

def Follows (config : Config) (calls : ℕ → List (WriterEvent ε)) (log : List (ℕ × Action ε))
    (t : Turn ε) : Prop :=
  t.state.Inv config calls (log ++ t.actions)

section Step

variable {k ops bytes : ℕ} {active openFiles : ℤ} {handles : Finset ℕ} {e e' : Entry ε}
  {actions : List (Action ε)} {calls' : ℕ → List (WriterEvent ε)} (h : s.Inv config calls log)
  (hk : k < s.entries.next) (hcalls : ∀ j ≠ k, calls' j = calls j) (hcell : s.entries.cell k = e)
  (hops : e'.tokens + s.ops + actions.countP Action.isRequest ≤ e.tokens + ops)
  (hlimit : ops ≤ config.maxFileOps) (hactive : active + e.busy = s.active + e'.busy)
include h hk hcalls hcell hops hlimit hactive

/-- **One handle changes.** -/
theorem Inv.step
    (hlocal : Local config (calls k) (logOf k log) (decide (k ∈ s.handles)) e →
      Local config (calls' k) (logOf k log ++ actions) (decide (k ∈ handles)) e')
    (hhandles : ∀ j ≠ k, j ∈ handles ↔ j ∈ s.handles)
    (hopen : openFiles + (s.handles.card + e.held : ℕ)
      = s.openFiles + (handles.card + e'.held : ℕ))
    (hshrink : s.closed = true → (k ∈ handles → k ∈ s.handles) ∧ active ≤ s.active) :
    Follows config calls' log (({ s with
      ops := ops, bytes := bytes, active := active, openFiles := openFiles, handles := handles } :
      Files ε).step k e' actions) := by
  subst hcell
  have htotal : ∀ f : Entry ε → ℕ, (s.entries.set k e').total f + f (s.entries.cell k)
      = s.entries.total f + f e' := fun f => s.entries.total_set hk e' f
  refine ⟨fun j hj => ?_, fun j hj => ?_, fun j hj => ?_, ?_, hlimit, ?_, ?_, ?_⟩
  · show Local config (calls' j) (logOf j (log ++ actions.map (fun a => (k, a))))
      (decide (j ∈ handles)) ((s.entries.set k e').cell j)
    rw [logOf_append]
    split_ifs with hjk
    · subst hjk
      rw [Heap.cell_set_self]
      exact hlocal (h.entries j hk)
    · rw [List.append_nil, hcalls j hjk, Heap.cell_set_of_ne _ _ hjk,
        show decide (j ∈ handles) = decide (j ∈ s.handles) from
          decide_eq_decide.mpr (hhandles j hjk)]
      exact h.entries j hj
  · by_cases hjk : j = k
    · rw [hjk]
      exact hk
    · exact h.bounds j ((hhandles j hjk).mp hj)
  · have hjk : j ≠ k := by
      rintro rfl
      exact absurd hk (not_lt.mpr hj)
    show calls' j = [] ∧ logOf j (log ++ actions.map (fun a => (k, a))) = []
    rw [logOf_append, if_neg hjk, List.append_nil, hcalls j hjk]
    exact h.beyond j hj
  · show (log ++ actions.map (fun a => (k, a))).countP _ + (s.entries.set k e').total Entry.tokens
      ≤ ops
    rw [List.countP_append, List.countP_map]
    have ht := htotal Entry.tokens
    have ho := h.ops
    have hcomp : actions.countP ((fun x : ℕ × Action ε => x.2.isRequest) ∘ fun a => (k, a))
        = actions.countP Action.isRequest := rfl
    omega
  · show active = ((s.entries.set k e').total Entry.busy : ℕ)
    have ht := htotal Entry.busy
    have ha := h.active
    omega
  · show openFiles = (handles.card + (s.entries.set k e').total Entry.held : ℕ)
    have ht := htotal Entry.held
    have ho := h.openFiles
    omega
  · have hsub : s.closed = true → ∀ j ∈ handles, j ∈ s.handles := by
      intro hc j hj
      by_cases hjk : j = k
      · rw [hjk] at hj ⊢
        exact (hshrink hc).1 hj
      · exact (hhandles j hjk).mp hj
    have hp := h.progress
    unfold Progressed at hp
    show Progressed { s with
      ops := ops, bytes := bytes, active := active, openFiles := openFiles, handles := handles,
      entries := _ }
    unfold Progressed
    dsimp only
    split at hp
    · trivial
    · exact ⟨hp.1, fun j hj => hp.2 j (hsub hp.1 j hj)⟩
    · obtain ⟨hc, hempty, ha⟩ := hp
      refine ⟨hc, Finset.eq_empty_of_forall_notMem (fun j hj => ?_), (hshrink hc).2.trans ha⟩
      exact Finset.notMem_empty j (hempty ▸ hsub hc j hj)

/-- **One handle changes**, and is in the family as before. -/
theorem Inv.stay
    (hlocal : Local config (calls k) (logOf k log) (decide (k ∈ s.handles)) e →
      Local config (calls' k) (logOf k log ++ actions) (decide (k ∈ s.handles)) e')
    (hopen : openFiles + (e.held : ℕ) = s.openFiles + (e'.held : ℕ))
    (hshrink : s.closed = true → active ≤ s.active) :
    Follows config calls' log (({ s with
      ops := ops, bytes := bytes, active := active, openFiles := openFiles } :
      Files ε).step k e' actions) := by
  refine h.step hk hcalls hcell hops hlimit hactive hlocal (fun _ _ => Iff.rfl) ?_
    (fun hc => ⟨id, hshrink hc⟩)
  omega

end Step

theorem reserve_ok {s' : Files ε} {bytes : ℕ} {request : Bool}
    (h : s.reserve config bytes request = .ok s') :
    s.closed = false ∧ (request = true → s.ops < config.maxFileOps) ∧
      s' = { s with bytes := s.bytes + bytes, ops := if request then s.ops + 1 else s.ops } := by
  unfold reserve at h
  split at h
  · cases h
  split at h
  · cases h
  next hc hl =>
  simp only [Bool.or_eq_true, Bool.and_eq_true, decide_eq_true_eq, not_or, not_and, not_le] at hl
  exact ⟨eq_false_of_ne_true hc, hl.2, (Except.ok.inj h).symm⟩

/-! ## Opening -/

theorem Inv.opening {k ops bytes : ℕ} {openFiles : ℤ} {kind : HandleKind}
    {stage stage' : Opening ε} {actions : List (Action ε)} (h : s.Inv config calls log)
    (hk : k < s.entries.next) (hcell : s.entries.cell k = .opening kind stage)
    (hp : stage.Passes stage' actions)
    (hops : stage'.tokens kind + s.ops + actions.countP Action.isRequest
      ≤ stage.tokens kind + ops)
    (hlimit : ops ≤ config.maxFileOps)
    (hopen : openFiles + (stage.held : ℕ) = s.openFiles + (stage'.held : ℕ)) :
    Follows config calls log (({ s with ops := ops, bytes := bytes, openFiles := openFiles } :
      Files ε).step k (.opening kind stage') actions) :=
  h.stay hk (fun _ _ => rfl) hcell hops hlimit rfl (fun hlocal => hlocal.opening hp) hopen
    (fun _ => le_rfl)

theorem Inv.begin (h : s.Inv config calls log) (kind : HandleKind) (refusal : Option (Err ε)) :
    Follows config calls log (s.begin config kind refusal).2 := by
  have hstill : Follows config calls log ⟨s, []⟩ := by
    unfold Follows
    rw [List.append_nil]
    exact h
  unfold Files.begin
  split
  · exact hstill
  split
  · exact hstill
  · exact hstill
  next hstart =>
  have hclosed : s.closed = false := by
    unfold Files.start at hstart
    split_ifs at hstart with hc
    exact eq_false_of_ne_true hc
  have hnot : s.entries.next ∉ s.handles := fun hmem => absurd (h.bounds _ hmem) (lt_irrefl _)
  unfold Follows
  rw [List.append_nil]
  refine ⟨fun k hk => ?_, fun k hk => Nat.lt_succ_of_lt (h.bounds k hk), fun k hk => ?_, ?_,
    h.limit,
    ?_, ?_, ?_⟩
  · refine s.entries.forall_alloc h.entries ?_ k hk
    obtain ⟨hcalls, hlog⟩ := h.beyond _ le_rfl
    rw [hcalls, hlog]
    exact ⟨rfl, Nat.zero_le _, rfl, ⟨decide_eq_false hnot, rfl, fun _ => rfl⟩, Writer.told_init⟩
  · exact h.beyond k (Nat.le_of_succ_le hk)
  · show _ + (s.entries.alloc _).total Entry.tokens ≤ s.ops
    rw [Heap.total_alloc]
    exact h.ops
  · show s.active + 1 = ((s.entries.alloc _).total Entry.busy : ℕ)
    rw [Heap.total_alloc, h.active]
    rfl
  · show s.openFiles = (s.handles.card + (s.entries.alloc _).total Entry.held : ℕ)
    rw [Heap.total_alloc]
    exact h.openFiles
  · have hp := h.progress
    unfold Progressed at hp ⊢
    dsimp only
    split at hp
    · trivial
    iterate 2 exact nomatch hclosed.symm.trans hp.1

section Opening

variable {k : ℕ} {kind : HandleKind} (h : s.Inv config calls log) (hk : k < s.entries.next)
include h hk

theorem Inv.claim (hcell : s.entries.cell k = .opening kind .claiming) :
    Follows config calls log (s.claim config k kind) := by
  unfold Files.claim
  split
  · exact h.opening hk hcell (.quiet rfl rfl) le_rfl h.limit rfl
  split
  · exact h.opening hk hcell (.quiet rfl rfl) le_rfl h.limit rfl
  · refine h.opening hk hcell ⟨rfl, rfl, .inl rfl, ⟨rfl, rfl⟩, fun _ => ⟨rfl, rfl⟩⟩ le_rfl
      h.limit ?_
    show s.openFiles + 1 + 0 = s.openFiles + 1
    omega

theorem Inv.claimed (hcell : s.entries.cell k = .opening kind .claimed) (check : Option (Err ε)) :
    Follows config calls log (s.claimed k kind check) := by
  cases check with
  | some =>
    refine h.opening hk hcell (.quiet rfl rfl) le_rfl h.limit ?_
    show s.openFiles - 1 + 1 = s.openFiles + 0
    omega
  | none =>
    exact h.opening hk hcell ⟨rfl, rfl, .inr ⟨rfl, le_rfl⟩, ⟨rfl, rfl⟩, nofun⟩ le_rfl
      h.limit rfl

theorem Inv.reserveOpening (hcell : s.entries.cell k = .opening kind .reserving) :
    Follows config calls log (s.reserveOpening config k kind) := by
  unfold Files.reserveOpening
  split
  · exact h.opening hk hcell (.quiet rfl rfl) le_rfl h.limit rfl
  · next s' hs =>
    obtain ⟨-, hlt, rfl⟩ := reserve_ok hs
    cases kind with
    | writer => exact h.opening hk hcell (.quiet rfl rfl) le_rfl h.limit rfl
    | reader =>
      refine h.opening hk hcell (.quiet rfl rfl) ?_ (hlt rfl) rfl
      show 1 + s.ops + 0 ≤ 0 + (s.ops + 1)
      omega

theorem Inv.answer (hcell : s.entries.cell k = .opening kind .reserved) (check : Option (Err ε)) :
    Follows config calls log (s.answer k kind check) := by
  unfold Files.answer
  split
  · refine h.opening hk hcell (.quiet rfl rfl) ?_ h.limit rfl
    show 0 + s.ops + 0 ≤ _ + s.ops
    omega
  · exact h.opening hk hcell (.quiet rfl rfl) le_rfl h.limit rfl
  · refine h.opening hk hcell ⟨rfl, rfl, .inl rfl, ⟨rfl, rfl⟩, nofun⟩ ?_ h.limit rfl
    show 0 + s.ops + 1 ≤ 1 + s.ops
    omega

theorem Inv.add (hcell : s.entries.cell k = .opening kind .adding) :
    Follows config calls log (s.add k kind) := by
  unfold Files.add
  split
  · exact h.opening hk hcell (.quiet rfl rfl) le_rfl h.limit rfl
  next hc =>
  have hlisted := (h.entries k hk).fit
  rw [hcell] at hlisted
  have hcard : (insert k s.handles).card = s.handles.card + 1 :=
    Finset.card_insert_of_notMem (of_decide_eq_false hlisted.1)
  have hothers : ∀ j ≠ k, j ∈ insert k s.handles ↔ j ∈ s.handles := fun j hj => by
    rw [Finset.mem_insert, or_iff_right hj]
  have hopen : s.openFiles + (s.handles.card + 1 : ℕ)
      = s.openFiles + ((insert k s.handles).card + 0 : ℕ) := by rw [hcard]
  cases kind with
  | writer =>
    refine h.step hk (fun _ _ => rfl) hcell le_rfl h.limit rfl (fun hlocal => ?_) hothers hopen
      (fun hc' => absurd hc' hc)
    rw [List.append_nil, decide_eq_true (Finset.mem_insert_self k _)]
    refine ⟨hlocal.claims, hlocal.once, hlocal.buffers, ⟨rfl, ?_, nofun⟩, hlocal.told⟩
    rw [hlocal.fit.2.1]
    exact ⟨⟨⟨rfl, rfl, nofun, fun _ => rfl, rfl, rfl, rfl, fun hne => absurd rfl hne⟩, rfl, nofun,
      Nat.zero_le _, rfl, Nat.zero_le _, fun _ => rfl⟩, rfl⟩
  | reader =>
    refine h.step hk (fun _ _ => rfl) hcell le_rfl h.limit rfl (fun hlocal => ?_) hothers hopen
      (fun hc' => absurd hc' hc)
    rw [List.append_nil, decide_eq_true (Finset.mem_insert_self k _)]
    exact ⟨hlocal.claims, hlocal.once, hlocal.buffers, ⟨hlocal.fit.2.1, nofun, fun _ => rfl⟩,
      hlocal.told⟩

end Opening

/-! ## Handles -/

section Handles

variable {k : ℕ} {w : Writer ε} {o : Bool} {t : Turn ε} (h : s.Inv config calls log)
  (hk : k < s.entries.next)
include h hk

theorem Inv.fit {e : Entry ε} (hcell : s.entries.cell k = e) :
    e.Fit config (logOf k log) (decide (k ∈ s.handles)) := hcell ▸ (h.entries k hk).fit

theorem Inv.told {e : Entry ε} (hcell : s.entries.cell k = e) :
    e.file.Told (calls k) (view (logOf k log)) := hcell ▸ (h.entries k hk).told

theorem Inv.unlist {e e' : Entry ε} (hcell : s.entries.cell k = e) (hmem : k ∈ s.handles)
    (hlocal : Local config (calls k) (logOf k log) true e →
      Local config (calls k) (logOf k log) false e')
    (htokens : e'.tokens = e.tokens) (hbusy : e'.busy = e.busy) (hheld : e'.held = e.held) :
    Follows config calls log ((s.unlist k).step k e' []) := by
  refine h.step hk (fun _ _ => rfl) hcell (by rw [htokens]; rfl) h.limit (by rw [hbusy])
    (fun hl => ?_)
    (fun j hj => ?_) ?_ (fun _ => ⟨?_, le_rfl⟩)
  · rw [List.append_nil, decide_eq_false (Finset.notMem_erase k s.handles)]
    exact hlocal (decide_eq_true hmem ▸ hl)
  · show j ∈ s.handles.erase k ↔ _
    rw [Finset.mem_erase, and_iff_right hj]
  · have hcard := Finset.card_erase_add_one hmem
    show s.openFiles - 1 + (s.handles.card + e.held : ℕ)
      = s.openFiles + ((s.handles.erase k).card + e'.held : ℕ)
    omega
  · exact fun hj => absurd hj (Finset.notMem_erase k s.handles)

/-- **A reader goes on.** Once it is not in the family any more it is closed
and idle, and stays so. -/
theorem Inv.reading {ops bytes : ℕ} {active : ℤ} {r r' : Reader} {actions : List (Action ε)}
    (hcell : s.entries.cell k = .reader r) (hactions : actions = [] ∨ actions = [.request .get])
    (hidle : r.closed = true → r.idle = true → r'.closed = true ∧ r'.idle = true)
    (hnotifying : r'.notifying = r.notifying)
    (hops : r'.reserved + s.ops + actions.length ≤ r.reserved + ops)
    (hlimit : ops ≤ config.maxFileOps)
    (hactive : active + (Entry.reader r : Entry ε).busy
      = s.active + (Entry.reader r' : Entry ε).busy)
    (hshrink : s.closed = true → active ≤ s.active) :
    Follows config calls log (({ s with ops := ops, bytes := bytes, active := active } :
      Files ε).step k (.reader r') actions) := by
  obtain rfl | rfl := hactions
  all_goals
    refine h.stay hk (fun _ _ => rfl) hcell hops hlimit hactive (fun hlocal => ?_) rfl hshrink
    obtain ⟨-, hgone, hlisted⟩ := hlocal.fit
    refine hlocal.reader rfl ⟨rfl, ?_⟩ ⟨rfl, rfl⟩ (fun hl => hidle (hgone hl).1 (hgone hl).2)
      (fun hl => hnotifying.trans (hlisted hl))
    show _ + (if r.notifying.isSome then 1 else 0) = 0 + (_ + if r'.notifying.isSome then 1 else 0)
    rw [hnotifying, Nat.zero_add]

theorem Inv.release {family : Bool}
    (ht : s.release config k family (s.entries.cell k) = some t) : Follows config calls log t := by
  unfold Files.release at ht
  split at ht
  · next kind err hcell =>
    cases ht
    refine h.opening hk hcell (.quiet rfl rfl) le_rfl h.limit ?_
    show s.openFiles - 1 + 1 = s.openFiles + 0
    omega
  · next w o hcell =>
    obtain ⟨hlisted, htrack, hdrained⟩ := h.fit hk hcell
    obtain ⟨_, _, _, _, _, _, _, _, stage⟩ := w
    cases stage with
    | releasing =>
      have hmem : k ∈ s.handles := of_decide_eq_true hlisted
      rw [if_pos hmem] at ht
      obtain ⟨t', ht', rfl⟩ := Option.map_eq_some_iff.mp ht
      have hfollows := htrack.turn ht'
      have htold := (h.told hk hcell).turn ht'
      cases ht'
      exact h.unlist hk hcell hmem (fun hlocal => ⟨hlocal.claims, hlocal.once, hlocal.buffers,
        ⟨rfl, hfollows, fun _ => hdrained rfl⟩, List.append_nil (calls k) ▸ htold⟩) rfl rfl rfl
    | _ => cases ht
  · next r hcell =>
    obtain ⟨hguard, ht⟩ := Option.ite_none_right_eq_some.mp ht
    simp only [Bool.and_eq_true, decide_eq_true_eq] at hguard
    obtain ⟨⟨⟨hclosed, hidle⟩, hmem⟩, -⟩ := hguard
    cases ht
    refine h.unlist hk hcell hmem (fun hlocal => ?_) rfl rfl rfl
    rw [← List.append_nil (logOf k log)]
    refine hlocal.reader rfl ⟨rfl, ?_⟩ ⟨rfl, rfl⟩ (fun _ => ⟨hclosed, hidle⟩) nofun
    show 1 + (if r.notifying.isSome then 1 else 0) = 0 + (0 + 1)
    rw [hlocal.fit.2.2 rfl]
    rfl
  · cases ht

theorem Inv.notify (ht : s.notify config k (s.entries.cell k) = some t) :
    Follows config calls log t := by
  unfold Files.notify at ht
  split at ht
  · next kind err hcell =>
    cases ht
    exact h.opening hk hcell ⟨rfl, rfl, .inl rfl, ⟨rfl, rfl⟩, nofun⟩ le_rfl h.limit rfl
  · next w o hcell =>
    obtain ⟨t', ht', rfl⟩ := Option.map_eq_some_iff.mp ht
    obtain ⟨_, closed, _, _, _, _, _, _, stage⟩ := w
    cases stage with
    | notifying =>
      obtain ⟨hlisted, htrack, hdrained⟩ := h.fit hk hcell
      have hfollows := htrack.turn ht'
      have htold := (h.told hk hcell).turn ht'
      cases ht'
      obtain rfl : closed = true := htrack.closed
      refine h.stay hk (fun _ _ => rfl) hcell le_rfl h.limit rfl (fun hlocal =>
        hlocal.append rfl (.inl rfl) rfl ⟨hlisted, ?_, fun _ => hdrained rfl⟩
          (List.append_nil (calls k) ▸ htold)) rfl (fun _ => le_rfl)
      rw [view_append]
      exact hfollows
    | _ => cases ht'
  · next r hcell =>
    obtain ⟨hsome, rfl⟩ := of_guard ht
    refine h.stay hk (fun _ _ => rfl) hcell le_rfl h.limit rfl (fun hlocal => ?_) rfl
      (fun _ => le_rfl)
    refine hlocal.reader rfl ⟨rfl, ?_⟩ ⟨rfl, rfl⟩ hlocal.fit.2.1 (fun _ => rfl)
    show _ + (if r.notifying.isSome then 1 else 0) = 1 + (_ + 0)
    rw [hsome]
    exact Nat.add_comm _ _
  · cases ht

theorem Inv.leave (ht : s.leave k (s.entries.cell k) = some t) : Follows config calls log t := by
  have hless : s.active - 1 ≤ s.active := by omega
  unfold Files.leave at ht
  repeat' split at ht
  all_goals cases ht
  · next hcell =>
    refine h.stay hk (fun _ _ => rfl) hcell le_rfl h.limit ?_ (fun hlocal => ?_) rfl
      (fun _ => hless)
    · show s.active - 1 + 1 = s.active + 0
      omega
    · refine hlocal.append rfl (.inl rfl) rfl ⟨hlocal.fit.1, ?_⟩
        (Local.quiet hlocal.told hlocal.fit.2.1 rfl)
      rw [view_append, hlocal.fit.2.1]
      rfl
  · next w hcell =>
    refine h.stay hk (fun _ _ => rfl) hcell le_rfl h.limit ?_ (fun hlocal => ?_) rfl
      (fun _ => hless)
    · show s.active - 1 + ((w.stage.busy + 1 : ℕ) : ℤ) = s.active + ((w.stage.busy + 0 : ℕ) : ℤ)
      omega
    · rw [List.append_nil]
      exact { hlocal with }
  · next r hcell hopening =>
    refine h.reading hk hcell (.inl rfl) (fun hc hi => ⟨hc, hi⟩) rfl le_rfl h.limit ?_
      (fun _ => hless)
    simp only [Entry.busy, hopening, if_true, Bool.false_eq_true, if_false]
    omega

/-! ## Writers -/

variable (hcell : s.entries.cell k = .writer w o)
include hcell

/-- **A writer makes a step**, and its family counts. -/
theorem Inv.move {ops bytes : ℕ} {active : ℤ} {l : WriterEvent ε} {charge start done : ℕ}
    {calls' : ℕ → List (WriterEvent ε)}
    (hcalls : ∀ j, calls' j = calls j ++ if j = k then l.called else [])
    (ht : ({ s with ops := ops, bytes := bytes, active := active } : Files ε).move config k w o l
      = some t)
    (hledger : ∀ t', w.turn config l = some t' → w.Ledger t' charge start done)
    (hops : ops = s.ops + charge) (hlimit : ops ≤ config.maxFileOps)
    (hactive : active + done = s.active + start) (hclosed : s.closed = true → start = 0) :
    Follows config calls' log t := by
  obtain ⟨t', ht', rfl⟩ := Option.map_eq_some_iff.mp ht
  have hl := hledger t' ht'
  have htold := (h.told hk hcell).turn ht'
  refine h.stay hk (fun j hj => ?_) hcell ?_ hlimit ?_
    (fun hlocal => hlocal.writer hl (hlocal.fit.2.1.turn ht') ?_) rfl (fun hc => ?_)
  · rw [hcalls, if_neg hj, List.append_nil]
  · have := hl.tokens
    show t'.state.tokens + s.ops + _ ≤ w.tokens + ops
    omega
  · have := hl.busy
    show active + ((w.stage.busy + if o then 1 else 0 : ℕ) : ℤ)
      = s.active + ((t'.state.stage.busy + if o then 1 else 0 : ℕ) : ℤ)
    omega
  · rw [hcalls, if_pos rfl]
    exact htold
  · have := hclosed hc
    omega

omit h hk hcell in
/-- The family is not called. -/
theorem calls_eq {l : WriterEvent ε} (hl : l.called = []) (j : ℕ) :
    calls j = calls j ++ if j = k then l.called else [] := by
  rw [hl, ite_self, List.append_nil]

theorem Inv.startWriter (ht : s.startWriter config k w o = some t) :
    Follows config calls log t := by
  refine h.move hk hcell (calls_eq rfl) ht
    (fun t' ht' => Writer.ledger_started (h.fit hk hcell).2.1 ht') rfl
    h.limit ?_ (fun hc => ?_)
  · split
    · omega
    · omega
  · unfold Files.start
    rw [if_pos hc]
    rfl

theorem Inv.reserveWriter (ht : s.reserveWriter config k w o = some t) :
    Follows config calls log t := by
  revert ht
  fun_cases Files.reserveWriter
  all_goals intro ht
  · next hstage _ _ =>
    exact h.move hk hcell (calls_eq rfl) ht
      (fun t' => Writer.ledger_admitted hstage) rfl h.limit rfl (fun _ => rfl)
  · next op _ hstage _ hs =>
    obtain ⟨-, hlt, rfl⟩ := reserve_ok hs
    refine h.move hk hcell (calls_eq rfl) ht
      (fun t' => Writer.ledger_admitted hstage) ?_ ?_ rfl (fun _ => rfl)
    · cases op.request
      · rfl
      · rfl
    · split
      · next hr => exact hlt hr
      · exact h.limit
  · cases ht

theorem Inv.answerWriter {check : Option (Err ε)}
    (ht : s.answerWriter config k w o check = some t) : Follows config calls log t := by
  unfold Files.answerWriter at ht
  split at ht
  all_goals
    exact h.move hk hcell (calls_eq rfl) ht
      (fun t' ht' => Writer.ledger_answered (h.fit hk hcell).2.1 ht') rfl h.limit rfl (fun _ => rfl)

theorem Inv.writer {l : WriterEvent ε} (ht : s.writer config k w o l = some t) :
    Follows config (fun j => calls j ++ (FilesEvent.call j (.writer k l)).toList) log t := by
  have htrack := (h.fit hk hcell).2.1
  have hcalls (hl : l.called = [l]) (j : ℕ) : calls j ++ (FilesEvent.call j (.writer k l)).toList
      = calls j ++ if j = k then l.called else [] := by
    rw [hl, FilesEvent.call]
    by_cases hj : j = k
    · rw [if_pos hj, if_pos hj.symm]
      rfl
    · rw [if_neg hj, if_neg (Ne.symm hj)]
      rfl
  have hown : l.own = true → l.called = [l] → s.move config k w o l = some t →
      Follows config (fun j => calls j ++ (FilesEvent.call j (.writer k l)).toList) log t :=
    fun hl hl' ht => h.move hk hcell (hcalls hl') ht
      (fun t' ht' => Writer.ledger_own htrack ht' hl) rfl h.limit rfl (fun _ => rfl)
  cases l with
  | started | admitted | answered | released | notified => cases ht
  | write | close =>
    obtain ⟨-, ht⟩ := Option.ite_none_left_eq_some.mp ht
    exact hown rfl rfl ht
  | left =>
    refine h.move hk hcell (hcalls rfl) ht
      (fun t' => Writer.ledger_left htrack) rfl h.limit ?_ (fun _ => rfl)
    show s.active - 1 + 1 = s.active + 0
    omega
  | shutdown | created | uploaded | stored | aborted | drained => exact hown rfl rfl ht

end Handles

/-! ## Readers -/

section Readers

variable {k : ℕ} {r : Reader} {t : Turn ε}

theorem Reader.idle_iff : r.idle = true ↔
    r.begun = 0 ∧ r.started = 0 ∧ r.reserved = 0 ∧ r.fetching = 0 := by
  unfold Reader.idle
  simp only [Bool.and_eq_true, decide_eq_true_eq, and_assoc]

variable (h : s.Inv config calls log) (hk : k < s.entries.next)
    (hcell : s.entries.cell k = .reader r)
include h hk hcell

theorem Inv.read (ht : s.read k r = some t) : Follows config calls log t := by
  obtain ⟨hguard, rfl⟩ := of_guard_not ht
  refine h.reading hk hcell (.inl rfl) (fun hc _ => (hguard ?_).elim) rfl le_rfl h.limit rfl
    (fun _ => le_rfl)
  rw [hc]
  rfl

theorem Inv.readStart (ht : s.readStart k r = some t) : Follows config calls log t := by
  obtain ⟨hguard, ht⟩ := Option.ite_none_left_eq_some.mp ht
  have hlive {p : Prop} (_ : r.closed = true) (hi : r.idle = true) : p :=
    (hguard (Reader.idle_iff.mp hi).1).elim
  split at ht
  · cases ht
    exact h.reading hk hcell (.inl rfl) hlive rfl le_rfl h.limit rfl (fun _ => le_rfl)
  · next hstart =>
    cases ht
    refine h.reading hk hcell (.inl rfl) hlive rfl le_rfl h.limit ?_ (fun hc => ?_)
    · dsimp only [Entry.busy]
      omega
    · unfold Files.start at hstart
      rw [if_pos hc] at hstart
      cases hstart

theorem Inv.readNothing (ht : s.readNothing k r = some t) : Follows config calls log t := by
  obtain ⟨hguard, rfl⟩ := of_guard_not ht
  refine h.reading hk hcell (.inl rfl) (fun _ hi => (hguard (Reader.idle_iff.mp hi).2.1).elim) rfl
    le_rfl h.limit ?_ (fun _ => ?_)
  · dsimp only [Entry.busy]
    omega
  · omega

theorem Inv.readReserve {bytes : ℕ} (ht : s.readReserve config k bytes r = some t) :
    Follows config calls log t := by
  obtain ⟨hguard, ht⟩ := Option.ite_none_left_eq_some.mp ht
  have hlive {p : Prop} (_ : r.closed = true) (hi : r.idle = true) : p :=
    (hguard (Reader.idle_iff.mp hi).2.1).elim
  split at ht
  · cases ht
    refine h.reading hk hcell (.inl rfl) hlive rfl le_rfl h.limit ?_ (fun _ => ?_)
    · dsimp only [Entry.busy]
      omega
    · omega
  · next hs =>
    obtain ⟨-, hlt, rfl⟩ := reserve_ok hs
    cases ht
    refine h.reading hk hcell (.inl rfl) hlive rfl ?_ (hlt rfl) ?_ (fun _ => le_rfl)
    · show r.reserved + 1 + s.ops + 0 ≤ r.reserved + (s.ops + 1)
      omega
    · dsimp only [Entry.busy]
      omega

theorem Inv.readAnswer {check : Option (Err ε)} (ht : s.readAnswer k r check = some t) :
    Follows config calls log t := by
  obtain ⟨hguard, ht⟩ := Option.ite_none_left_eq_some.mp ht
  have hlive {p : Prop} (_ : r.closed = true) (hi : r.idle = true) : p :=
    (hguard (Reader.idle_iff.mp hi).2.2.1).elim
  split at ht
  · cases ht
    refine h.reading hk hcell (.inl rfl) hlive rfl ?_ h.limit ?_ (fun _ => ?_)
    · show r.reserved - 1 + s.ops + 0 ≤ r.reserved + s.ops
      omega
    · dsimp only [Entry.busy]
      omega
    · omega
  · cases ht
    refine h.reading hk hcell (.inr rfl) hlive rfl ?_ h.limit ?_ (fun _ => le_rfl)
    · show r.reserved - 1 + s.ops + 1 ≤ r.reserved + s.ops
      omega
    · dsimp only [Entry.busy]
      omega

theorem Inv.readDone (ht : s.readDone k r = some t) : Follows config calls log t := by
  obtain ⟨hguard, rfl⟩ := of_guard_not ht
  refine h.reading hk hcell (.inl rfl) (fun _ hi => (hguard (Reader.idle_iff.mp hi).2.2.2).elim) rfl
    le_rfl h.limit ?_ (fun _ => ?_)
  · dsimp only [Entry.busy]
    omega
  · omega

end Readers

/-! ## Closing -/

section

variable (h : s.Inv config calls log)
include h

/-- What the accounts do not speak about. -/
theorem Inv.rest {closed : Bool} {ctxErr : Option (Err ε)} {progress : Progress}
    (hprogress :
      ({ s with closed := closed, ctxErr := ctxErr, progress := progress } : Files ε).Progressed) :
    Follows config calls log
      ⟨{ s with closed := closed, ctxErr := ctxErr, progress := progress }, []⟩ := by
  unfold Follows
  rw [List.append_nil]
  exact { h with progress := hprogress }

theorem Inv.close {order : List ℕ} {t : Turn ε} (ht : s.close order = some t) :
    Follows config calls log t := by
  obtain ⟨hguard, ht⟩ := Option.ite_none_right_eq_some.mp ht
  simp only [Bool.and_eq_true, decide_eq_true_eq] at hguard
  obtain ⟨⟨-, horder⟩, -⟩ := hguard
  cases ht
  refine h.rest ⟨rfl, fun k hk => ?_⟩
  exact List.mem_toFinset.mp (horder ▸ hk)

/-- **A handle that has been shut down is not in the family.** -/
theorem Inv.settled_notMem {k : ℕ} (hk : s.isSettled k (s.entries.cell k) = true) :
    k ∉ s.handles := by
  unfold isSettled at hk
  split at hk
  · next w o hcell =>
    intro hmem
    obtain ⟨hlisted, -⟩ := h.fit (h.bounds k hmem) hcell
    rw [decide_eq_true hmem] at hlisted
    unfold Writer.listed at hlisted
    split at hk
    · next hstage =>
      rw [hstage, hk] at hlisted
      cases hlisted
    · cases hk
  · simp only [Bool.and_eq_true, decide_eq_true_eq] at hk
    exact hk.1.2
  · cases hk

theorem Inv.settled {k : ℕ} {rest : List ℕ} (hprogress : s.progress = .shutting (k :: rest))
    (hk : s.isSettled k (s.entries.cell k) = true) :
    Follows config calls log ⟨{ s with progress := .shutting rest }, []⟩ := by
  have hp := h.progress
  unfold Progressed at hp
  rw [hprogress] at hp
  refine h.rest ⟨hp.1, fun j hj => ?_⟩
  obtain rfl | hj' := List.mem_cons.mp (hp.2 j hj)
  · exact absurd hj (h.settled_notMem hk)
  · exact hj'

theorem Inv.joined (hprogress : s.progress = .shutting []) (hactive : s.active = 0) :
    Follows config calls log ⟨{ s with progress := .returned }, []⟩ := by
  have hp := h.progress
  unfold Progressed at hp
  rw [hprogress] at hp
  refine h.rest
    ⟨hp.1, Finset.eq_empty_of_forall_notMem (fun k hk => ?_), hactive.le⟩
  exact nomatch hp.2 k hk

/-! ## Runs -/

/-- **A step for one handle keeps the accounts.** -/
theorem Inv.handle {k : ℕ} (hk : k < s.entries.next) {l : FilesEvent ε} {t : Turn ε}
    (hl : ∀ j, l.call j = none) (ht : s.handle config k l = some t) :
    Follows config calls log t := by
  have hreader {f : Reader → Option (Turn ε)} (hf : (s.reader k).bind f = some t)
      (hs : ∀ {r}, s.entries.cell k = .reader r → f r = some t → Follows config calls log t) :
      Follows config calls log t := by
    obtain ⟨r, hr, hf⟩ := Option.bind_eq_some_iff.mp hf
    unfold Files.reader at hr
    split at hr
    all_goals cases hr
    exact hs ‹_› hf
  revert ht
  fun_cases Files.handle
  all_goals intro ht
  any_goals cases ht
  · next hcell => exact h.claim hk hcell
  · next hcell => exact h.claimed hk hcell _
  · next hcell => exact h.reserveOpening hk hcell
  · next hcell => exact h.reserveWriter hk hcell ht
  · next hcell => exact h.answer hk hcell _
  · next hcell => exact h.answerWriter hk hcell ht
  iterate 2 next hcell => exact h.opening hk hcell (.quiet rfl rfl) le_rfl h.limit rfl
  · next hcell => exact h.add hk hcell
  · exact h.release hk ht
  · exact h.notify hk ht
  · exact h.leave hk ht
  · next hcell => exact h.startWriter hk hcell ht
  · next j _ _ _ _ => exact nomatch (if_pos rfl).symm.trans (hl j)
  · exact hreader ht (h.read hk)
  · exact hreader ht (h.readStart hk)
  · exact hreader ht (h.readNothing hk)
  · exact hreader ht (fun hcell => h.readReserve hk hcell)
  · exact hreader ht (fun hcell => h.readAnswer hk hcell)
  · exact hreader ht (h.readDone hk)
  · refine hreader ht (fun hcell hf => ?_)
    cases hf
    exact h.reading hk hcell (.inl rfl) (fun _ hi => ⟨rfl, hi⟩) rfl le_rfl h.limit rfl
      (fun _ => le_rfl)

theorem Inv.turn {l : FilesEvent ε} {t : Turn ε} (ht : s.turn config l = some t) :
    Follows config (fun j => calls j ++ (l.call j).toList) log t := by
  by_cases hl : ∃ k event, l = .writer k event
  · obtain ⟨k, event, rfl⟩ := hl
    obtain ⟨hk, ht⟩ := Option.ite_none_right_eq_some.mp ht
    unfold Files.handle at ht
    dsimp only at ht
    split at ht
    · next hcell => exact h.writer hk hcell ht
    · cases ht
  have hcall (j : ℕ) : l.call j = none := by
    cases l with
    | writer k event => exact absurd ⟨k, event, rfl⟩ hl
    | _ => rfl
  simp only [hcall, Option.toList_none, List.append_nil]
  unfold Files.turn at ht
  repeat' split at ht
  any_goals cases ht
  · next hk => exact h.handle hk hcall ht
  · exact h.rest h.progress
  · exact h.begin _ _
  · exact h.close ht
  · next hprogress hk => exact h.settled hprogress hk
  · next hguard =>
    simp only [Bool.and_eq_true, decide_eq_true_eq] at hguard
    exact h.joined hguard.1 hguard.2

end

/-- **The accounts are right after every run.** -/
theorem inv_of_run {tr : List (FilesEvent ε)} (hr : (machine config).machine.Run tr s) :
    s.Inv config (callsOf tr) ((machine config).log tr) := by
  have h0 : (init : Files ε).Inv config (callsOf []) [] :=
    ⟨nofun, nofun, fun _ _ => ⟨rfl, rfl⟩, le_rfl, Nat.zero_le _, rfl, rfl, trivial⟩
  refine Mealy.invariant (I := fun tr s => s.Inv config (callsOf tr) ((machine config).log tr)) h0
    (fun {tr s l t} hr h ht => ?_) hr
  have hcalls : callsOf (tr ++ [l]) = fun j => callsOf tr j ++ (l.call j).toList := by
    funext j
    unfold callsOf
    rw [List.filterMap_append]
    cases hl : l.call j
    all_goals simp [hl]
  rw [Mealy.log_concat hr ht, hcalls]
  exact h.turn ht

/-! ## What is left -/

/-- The handle at `k` has been given up: there is no file, or it has been
closed and its `Close` has returned. -/
def Over (s : Files ε) (k : ℕ) : Prop :=
  match s.entries.cell k with
  | .opening _ _ => False
  | .writer w _ => w.closed = true ∧ w.stage = .free
  | .reader r => k ∉ s.handles ∧ r.notifying = none
  | .gone => True

/-- A handle has been taken out of the family, and the budget is to be
told. -/
def Notifying (s : Files ε) (k : ℕ) : Prop :=
  match s.entries.cell k with
  | .writer w _ => w.closed = true ∧ w.stage = .notifying
  | .reader r => r.closed = true ∧ r.notifying.isSome = true
  | _ => False

def handlesOut (log : List (Action ε)) : ℤ :=
  log.countP Action.isClaim - log.countP Action.isUnclaim

def buffersOut (log : List (Action ε)) : ℤ :=
  log.countP Action.isBuffer - log.countP Action.isUnbuffer

end Files

namespace Local

variable {config : Config} {calls : List (WriterEvent ε)} {acts : List (Action ε)} {listed : Bool}
  {e : Entry ε}

theorem handlesOut_eq (h : Local config calls acts listed e) :
    Files.handlesOut acts = e.owed listed := by
  have := h.claims
  unfold Files.handlesOut
  omega

theorem buffersOut_eq (h : Local config calls acts listed e) :
    Files.buffersOut acts = e.buffered := by
  have := h.buffers
  unfold Files.buffersOut
  omega

theorem buffered_le : e.buffered ≤ 1 := by
  unfold Entry.buffered
  split
  · unfold Writer.buffered
    split
    · exact le_rfl
    · exact Nat.zero_le _
  · exact Nat.zero_le _

theorem allOrNothing (h : Local config calls acts listed e) : AllOrNothing config (view acts) := by
  have hempty : view acts = .empty → AllOrNothing config (view acts) := fun hv => by
    rw [hv]
    exact .of_nil rfl
  have hfit := h.fit
  cases e with
  | opening => exact hempty hfit.2.1
  | writer => exact hfit.2.1.allOrNothing
  | reader => exact hempty hfit.1
  | gone => exact hempty hfit.2

theorem given (h : Local config calls acts listed e) : Given calls (view acts) := by
  refine ⟨fun hne => ?_, h.told.kept, h.told.endings⟩
  have hfit := h.fit
  cases e with
  | writer w => exact h.told.accepted hfit.2.1 hne
  | opening => exact absurd (congrArg View.publications hfit.2.1) hne
  | reader => exact absurd (congrArg View.publications hfit.1) hne
  | gone => exact absurd (congrArg View.publications hfit.2) hne

theorem buffered_of_unlisted (h : Local config calls acts false e) : e.buffered = 0 := by
  cases e with
  | writer w =>
    obtain ⟨hlisted, -, hdrained⟩ := h.fit
    have hbuffer : w.buffer = none := by
      refine hdrained ?_
      unfold Writer.listed at hlisted
      unfold Writer.isDrained
      split at hlisted
      · next hstage => rw [hstage]
      · next hstage =>
        rw [hstage]
        exact (Bool.not_eq_false_eq_eq_true w.closed).mp hlisted.symm
      · cases hlisted
    show (if w.buffer.isSome then 1 else 0) = 0
    rw [hbuffer]
    rfl
  | opening | reader | gone => rfl

end Local

namespace Files

variable {config : Config} {s : Files ε} {calls : ℕ → List (WriterEvent ε)}
  {log : List (ℕ × Action ε)}

/-- **A handle that has been given up** has been given back. -/
theorem Inv.over (h : s.Inv config calls log) {k : ℕ} (hk : k < s.entries.next) (hover : s.Over k) :
    handlesOut (logOf k log) = 0 ∧ buffersOut (logOf k log) = 0 := by
  have hlocal := h.entries k hk
  rw [hlocal.handlesOut_eq, hlocal.buffersOut_eq]
  unfold Over at hover
  have hnot : k ∉ s.handles ∧ (s.entries.cell k).owed false = 0 := by
    have hfit := hlocal.fit
    split at hover
    · exact hover.elim
    · next w o hcell =>
      rw [hcell] at hfit ⊢
      have hlisted : w.listed = false := by
        unfold Writer.listed
        rw [hover.2, hover.1]
        rfl
      refine ⟨of_decide_eq_false (hfit.1.trans hlisted), ?_⟩
      show w.owed = 0
      unfold Writer.owed
      rw [hover.2, hover.1]
      rfl
    · next r hcell =>
      rw [hcell]
      refine ⟨hover.1, ?_⟩
      show 0 + (if r.notifying.isSome then 1 else 0) = 0
      rw [hover.2]
      rfl
    · next hcell =>
      rw [hcell] at hfit ⊢
      exact ⟨of_decide_eq_false hfit.1, rfl⟩
  rw [show decide (k ∈ s.handles) = false from decide_eq_false hnot.1] at hlocal ⊢
  exact ⟨congrArg Int.ofNat hnot.2, congrArg Int.ofNat hlocal.buffered_of_unlisted⟩

/-- **When `Close` has returned**, nothing is left in the family. -/
theorem Inv.returned (h : s.Inv config calls log) (hreturned : s.progress = .returned) :
    s.handles = ∅ ∧ s.openFiles = 0 ∧ ∀ k < s.entries.next, buffersOut (logOf k log) = 0 ∧
      (handlesOut (logOf k log) = 0 ∨ handlesOut (logOf k log) = 1 ∧ s.Notifying k) := by
  have hp := h.progress
  unfold Progressed at hp
  rw [hreturned] at hp
  obtain ⟨-, hempty, hactive⟩ := hp
  have hidle : ∀ k < s.entries.next, (s.entries.cell k).busy = 0 := by
    intro k hk
    have htotal : s.entries.total Entry.busy = 0 := by
      have := h.active
      omega
    exact Finset.sum_eq_zero_iff.mp htotal k (Finset.mem_range.mpr hk)
  refine ⟨hempty, ?_, fun k hk => ?_⟩
  · have hheld : s.entries.total Entry.held = 0 := by
      refine Finset.sum_eq_zero (fun k hk => ?_)
      have hbusy := hidle k (Finset.mem_range.mp hk)
      generalize s.entries.cell k = e at hbusy ⊢
      cases e with
      | opening => cases hbusy
      | writer | reader | gone => rfl
    rw [h.openFiles, hempty, hheld]
    rfl
  · have hlocal := h.entries k hk
    rw [hempty, show decide (k ∈ (∅ : Finset ℕ)) = false from rfl] at hlocal
    have hbusy := hidle k hk
    refine ⟨hlocal.buffersOut_eq.trans (congrArg Int.ofNat hlocal.buffered_of_unlisted), ?_⟩
    rw [hlocal.handlesOut_eq]
    have hfit := hlocal.fit
    unfold Notifying
    generalize s.entries.cell k = e at hbusy hfit ⊢
    cases e with
    | opening => cases hbusy
    | gone => exact .inl rfl
    | writer w =>
      obtain ⟨hlisted, htrack, -⟩ := hfit
      show ((w.owed : ℕ) : ℤ) = 0 ∨ ((w.owed : ℕ) : ℤ) = 1 ∧ w.closed = true ∧ w.stage = .notifying
      unfold Writer.listed at hlisted
      unfold Writer.owed
      split at hlisted
      · next hstage =>
        simp only [Writer.Track, hstage] at htrack
        rw [hstage]
        exact .inr ⟨rfl, htrack.closed, rfl⟩
      · next hstage =>
        rw [hstage,
          show w.closed = true from (Bool.not_eq_false_eq_eq_true w.closed).mp hlisted.symm]
        exact .inl rfl
      · cases hlisted
    | reader r =>
      show ((0 + (if r.notifying.isSome then 1 else 0) : ℕ) : ℤ) = 0 ∨
        ((0 + (if r.notifying.isSome then 1 else 0) : ℕ) : ℤ) = 1 ∧ _
      cases hn : r.notifying with
      | none => exact .inl rfl
      | some family =>
        exact .inr ⟨rfl, (hfit.2.1 rfl).1, Option.isSome_iff_exists.mpr ⟨family, hn⟩⟩

/-- **All or nothing, within the limits.** Whatever happens in whatever order
in a family, and whatever the store and the budget answer: each writer asks
for its object at most once and for the whole of it, or not at all; the whole
of it is what its `Write`s were given and have said they took; its
upload is completed or aborted; there are at most as many requests as are
allowed; and handles and buffers are given back once. When `Close` has
returned nothing is left in the family, and the budget may lack a handle only
while the `Close` of the handle is about to tell it. -/
theorem publishes_all_or_nothing {tr : List (FilesEvent ε)}
    (hr : (machine config).machine.Run tr s) :
    (∀ k, AllOrNothing config (view (logOf k ((machine config).log tr)))) ∧
    (∀ k, Given (callsOf tr k) (view (logOf k ((machine config).log tr)))) ∧
    (∀ k < s.entries.next, ∀ w o, s.entries.cell k = .writer w o → w.closed = true →
      w.stage = .free → Writer.Finished (view (logOf k ((machine config).log tr))) w.uploadID) ∧
    ((machine config).log tr).countP (fun x => x.2.isRequest) ≤ config.maxFileOps ∧
    (∀ k, (logOf k ((machine config).log tr)).countP Action.isClaim ≤ 1 ∧
      0 ≤ handlesOut (logOf k ((machine config).log tr)) ∧
      0 ≤ buffersOut (logOf k ((machine config).log tr)) ∧
      buffersOut (logOf k ((machine config).log tr)) ≤ 1) ∧
    (∀ k < s.entries.next, s.Over k → handlesOut (logOf k ((machine config).log tr)) = 0 ∧
      buffersOut (logOf k ((machine config).log tr)) = 0) ∧
    (s.progress = .returned → s.handles = ∅ ∧ s.openFiles = 0 ∧ ∀ k < s.entries.next,
      buffersOut (logOf k ((machine config).log tr)) = 0 ∧
        (handlesOut (logOf k ((machine config).log tr)) = 0 ∨
          handlesOut (logOf k ((machine config).log tr)) = 1 ∧ s.Notifying k)) := by
  have h := inv_of_run hr
  generalize (machine config).log tr = log at h ⊢
  refine ⟨fun k => ?_, fun k => ?_, fun k hk w o hcell hclosed hstage => ?_, ?_, fun k => ?_,
    fun k hk => h.over hk, h.returned⟩
  · by_cases hk : k < s.entries.next
    · exact (h.entries k hk).allOrNothing
    · rw [(h.beyond k (not_lt.mp hk)).2]
      exact .of_nil rfl
  · by_cases hk : k < s.entries.next
    · exact (h.entries k hk).given
    · obtain ⟨hcalls, hlog⟩ := h.beyond k (not_lt.mp hk)
      rw [hcalls, hlog]
      exact ⟨fun hne => absurd rfl hne, nofun, rfl⟩
  · obtain ⟨-, htrack, -⟩ := h.fit hk hcell
    simp only [Writer.Track, hstage, hclosed, if_true] at htrack
    exact htrack.finished
  · exact ((Nat.le_add_right _ _).trans h.ops).trans h.limit
  · by_cases hk : k < s.entries.next
    · have hlocal := h.entries k hk
      rw [hlocal.handlesOut_eq, hlocal.buffersOut_eq]
      exact ⟨hlocal.once, Int.natCast_nonneg _, Int.natCast_nonneg _,
        Int.ofNat_le.mpr Local.buffered_le⟩
    · rw [(h.beyond k (not_lt.mp hk)).2]
      exact ⟨Nat.zero_le _, le_rfl, le_rfl, zero_le_one⟩

def sampleConfig : Config where
  maxObjectBytes := 8
  maxIOBytes := 8
  maxFileOps := 1
  maxOpenFiles := 1
  partSize := 5 * 2 ^ 20
  allowWrite := true
  maxObjectBytes_pos := by decide
  maxIOBytes_pos := by decide
  maxFileOps_pos := by decide
  maxOpenFiles_pos := by decide
  le_partSize := le_rfl
  partSize_le := by decide

def sampleCreate : List (FilesEvent Empty) :=
  [.begin .writer none, .claim 0, .claimed 0 none, .reserve 0, .answer 0 none, .add 0, .leave 0]

def sampleWrite : List (FilesEvent Empty) :=
  [.writer 0 (.write [1, 2]), .start 0, .reserve 0, .answer 0 none, .answer 0 none, .writer 0 .left]

def sampleClose : List (FilesEvent Empty) :=
  [.writer 0 .close, .start 0, .reserve 0, .answer 0 none, .writer 0 (.stored none "e"),
    .writer 0 .left, .writer 0 .drained, .release 0 false]

def samplePublish : List (FilesEvent Empty) :=
  sampleCreate ++ sampleWrite ++ sampleClose ++ [.notify 0, .close [], .joined]

/-- A family with a single request publishes an object. -/
theorem publishes_two_bytes :
    ∃ s : Files Empty, (machine sampleConfig).machine.Run samplePublish s ∧
      s.progress = .returned ∧ s.openFiles = 0 ∧
      AllOrNothing sampleConfig (view (logOf 0 ((machine sampleConfig).log samplePublish))) ∧
      (view (logOf 0 ((machine sampleConfig).log samplePublish))).publications.map
        (fun x => x.request) = [.put [1, 2] "*"] := by
  obtain ⟨s, hr, hprogress⟩ : ∃ s : Files Empty,
      (machine sampleConfig).machine.Run samplePublish s ∧ s.progress = .returned :=
    ⟨_, (machine sampleConfig).machine.run_reached samplePublish (by decide +kernel),
      by decide +kernel⟩
  obtain ⟨hall, -, -, -, -, -, hreturned⟩ := publishes_all_or_nothing hr
  exact ⟨s, hr, hprogress, (hreturned hprogress).2.1, hall 0, by decide +kernel⟩

/-- **The budget may be told after `Close` has returned.** The writer has
taken itself out of the family, so `Close` neither shuts it down nor waits
for it. -/
theorem budget_told_late :
    ∃ s : Files Empty,
      (machine sampleConfig).machine.Run (sampleCreate ++ sampleClose ++ [.close [], .joined]) s ∧
      s.progress = .returned ∧
      handlesOut (logOf 0 ((machine sampleConfig).log
        (sampleCreate ++ sampleClose ++ [.close [], .joined]))) = 1 := by
  have hr := (machine sampleConfig).machine.run_reached
    (sampleCreate ++ sampleClose ++ [.close [], .joined]) (by decide +kernel)
  exact ⟨_, hr, by decide +kernel, by decide +kernel⟩

end Files

end Iceberg
