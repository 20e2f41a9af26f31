import Fathomry.AdapterCustody
import Fathomry.AdapterRuns

/-!
# Runtimes and inboxes together

An endpoint binds a runtime to an inbox, and any number of endpoints may share
either. `beginContexts` touches both: it reserves a record before it asks for a
permit, commits the record in the section that creates the operation, and gives
the reservation back when the call fails. A released operation tells its inbox,
and the consumers of an inbox look at the operations of their records.

The world is all runtimes and all inboxes. Its machine has the labels of
both sides, and each side on its own takes a run of its own machine or of
its own step function – which is how what was proved about a runtime alone
is available here (`World.run_runtime`).

The section of `beginContexts` that creates an operation takes the lock of
the inbox inside. Nobody can name the new operation before that, so the two
are one step.
-/

namespace Adapter

variable {ε T : Type}

/-- **A call of `beginContexts`**, as it is made: on an endpoint, with two
contexts that may be nil, a request and perhaps a parent. -/
structure Invocation (ε T : Type) where
  runtime : ℕ
  inbox : ℕ
  copy : T → T
  ctx : Option (Ctx ε)
  lifetime : Bool
  request : Request
  parent : Option Result

/-- **All runtimes and all inboxes.** -/
structure World (ε T : Type) where
  runtimes : ℕ → Runtime ε T
  inboxes : ℕ → Inbox ε

namespace World

variable (z : ℕ → Options) (y : ℕ → EvidenceOptions) (w : World ε T)

def init [Inhabited T] : World ε T := ⟨fun _ => Runtime.init, fun _ => Inbox.init⟩

def setRuntime (i : ℕ) (s : Runtime ε T) : World ε T :=
  { w with runtimes := Function.update w.runtimes i s }

def setInbox (j : ℕ) (b : Inbox ε) : World ε T :=
  { w with inboxes := Function.update w.inboxes j b }

def setLedger (j : ℕ) (b : Ledger) : World ε T := w.setInbox j ((w.inboxes j).setLedger b)

def read (v : Result) : Reading where
  name := (z v.runtime).name
  sequence := ((w.runtimes v.runtime).nodes.cell v.node).sequence
  released := ((w.runtimes v.runtime).nodes.cell v.node).released
  done := 0 < ((w.runtimes v.runtime).nodes.cell v.node).done

/-- What `beginContexts` refuses before it has reserved anything, or because
it cannot. -/
def refuse (x : Invocation ε T) : Option (Err ε) :=
  match x.ctx with
  | none => some (failureOf .request "begin" (z x.runtime).name {} [])
  | some ctx =>
    if x.lifetime = false ∨ validRequest x.request x.parent.isSome = false then
      some (failureOf .request "begin" (z x.runtime).name {} [])
    else if ∃ v ∈ x.parent, v.runtime ≠ x.runtime then
      some (failureOf .handle "child" (z x.runtime).name {} [])
    else if ctx.isSome then some (Admission.waitError (z x.runtime) "begin" ctx)
    else (w.inboxes x.inbox).refuse (y x.inbox) x.request.evidenceBytes

def reserved (x : Invocation ε T) : Call T :=
  ⟨x.request, x.copy, x.parent.map Result.node, x.inbox, (w.inboxes x.inbox).records.next⟩

/-- A call that has begun is committed. -/
def committed (i : ℕ) (s : Runtime ε T) (c : ℕ) : World ε T :=
  match s.phase c with
  | .begun v =>
    (w.setRuntime i s).setLedger (s.callers.cell c).inbox
      ((w.inboxes (s.callers.cell c).inbox).commit (s.callers.cell c).entry ⟨i, v⟩)
  | _ => w.setRuntime i s

/-- What an inbox gets to see of a section of a runtime: the call that has
begun is committed, the call that has failed gives its reservation back, and
a released operation wakes consumers. -/
def follow (i : ℕ) (s : Runtime ε T) : Event ε T → World ε T
  | .begin c => w.committed i s c
  | .admission (.abort c) =>
    (w.setRuntime i s).setLedger (s.callers.cell c).inbox
      ((w.inboxes (s.callers.cell c).inbox).abort (s.callers.cell c).entry)
  | .tree (.notify v) =>
    (w.setRuntime i s).setLedger (s.nodes.cell v).inbox
      (w.inboxes (s.nodes.cell v).inbox).notifyLocked
  | _ => w.setRuntime i s

/-- **What happens in the world.** -/
inductive Label (ε T : Type) where
  /-- `beginContexts` is called. -/
  | call (x : Invocation ε T)
  | runtime (i : ℕ) (e : Event ε T)
  | inbox (j : ℕ) (e : Inbox.Event ε)

variable [Inhabited T]

/-- **The step of the world.** -/
def step : Label ε T → Option (World ε T)
  | .call x =>
    match w.refuse z y x with
    | some _ => some w
    | none =>
      ((w.runtimes x.runtime).step (z x.runtime) (.call (w.reserved x))).map (fun s =>
        (w.setRuntime x.runtime s).setLedger x.inbox
          ((w.inboxes x.inbox).reserve x.request.evidenceBytes))
  | .runtime i e =>
    match e with
    | .call _ => none
    | e => ((w.runtimes i).step (z i) e).map (fun s => w.follow i s e)
  | .inbox j e => ((w.inboxes j).step (w.read z) e).map (w.setInbox j)

/-- **The world as a machine.** -/
def machine : Machine (World ε T) (Label ε T) := ⟨init, fun w l => w.step z y l⟩

/-! ## What a step can do -/

/-- An event that no inbox gets to see. -/
def quiet (s : Runtime ε T) : Event ε T → Prop
  | .call _ | .admission (.abort _) | .tree (.notify _) => False
  | .begin c => ∀ v, s.phase c ≠ .begun v
  | _ => True

/-- **What a step of the world can do.** -/
inductive Stepped : Label ε T → World ε T → Prop
  | refused (x : Invocation ε T) (err : Err ε) (hr : w.refuse z y x = some err) :
      Stepped (.call x) w
  | call (x : Invocation ε T) (s : Runtime ε T) (hr : w.refuse z y x = none)
      (hs : (w.runtimes x.runtime).step (z x.runtime) (.call (w.reserved x)) = some s) :
      Stepped (.call x) ((w.setRuntime x.runtime s).setLedger x.inbox
        ((w.inboxes x.inbox).reserve x.request.evidenceBytes))
  | begun (i c v : ℕ) (s : Runtime ε T) (hs : (w.runtimes i).step (z i) (.begin c) = some s)
      (hv : s.phase c = .begun v) :
      Stepped (.runtime i (.begin c))
        ((w.setRuntime i s).setLedger (s.callers.cell c).inbox
          ((w.inboxes (s.callers.cell c).inbox).commit (s.callers.cell c).entry ⟨i, v⟩))
  | aborted (i c : ℕ) (s : Runtime ε T)
      (hs : (w.runtimes i).step (z i) (.admission (.abort c)) = some s) :
      Stepped (.runtime i (.admission (.abort c)))
        ((w.setRuntime i s).setLedger (s.callers.cell c).inbox
          ((w.inboxes (s.callers.cell c).inbox).abort (s.callers.cell c).entry))
  | notified (i v : ℕ) (s : Runtime ε T)
      (hs : (w.runtimes i).step (z i) (.tree (.notify v)) = some s) :
      Stepped (.runtime i (.tree (.notify v)))
        ((w.setRuntime i s).setLedger (s.nodes.cell v).inbox
          (w.inboxes (s.nodes.cell v).inbox).notifyLocked)
  | runtime (i : ℕ) (e : Event ε T) (s : Runtime ε T) (hq : quiet s e)
      (hs : (w.runtimes i).step (z i) e = some s) : Stepped (.runtime i e) (w.setRuntime i s)
  | inbox (j : ℕ) (e : Inbox.Event ε) (b : Inbox ε)
      (hb : (w.inboxes j).step (w.read z) e = some b) : Stepped (.inbox j e) (w.setInbox j b)

variable {z y w} {w' : World ε T}

theorem stepped_call {x : Invocation ε T} (h : w.step z y (.call x) = some w') :
    Stepped z y w (.call x) w' := by
  unfold step at h
  dsimp only at h
  split at h
  · next err hr =>
    cases h
    exact .refused x err hr
  · next hr =>
    obtain ⟨s, hs, rfl⟩ := Option.map_eq_some_iff.mp h
    exact .call x s hr hs

/-- A section of a runtime, with what its inboxes get to see. -/
theorem follow_of_step {i : ℕ} {e : Event ε T} (h : w.step z y (.runtime i e) = some w') :
    ∃ s, (w.runtimes i).step (z i) e = some s ∧ w.follow i s e = w' := by
  cases e with
  | call => cases h
  | _ => exact Option.map_eq_some_iff.mp h

theorem stepped_runtime {i : ℕ} {e : Event ε T} (h : w.step z y (.runtime i e) = some w') :
    Stepped z y w (.runtime i e) w' := by
  obtain ⟨s, hs, rfl⟩ := follow_of_step h
  have hquiet (hq : quiet s e) (hw : w.follow i s e = w.setRuntime i s) :
      Stepped z y w (.runtime i e) (w.follow i s e) := hw ▸ .runtime i e s hq hs
  cases e with
  | call => cases h
  | begin c =>
    show Stepped z y w _ (w.committed i s c)
    unfold committed
    split
    · next v hv => exact .begun i c v s hs hv
    · next hv => exact .runtime i (.begin c) s hv hs
  | admission e =>
    cases e with
    | abort c => exact .aborted i c s hs
    | _ => exact hquiet trivial rfl
  | shutdown | finish => exact hquiet trivial rfl
  | tree e =>
    cases e with
    | notify v => exact .notified i v s hs
    | _ => exact hquiet trivial rfl

theorem stepped {l : Label ε T} (h : w.step z y l = some w') : Stepped z y w l w' := by
  cases l with
  | call => exact stepped_call h
  | runtime => exact stepped_runtime h
  | inbox j e =>
    obtain ⟨b, hb, rfl⟩ := Option.map_eq_some_iff.mp h
    exact .inbox j e b hb

/-! ## The parts of the world -/

omit [Inhabited T] in
/-- A call that is not refused has room for its record. -/
theorem room_of_refuse {x : Invocation ε T} (hr : w.refuse z y x = none) :
    (w.inboxes x.inbox).refuse (ε := ε) (y x.inbox) x.request.evidenceBytes = none := by
  unfold refuse at hr
  split at hr
  · cases hr
  · split_ifs at hr
    exact hr

def events (z : ℕ → Options) (y : ℕ → EvidenceOptions) (i : ℕ) (w : World ε T) :
    Label ε T → List (Event ε T)
  | .call x => if (w.refuse z y x).isNone = true ∧ x.runtime = i then [.call (w.reserved x)] else []
  | .runtime i' e => if i' = i then [e] else []
  | .inbox _ _ => []

omit [Inhabited T] in
theorem runtimes_setRuntime (i i' : ℕ) (s : Runtime ε T) :
    (w.setRuntime i s).runtimes i' = if i' = i then s else w.runtimes i' :=
  Function.update_apply _ _ _ _

omit [Inhabited T] in
theorem inboxes_setInbox (j j' : ℕ) (b : Inbox ε) :
    (w.setInbox j b).inboxes j' = if j' = j then b else w.inboxes j' :=
  Function.update_apply _ _ _ _

omit [Inhabited T] in
theorem ledger_setLedger (j j' : ℕ) (b : Ledger) :
    ((w.setLedger j b).inboxes j').toLedger = if j' = j then b else (w.inboxes j').toLedger := by
  unfold setLedger
  rw [inboxes_setInbox]
  split_ifs
  · rfl
  · rfl

omit [Inhabited T] in
theorem records_setLedger (j j' : ℕ) (b : Ledger) :
    ((w.setLedger j b).inboxes j').records
      = if j' = j then b.records else (w.inboxes j').records := by
  rw [ledger_setLedger]
  split_ifs
  · rfl
  · rfl

/-- **Each runtime takes steps of its own machine.** -/
theorem exec_events {l : Label ε T} (hl : w.step z y l = some w') (i : ℕ) :
    (Runtime.machine (z i)).exec (w.runtimes i) (events z y i w l) = some (w'.runtimes i) := by
  have hone {i' : ℕ} {e : Event ε T} {s : Runtime ε T} {W : World ε T}
      (hs : (w.runtimes i').step (z i') e = some s)
      (hW : W.runtimes = (w.setRuntime i' s).runtimes) :
      (Runtime.machine (z i)).exec (w.runtimes i) (if i' = i then [e] else [])
        = some (W.runtimes i) := by
    rw [hW, runtimes_setRuntime]
    by_cases hi : i' = i
    · subst hi
      rw [if_pos rfl, if_pos rfl, Machine.exec_singleton]
      exact hs
    · rw [if_neg hi, if_neg (Ne.symm hi)]
      rfl
  cases stepped hl with
  | refused x err hr =>
    have hnone : events z y i w (.call x) = [] :=
      if_neg (fun h => by rw [hr] at h; exact nomatch h.1)
    rw [hnone]
    rfl
  | call x s hr hs =>
    have hif : events z y i w (.call x)
        = if x.runtime = i then [.call (w.reserved x)] else [] := by
      simp only [events, hr, Option.isNone_none, true_and]
    rw [hif]
    exact hone hs rfl
  | begun i' c v s hs | aborted i' c s hs | notified i' v s hs | runtime i' e s _ hs =>
    exact hone hs rfl
  | inbox => rfl

/-- **Each runtime of the world is the machine of a runtime.** -/
theorem run_runtime {tr : List (Label ε T)} (hr : (machine z y).Run tr w) (i : ℕ) :
    (Runtime.machine (z i)).Run ((machine z y).outputs (events z y i) init tr) (w.runtimes i) :=
  hr.map (f := fun w => w.runtimes i) rfl (fun _ hl => exec_events hl i)

end World

end Adapter
