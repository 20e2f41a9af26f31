import Fathomry.ResourceBinding

/-!
# A scope and its bindings

`resource.Scope` owns a list of bindings and lets requests through to them.
`Apply` prepares every binding before it commits to any; `Retry` asks one
binding again; shutdown stops them all. This module is the code of
`resource/v1/scope.go` and the scope's share of `binding.go`, as a machine
whose state is the scope with all its bindings and all calls in progress.

Three locks order what happens. The gate admits one `Apply` or `Retry` at a time
and is held from admission to return. The scope's mutex is held while the
commits of an `Apply` run, one section of a binding after the other, and while a
`Retry` runs; shutdown and `Bind` wait for it. Between any two sections every
other actor may move.

The types of configuration and instance differ from binding to binding, so
a scope is over families `C` and `T`. Bindings are declared while the
machine runs: `o i` is what the `i`-th accepted `Bind` was given.
-/

namespace Resource

variable {ε V : Type} {C T : ℕ → Type}

/-! ## Options -/

/-- `resource.Options`, the timeout in nanoseconds. -/
structure Limits where
  name : String
  maxBindings : ℤ
  maxPreparing : ℤ
  cleanupTimeout : ℤ

/-- **The limits of a scope**, checked and with their defaults filled in. -/
structure ScopeOptions extends Limits where
  name_valid : name = "" ∨ validName name = true
  bindings_bound : 1 ≤ maxBindings ∧ maxBindings ≤ 256
  preparing_bound : 1 ≤ maxPreparing ∧ maxPreparing ≤ 64
  timeout_bound : 1000000 ≤ cleanupTimeout ∧ cleanupTimeout ≤ 60000000000

/-- The documented defaults of `normalize`. -/
def Limits.defaults (l : Limits) : Limits where
  name := l.name
  maxBindings := if l.maxBindings = 0 then 64 else l.maxBindings
  maxPreparing := if l.maxPreparing = 0 then 4 else l.maxPreparing
  cleanupTimeout := if l.cleanupTimeout = 0 then 5000000000 else l.cleanupTimeout

def normalize (l : Limits) : Except (Err ε) ScopeOptions :=
  if h : (l.defaults.name = "" ∨ validName l.defaults.name = true)
      ∧ (1 ≤ l.defaults.maxBindings ∧ l.defaults.maxBindings ≤ 256)
      ∧ (1 ≤ l.defaults.maxPreparing ∧ l.defaults.maxPreparing ≤ 64)
      ∧ (1000000 ≤ l.defaults.cleanupTimeout ∧ l.defaults.cleanupTimeout ≤ 60000000000) then
    .ok ⟨l.defaults, h.1, h.2.1, h.2.2.1, h.2.2.2⟩
  else .error (fail .options "new" "" {} [])

/-! ## Calls -/

/-- What a caller asks for. The zero view is `none`. -/
inductive Request (V : Type) where
  | apply (view : Option V)
  | retry (i : ℕ)

/-- `Update`: the sequence, the scope's name, and the targets, each as a
binding and the selection that owns it. -/
structure Update where
  sequence : ℕ
  scope : String
  targets : List (ℕ × ℕ)

/-- **Where a call is.** -/
inductive Phase (ε : Type) (C : ℕ → Type) where
  | entering
  | waiting
  /-- The gate is held; about to look again whether the scope has stopped. -/
  | entered
  | admitted
  /-- `Apply` has prepared the first `k` of `n` bindings. -/
  | preparing (k n : ℕ) (commits : ∀ i, Option (Commit (C i)))
  /-- `Apply` holds the scope's mutex and has committed the first `k`. -/
  | committing (k n : ℕ) (commits : ∀ i, Option (Commit (C i))) (sequence : ℕ)
      (targets : List (ℕ × ℕ))
  | locked
  /-- The result is known; the gate is about to be given back. -/
  | leaving (result : Except (Err ε) Update)
  | returned (result : Except (Err ε) Update)

def Phase.holds : Phase ε C → Bool
  | .entering | .waiting | .returned _ => false
  | _ => true

def Phase.locks : Phase ε C → Bool
  | .committing _ _ _ _ _ | .locked => true
  | _ => false

/-- Whether a call in this phase has been accepted: it changes bindings, or
has changed them. -/
def Phase.accepted : Phase ε C → Bool
  | .committing _ _ _ _ _ | .leaving (.ok _) | .returned (.ok _) => true
  | _ => false

/-- An `Apply` or a `Retry` in progress. A nil context is `none`. -/
structure Call (ε V : Type) (C : ℕ → Type) where
  request : Request V
  ctx : Option (Ctx ε)
  phase : Phase ε C

def Call.context (x : Call ε V C) : Ctx ε := x.ctx.getD none

/-- How far shutdown has come. -/
inductive Shutdown (ε : Type) where
  | running
  /-- `stop` is called on one binding after the other. -/
  | stopping (k n : ℕ) (cause : Option (Err ε))
  /-- About to pass the gate once. -/
  | joining (n : ℕ)
  | waiting (n : ℕ)
  | done

/-- **The state of a scope**, with its bindings and calls. -/
structure Scope (ε V : Type) (C T : ℕ → Type) where
  stopping : Bool
  sealed : Bool
  count : ℕ
  base : Ctx ε
  sequence : ℕ
  /-- The construction slots in use. -/
  preparing : ℕ
  gate : Option ℕ
  shutdown : Shutdown ε
  calls : Heap (Call ε V C)
  entries : ∀ i, Binding ε (C i) (T i)

/-- **What happens to a scope.** -/
inductive Label (ε V : Type) (C T : ℕ → Type) where
  | bind
  /-- `Watch` seals the declarations. -/
  | watch
  | call (request : Request V) (ctx : Option (Ctx ε))
  | cancel (c : ℕ) (cause : Option (Err ε))
  | cancelBase (cause : Option (Err ε))
  | grab (c : ℕ)
  /-- A call waiting for the gate sees the scope stop. -/
  | refuse (c : ℕ)
  /-- A call waiting for the gate sees its context cancelled. -/
  | expire (c : ℕ)
  /-- A call takes the next step of its program. -/
  | advance (c : ℕ)
  | shutdown (parent : Bool)
  /-- The next section of a shutdown in progress. -/
  | stop
  | join
  | finish
  /-- A section of the `i`-th binding that no request runs. -/
  | entry (i : ℕ) (e : Event ε (C i) (T i))

/-! ## What a binding reads of its scope -/

/-- Fill in what a section reads of the scope. The first look at `stopped`
may have come before the scope stopped. -/
def Reading.observe (stopped : Bool) (base : Ctx ε) (r : Reading ε) : Reading ε :=
  ⟨r.stopped && stopped, stopped, base⟩

def Event.observe {C T : Type} (stopped : Bool) (base : Ctx ε) : Event ε C T → Event ε C T
  | .acquire ctx _ => .acquire ctx stopped
  | .expire g r => .expire g (r.observe stopped base)
  | .copy g _ => .copy g stopped
  | .build g _ => .build g stopped
  | .skip g _ => .skip g stopped
  | .skipped g cancelled r => .skipped g cancelled (r.observe stopped base)
  | .built g inst err r => .built g inst err (r.observe stopped base)
  | e => e

/-- The events of a binding that the scope does not run itself. -/
def Event.internal {C T : Type} : Event ε C T → Bool
  | .commit _ | .retry _ | .stop _ => false
  | _ => true

namespace Scope

variable (z : ScopeOptions) (o : ∀ i, Options ε V (C i)) (s : Scope ε V C T)

def init [Inhabited V] [∀ i, Inhabited (C i)] [∀ i, Inhabited (T i)] : Scope ε V C T where
  stopping := false
  sealed := false
  count := 0
  base := none
  sequence := 0
  preparing := 0
  gate := none
  shutdown := .running
  calls := Heap.empty ⟨.apply none, none, .entering⟩
  entries := fun _ => Binding.init

def stopped : Bool := s.stopping || s.base.isSome

def details : Details := { scope := z.name }

def phase (c : ℕ) : Phase ε C := (s.calls.cell c).phase

def locked : Bool :=
  match s.gate with
  | some c => (s.phase c).locks
  | none => false

def goto (c : ℕ) (p : Phase ε C) : Scope ε V C T :=
  { s with calls := s.calls.modify c (fun x => { x with phase := p }) }

def setEntry (i : ℕ) (b : Binding ε (C i) (T i)) : Scope ε V C T :=
  { s with entries := Function.update s.entries i b }

def setGate (gate : Option ℕ) : Scope ε V C T := { s with gate := gate }

def setSealed : Scope ε V C T := { s with sealed := true }

def bump : Scope ε V C T := { s with sequence := increment s.sequence }

def setShutdown (d : Shutdown ε) : Scope ε V C T := { s with shutdown := d }

def setPreparing (n : ℕ) : Scope ε V C T := { s with preparing := n }

def invoke (request : Request V) (ctx : Option (Ctx ε)) : Scope ε V C T :=
  { s with calls := s.calls.alloc ⟨request, ctx, .entering⟩ }

def cancel (c : ℕ) (cause : Option (Err ε)) : Scope ε V C T :=
  { s with calls := s.calls.modify c (fun x => { x with ctx := x.ctx.map (·.cancel cause) }) }

def cancelBase (cause : Option (Err ε)) : Scope ε V C T :=
  { s with base := s.base.cancel cause }

/-! ### Declarations -/

def declare : Scope ε V C T := { s with count := s.count + 1 }

def taken : Bool := (List.range s.count).any (fun i => (o i).name == (o s.count).name)

def bind : Except (Err ε) (Scope ε V C T) :=
  let refuse (code : Code) : Except (Err ε) (Scope ε V C T) :=
    .error (fail code "bind" (o s.count).name (details z) [])
  if s.stopped then refuse .closed
  else if s.sealed then refuse .sealed
  else if s.taken o then refuse .options
  else if (s.count : ℤ) = z.maxBindings then refuse .limit
  else .ok s.declare

/-- What a request leaves behind: a failed one changes nothing. -/
def after : Except (Err ε) (Scope ε V C T) → Scope ε V C T
  | .ok s' => s'
  | .error _ => s

/-- The locked section of `Watch`, as far as declarations go. -/
def watch : Scope ε V C T := if s.stopped then s else s.setSealed

/-! ### Requests -/

def waitError (operation name : String) (ctx : Ctx ε) : Err ε :=
  fail .wait operation name (details z) [ctx.err, ctx.cause]

def closedError (operation name : String) : Err ε := fail .closed operation name (details z) []

/-- `enterApply`, up to its `select`. -/
def enter (c : ℕ) : Scope ε V C T :=
  match (s.calls.cell c).ctx with
  | none => s.goto c (.returned (.error (fail .options "apply" "" (details z) [])))
  | some ctx =>
    if ctx.isSome then s.goto c (.returned (.error (waitError z "apply" "" ctx)))
    else if s.stopped then s.goto c (.returned (.error (closedError z "apply" "")))
    else s.goto c .waiting

def grab (c : ℕ) : Option (Scope ε V C T) :=
  match s.phase c, s.gate with
  | .waiting, none => some ((s.setGate (some c)).goto c .entered)
  | _, _ => none

/-- The second case: the scope stops. -/
def refuse (c : ℕ) : Option (Scope ε V C T) :=
  match s.phase c, s.stopping with
  | .waiting, true => some (s.goto c (.returned (.error (closedError z "apply" ""))))
  | _, _ => none

/-- The third case: the context ends. -/
def expire (c : ℕ) : Option (Scope ε V C T) :=
  match s.phase c, (s.calls.cell c).context with
  | .waiting, some ctx =>
    some (s.goto c (.returned (.error (waitError z "apply" "" (some ctx)))))
  | _, _ => none

/-- `Apply` prepares the `k`-th binding. What it compares outside the lock –
the configurations of the selection and of the generation it saw – is never
written again, so the comparison is read here, with the snapshot. -/
def prepareEntry (c : ℕ) (view : V) (k n : ℕ) (commits : ∀ i, Option (Commit (C i))) :
    Scope ε V C T :=
  if (s.calls.cell c).context.isSome then
    s.goto c (.leaving (.error (waitError z "apply" (o k).name (s.calls.cell c).context)))
  else
    match (s.entries k).prepare (o k) view (s.entries k).snapshot with
    | .error err => s.goto c (.leaving (.error err))
    | .ok commit => s.goto c (.preparing (k + 1) n (Function.update commits k (some commit)))

def lockApply (c n : ℕ) (commits : ∀ i, Option (Commit (C i))) : Scope ε V C T :=
  if s.stopped then s.goto c (.leaving (.error (closedError z "apply" "")))
  else if (s.calls.cell c).context.isSome then
    s.goto c (.leaving (.error (waitError z "apply" "" (s.calls.cell c).context)))
  else if s.sequence = maxUint64 then
    s.goto c (.leaving (.error (fail .limit "apply" "" (details z) [])))
  else s.bump.goto c (.committing 0 n commits (increment s.sequence) [])

def commitEntry (c k n : ℕ) (commits : ∀ i, Option (Commit (C i))) (sequence : ℕ)
    (targets : List (ℕ × ℕ)) : Option (Scope ε V C T) :=
  (commits k).map (fun commit => (s.setEntry k ((s.entries k).commit (o k) commit).1).goto c
      (.committing (k + 1) n commits sequence
        (targets ++ [(k, ((s.entries k).commit (o k) commit).2)])))

def lockRetry (c i : ℕ) : Scope ε V C T :=
  if s.stopped then s.goto c (.leaving (.error (closedError z "retry" (o i).name)))
  else if (s.calls.cell c).context.isSome then
    s.goto c (.leaving (.error (waitError z "retry" (o i).name (s.calls.cell c).context)))
  else s.goto c .locked

def retryEntry (c i : ℕ) : Scope ε V C T :=
  match (s.entries i).retry (o i) s.sequence with
  | .error err => s.goto c (.leaving (.error err))
  | .ok (b, p) =>
    (s.setEntry i b).bump.goto c
      (.leaving (.ok ⟨increment s.sequence, z.name, [(i, p)]⟩))

/-- **The next step of a call.** -/
def advance (c : ℕ) : Option (Scope ε V C T) :=
  match s.phase c, (s.calls.cell c).request with
  | .entering, _ => some (s.enter z c)
  | .entered, _ =>
    if s.stopped then some ((s.setGate none).goto c (.returned (.error (closedError z "apply" ""))))
    else some (s.goto c .admitted)
  | .admitted, .apply none =>
    some (s.goto c (.leaving (.error (fail .selection "apply" "" (details z) []))))
  | .admitted, .apply (some _) =>
    some (s.setSealed.goto c (.preparing 0 s.count (fun _ => none)))
  | .admitted, .retry i => some (s.lockRetry z o c i)
  | .preparing k n commits, .apply (some view) =>
    if k < n then some (s.prepareEntry z o c view k n commits)
    else some (s.lockApply z c n commits)
  | .committing k n commits sequence targets, _ =>
    if k < n then s.commitEntry o c k n commits sequence targets
    else some (s.goto c (.leaving (.ok ⟨sequence, z.name, targets⟩)))
  | .locked, .retry i => some (s.retryEntry z o c i)
  | .leaving result, _ => some ((s.setGate none).goto c (.returned result))
  | _, _ => none

/-! ### Shutdown -/

def shut (parent : Bool) : Scope ε V C T :=
  { s with
    stopping := true
    shutdown := .stopping 0 s.count
      (if parent then Fault.joined [s.base.err, s.base.cause] else none) }

def stopNext : Option (Scope ε V C T) :=
  match s.shutdown with
  | .stopping k n cause =>
    if k < n then
      some ((s.setEntry k ((s.entries k).stop (o k) cause)).setShutdown (.stopping (k + 1) n cause))
    else some (s.setShutdown (.joining n))
  | _ => none

def join : Option (Scope ε V C T) :=
  match s.shutdown, s.gate with
  | .joining n, none => some (s.setShutdown (.waiting n))
  | _, _ => none

def finish : Option (Scope ε V C T) :=
  match s.shutdown with
  | .waiting n =>
    if (List.range n).all (fun i => (s.entries i).closed) then
      some (s.setShutdown .done)
    else none
  | _ => none

/-! ### Bindings -/

/-- The slots in use after an event. -/
def slots {C T : Type} (e : Event ε C T) : ℕ :=
  match e with
  | .slot _ => s.preparing + 1
  | .skip _ _ | .vacate _ => s.preparing - 1
  | _ => s.preparing

/-- Whether the scope lets an event of a binding happen: a slot has to be
free, and only `Close` retries cleanups. -/
def allows {C T : Type} (e : Event ε C T) : Bool :=
  match e with
  | .slot _ => (s.preparing : ℤ) < z.maxPreparing
  | .retryCleanup => s.stopping
  | _ => e.internal

variable [∀ i, Inhabited (T i)]

/-- A section of the `i`-th binding. -/
def stepEntry (i : ℕ) (e : Event ε (C i) (T i)) : Option (Scope ε V C T) :=
  if i < s.count ∧ s.allows z e = true then
    ((s.entries i).step (o i) (e.observe s.stopped s.base)).map (fun b =>
      (s.setEntry i b).setPreparing (s.slots e))
  else none

/-- **The step of a scope.** -/
def step : Label ε V C T → Option (Scope ε V C T)
  | .bind => if s.locked = false then some (s.after (s.bind z o)) else none
  | .watch => if s.locked = false then some s.watch else none
  | .call request ctx =>
    match request with
    | .apply _ => some (s.invoke request ctx)
    | .retry i => if i < s.count then some (s.invoke request ctx) else none
  | .cancel c cause => some (s.cancel c cause)
  | .cancelBase cause => some (s.cancelBase cause)
  | .grab c => s.grab c
  | .refuse c => s.refuse z c
  | .expire c => s.expire z c
  | .advance c => if c < s.calls.next then s.advance z o c else none
  | .shutdown parent =>
    if s.locked = false ∧ s.stopping = false ∧ (parent = true → s.base.isSome = true) then
      some (s.shut parent)
    else none
  | .stop => s.stopNext o
  | .join => s.join
  | .finish => s.finish
  | .entry i e => s.stepEntry z o i e

/-- **The scope as a machine**, started by `New`. -/
def machine [Inhabited V] [∀ i, Inhabited (C i)] : Machine (Scope ε V C T) (Label ε V C T) :=
  ⟨init, fun s l => s.step z o l⟩

/-! ## What a step can do -/

/-- **What a step of a scope can do**: its label, what has been checked, and
the scope it leaves. The steps of a call are listed by what they come to. -/
inductive Stepped : Label ε V C T → Scope ε V C T → Prop
  | bindRefused : Stepped .bind s
  | bind (hs : s.sealed = false) : Stepped .bind s.declare
  | watchRefused : Stepped .watch s
  | watch : Stepped .watch s.setSealed
  | call (request : Request V) (ctx : Option (Ctx ε)) :
      Stepped (.call request ctx) (s.invoke request ctx)
  | cancel (c : ℕ) (cause : Option (Err ε)) : Stepped (.cancel c cause) (s.cancel c cause)
  | cancelBase (cause : Option (Err ε)) : Stepped (.cancelBase cause) (s.cancelBase cause)
  | enter (c : ℕ) (p : Phase ε C) (hc : c < s.calls.next) (hp : s.phase c = .entering)
      (hw : p = .waiting ∨ ∃ err, p = .returned (.error err)) : Stepped (.advance c) (s.goto c p)
  | refuse (c : ℕ) (err : Err ε) (hp : s.phase c = .waiting) :
      Stepped (.refuse c) (s.goto c (.returned (.error err)))
  | expire (c : ℕ) (err : Err ε) (hp : s.phase c = .waiting) :
      Stepped (.expire c) (s.goto c (.returned (.error err)))
  | grab (c : ℕ) (hp : s.phase c = .waiting) (hg : s.gate = none) :
      Stepped (.grab c) ((s.setGate (some c)).goto c .entered)
  | turn (c : ℕ) (err : Err ε) (hp : s.phase c = .entered) :
      Stepped (.advance c) ((s.setGate none).goto c (.returned (.error err)))
  | pass (c : ℕ) (hp : s.phase c = .entered) : Stepped (.advance c) (s.goto c .admitted)
  | fail (c : ℕ) (err : Err ε) (hp : (s.phase c).holds = true) (hl : (s.phase c).locks = false)
      (ha : (s.phase c).accepted = false) :
      Stepped (.advance c) (s.goto c (.leaving (.error err)))
  | start (c : ℕ) (view : V) (hp : s.phase c = .admitted)
      (hr : (s.calls.cell c).request = .apply (some view)) :
      Stepped (.advance c) (s.setSealed.goto c (.preparing 0 s.count (fun _ => none)))
  | prepare (c k n : ℕ) (view : V) (commits : ∀ i, Option (Commit (C i)))
      (commit : Commit (C k)) (hp : s.phase c = .preparing k n commits) (hk : k < n)
      (hcm : (s.entries k).prepare (o k) view (s.entries k).snapshot = .ok commit) :
      Stepped (.advance c)
        (s.goto c (.preparing (k + 1) n (Function.update commits k (some commit))))
  | lock (c k n : ℕ) (commits : ∀ i, Option (Commit (C i)))
      (hp : s.phase c = .preparing k n commits) (hk : ¬ k < n) (hs : s.stopped = false)
      (hq : s.sequence ≠ maxUint64) :
      Stepped (.advance c)
        (s.bump.goto c (.committing 0 n commits (increment s.sequence) []))
  | commit (c k n sequence : ℕ) (commits : ∀ i, Option (Commit (C i)))
      (targets : List (ℕ × ℕ)) (commit : Commit (C k))
      (hp : s.phase c = .committing k n commits sequence targets) (hk : k < n)
      (hcm : commits k = some commit) :
      Stepped (.advance c) ((s.setEntry k ((s.entries k).commit (o k) commit).1).goto c
        (.committing (k + 1) n commits sequence
          (targets ++ [(k, ((s.entries k).commit (o k) commit).2)])))
  | committed (c k n sequence : ℕ) (commits : ∀ i, Option (Commit (C i)))
      (targets : List (ℕ × ℕ)) (hp : s.phase c = .committing k n commits sequence targets)
      (hk : ¬ k < n) :
      Stepped (.advance c) (s.goto c (.leaving (.ok ⟨sequence, z.name, targets⟩)))
  | lockRetry (c i : ℕ) (hp : s.phase c = .admitted)
      (hr : (s.calls.cell c).request = .retry i) (hs : s.stopped = false) :
      Stepped (.advance c) (s.goto c .locked)
  | retryFailed (c i : ℕ) (err : Err ε) (hp : s.phase c = .locked)
      (hr : (s.calls.cell c).request = .retry i)
      (hb : (s.entries i).retry (o i) s.sequence = .error err) :
      Stepped (.advance c) (s.goto c (.leaving (.error err)))
  | retry (c i p : ℕ) (b : Binding ε (C i) (T i)) (hp : s.phase c = .locked)
      (hr : (s.calls.cell c).request = .retry i)
      (hb : (s.entries i).retry (o i) s.sequence = .ok (b, p)) :
      Stepped (.advance c) ((s.setEntry i b).bump.goto c
        (.leaving (.ok ⟨increment s.sequence, z.name, [(i, p)]⟩)))
  | leave (c : ℕ) (result : Except (Err ε) Update) (hp : s.phase c = .leaving result) :
      Stepped (.advance c) ((s.setGate none).goto c (.returned result))
  | shut (parent : Bool) (hl : s.locked = false) (hs : s.stopping = false) :
      Stepped (.shutdown parent) (s.shut parent)
  | stop (k n : ℕ) (cause : Option (Err ε)) (hd : s.shutdown = .stopping k n cause)
      (hk : k < n) :
      Stepped .stop ((s.setEntry k ((s.entries k).stop (o k) cause)).setShutdown
        (.stopping (k + 1) n cause))
  | stopped (k n : ℕ) (cause : Option (Err ε)) (hd : s.shutdown = .stopping k n cause)
      (hk : ¬ k < n) : Stepped .stop (s.setShutdown (.joining n))
  | join (n : ℕ) (hd : s.shutdown = .joining n) (hg : s.gate = none) :
      Stepped .join (s.setShutdown (.waiting n))
  | finish (n : ℕ) (hd : s.shutdown = .waiting n)
      (hc : (List.range n).all (fun i => (s.entries i).closed) = true) :
      Stepped .finish (s.setShutdown .done)
  | entry (i : ℕ) (e : Event ε (C i) (T i)) (b : Binding ε (C i) (T i)) (hi : i < s.count)
      (ha : s.allows z e = true)
      (hb : (s.entries i).step (o i) (e.observe s.stopped s.base) = some b) :
      Stepped (.entry i e) ((s.setEntry i b).setPreparing (s.slots e))

variable {z o s} {s' : Scope ε V C T}

theorem advanced {c : ℕ} (hc : c < s.calls.next) (h : s.advance z o c = some s') :
    Stepped z o s (.advance c) s' := by
  have hfail {err : Err ε} (hh : (s.phase c).holds = true) (hl : (s.phase c).locks = false)
      (ha : (s.phase c).accepted = false) :
      Stepped z o s (.advance c) (s.goto c (.leaving (.error err))) := .fail c err hh hl ha
  revert h
  fun_cases advance
  all_goals intro h
  any_goals cases h
  · next hp =>
    unfold enter
    split
    · exact .enter c _ hc hp (.inr ⟨_, rfl⟩)
    split_ifs
    iterate 2 exact .enter c _ hc hp (.inr ⟨_, rfl⟩)
    · exact .enter c _ hc hp (.inl rfl)
  · next hp _ => exact .turn c _ hp
  · next hp _ => exact .pass c hp
  · next hp =>
    rw [hp] at hfail
    exact hfail rfl rfl rfl
  · next view hr hp => exact .start c view hp hr
  · next i hr hp =>
    rw [hp] at hfail
    unfold lockRetry
    split_ifs with hs
    iterate 2 exact hfail rfl rfl rfl
    · exact .lockRetry c i hp hr (eq_false_of_ne_true hs)
  · next k n commits view hr hp hk =>
    rw [hp] at hfail
    unfold prepareEntry
    split_ifs
    · exact hfail rfl rfl rfl
    split
    · exact hfail rfl rfl rfl
    · next commit hcm => exact .prepare c k n view commits commit hp hk hcm
  · next k n commits view hr hp hk =>
    rw [hp] at hfail
    unfold lockApply
    split_ifs with hs _ hq
    iterate 3 exact hfail rfl rfl rfl
    · exact .lock c k n commits hp hk (eq_false_of_ne_true hs) hq
  · next k n commits sequence targets hp hk =>
    obtain ⟨commit, hcm, rfl⟩ := Option.map_eq_some_iff.mp h
    exact .commit c k n sequence commits targets commit hp hk hcm
  · next k n commits sequence targets hp hk =>
    exact .committed c k n sequence commits targets hp hk
  · next i hr hp =>
    unfold retryEntry
    split
    · next err hb => exact .retryFailed c i err hp hr hb
    · next b t hb => exact .retry c i t b hp hr hb
  · next result hp => exact .leave c result hp

theorem stepped {l : Label ε V C T} (h : s.step z o l = some s') : Stepped z o s l s' := by
  unfold step grab refuse expire stopNext join finish stepEntry at h
  repeat' split at h
  any_goals cases h
  · unfold after bind
    split_ifs with _ hs
    iterate 4 exact .bindRefused
    · exact .bind (eq_false_of_ne_true hs)
  · unfold watch
    split_ifs
    · exact .watchRefused
    · exact .watch
  iterate 2 exact .call _ _
  · exact .cancel _ _
  · exact .cancelBase _
  · next hp hg => exact .grab _ hp hg
  · next hp _ => exact .refuse _ _ hp
  · next hp _ => exact .expire _ _ hp
  · next hc => exact advanced hc h
  · next hl => exact .shut _ hl.1 hl.2.1
  · next k n cause hd hk => exact .stop k n cause hd hk
  · next k n cause hd hk => exact .stopped k n cause hd hk
  · next n hd hg => exact .join n hd hg
  · next n hd hc => exact .finish n hd hc
  · next hi =>
    obtain ⟨b, hb, rfl⟩ := Option.map_eq_some_iff.mp h
    exact .entry _ _ b hi.1 hi.2 hb

end Scope

end Resource
