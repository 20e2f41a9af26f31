import Fathomry.PgxTransaction

/-!
# What a step leaves of a transaction

Every call that is accepted in a transaction is in exactly one place: it is
the transaction's own, it belongs to a savepoint or to a prepared statement
that is still open, or it is in the hands of whoever holds the mutex. A step
moves calls from one place to another, and completes those that it drops.
The connection is followed in the same way.
-/

namespace Pgx

open Invocation (Books)

variable {ε : Type}

attribute [local simp] List.filterMap_cons

/-! ## Actions -/

namespace Action

@[simp] def completion : Action ε → Option (ℕ × Outcome ε)
  | .completed call outcome => some (call, outcome)
  | _ => none

@[simp] def admission : Action ε → Option ℕ
  | .began call => some call
  | _ => none

@[simp] def gift : Action ε → Option Unit
  | .gave => some ()
  | _ => none

@[simp] def loan : Action ε → Option Unit
  | .took => some ()
  | _ => none

@[simp] def command : Action ε → Option Command
  | .sent command => some command
  | _ => none

end Action

namespace Turn

variable (t : Turn ε)

def completions : List (ℕ × Outcome ε) := t.actions.filterMap Action.completion

def admissions : List ℕ := t.actions.filterMap Action.admission

def gifts : List Unit := t.actions.filterMap Action.gift

def loans : List Unit := t.actions.filterMap Action.loan

def commands : List Command := t.actions.filterMap Action.command

attribute [simp] completions admissions gifts loans commands

end Turn

/-! ## Places -/

def Stage.call : Stage ε → List ℕ
  | .querying call | .unnamed call | .preparing call _ | .deallocating call _
  | .retiring call _ _ | .establishing call _ => [call]
  | _ => []

namespace State

variable (s : State ε)

def root : Multiset ℕ :=
  match s.stage with
  | .past => 0
  | .free => if s.closed then 0 else {0}
  | _ => {0}

def waiting : Multiset ℕ :=
  s.root + ((s.savepoints.map s.pointCall : List ℕ) + (s.stage.call : Multiset ℕ))

def statementCall (st : ℕ) : ℕ := (s.preparations.cell st).call

def pending : Multiset ℕ := (s.statements.map s.statementCall : List ℕ)

def held : Multiset Unit :=
  match s.stage with
  | .taking | .returning _ | .past | .giving _ _ _ => 0
  | .free => if s.closed then 0 else {()}
  | _ => {()}

/-- **What the stage of the holder says about the rest.** -/
def Fit : Prop :=
  match s.stage with
  | .taking | .beginning | .returning _ | .past =>
    s.closed = false ∧ s.savepoints = [] ∧ s.statements = []
  | .free => True
  | .giving _ _ _ => s.closed = true
  | .rollingBackTo p | .releasing p _ => s.closed = false ∧ s.savepoints.getLast? = some p
  | .closing st next | .shutting st _ next =>
    s.closed = false ∧ st ∈ s.statements ∧ ∀ f ∈ next, f.commit = true → s.ended = false
  | .draining f => s.closed = false ∧ (f.commit = true → s.ended = false)
  | .finalizing f => s.closed = false ∧ s.statements = []
      ∧ (f.commit = true → s.ended = false ∧ s.rollbackOnly = false)
  | _ => s.closed = false

/-- **The invariant.** -/
structure Inv : Prop where
  sorted : s.savepoints.Pairwise (· < ·)
  point : ∀ p, p ∈ s.savepoints ↔ p < s.points.next ∧ (s.points.cell p).closed = false
  distinct : s.statements.Nodup
  statement : ∀ st, st ∈ s.statements
    ↔ st < s.preparations.next ∧ (s.preparations.cell st).closed = false
  empty : s.closed = true → s.savepoints = [] ∧ s.statements = []
  pointCall : ∀ p < s.points.next, s.pointCall p < s.calls.next
  statementCall : ∀ st < s.preparations.next, s.statementCall st < s.calls.next
  fit : s.Fit
  books : Books s.calls s.waiting s.pending

/-- **What a step does.** -/
structure Moved (s : State ε) (t : Turn ε) : Prop where
  inv : t.state.Inv
  calls : (t.completions.map Prod.fst : Multiset ℕ) + (t.state.waiting + t.state.pending)
    = s.waiting + s.pending + (t.admissions : Multiset ℕ)
  next : t.admissions = [] ∧ t.state.calls.next = s.calls.next
    ∨ t.admissions = [s.calls.next] ∧ t.state.calls.next = s.calls.next + 1
  handle : (t.gifts : Multiset Unit) + t.state.held = s.held + (t.loans : Multiset Unit)
  spoiled : s.rollbackOnly = true → t.state.rollbackOnly = true
  final : s.closed = true → t.state.closed = true
  commits : .commit ∈ t.commands → t.commands = [.commit] ∧ s.ended = false ∧ s.rollbackOnly = false
    ∧ s.closed = false ∧ ∃ f, s.stage = .draining f ∧ t.state.stage = .finalizing f
      ∧ f.commit = true
  /-- A savepoint is closed after all that were made later. -/
  lifo : ∀ p, (s.points.cell p).closed = false → (t.state.points.cell p).closed = true →
    ∀ q, p < q → q < t.state.points.next → (t.state.points.cell q).closed = true

variable {s : State ε} {t : Turn ε}

/-! ## Steps that open and close nothing -/

/-- Savepoints, prepared statements and the transaction itself are as they
were. -/
structure Same (s s' : State ε) : Prop where
  points : s'.points = s.points
  preparations : s'.preparations = s.preparations
  savepoints : s'.savepoints = s.savepoints
  statements : s'.statements = s.statements
  closed : s'.closed = s.closed

variable {s' : State ε}

theorem Same.pointCall (h : Same s s') : s'.pointCall = s.pointCall := by
  funext p
  unfold State.pointCall
  rw [h.points]

theorem Same.pending (h : Same s s') : s'.pending = s.pending := by
  unfold State.pending statementCall
  rw [h.preparations, h.statements]

theorem Same.waiting (h : Same s s') : s'.waiting
    = (s.savepoints.map s.pointCall : List ℕ) + (s'.root + (s'.stage.call : Multiset ℕ)) := by
  unfold State.waiting
  rw [h.savepoints, h.pointCall, add_left_comm]

theorem Same.waiting_eq (h : Same s s') (hroot : s'.root = s.root)
    (hcall : s'.stage.call = s.stage.call) : s'.waiting = s.waiting := by
  rw [h.waiting, hroot, hcall, State.waiting, add_left_comm]

theorem Inv.same (h : s.Inv) (hs : Same s s') (hfit : s'.Fit) (hle : s.calls.next ≤ s'.calls.next)
    (hbooks : Books s'.calls s'.waiting s.pending) : s'.Inv where
  sorted := hs.savepoints ▸ h.sorted
  point p := by rw [hs.savepoints, hs.points]; exact h.point p
  distinct := hs.statements ▸ h.distinct
  statement st := by rw [hs.statements, hs.preparations]; exact h.statement st
  empty hc := by
    rw [hs.savepoints, hs.statements]
    exact h.empty (hs.closed ▸ hc)
  pointCall p hp := by
    rw [hs.pointCall]
    exact (h.pointCall p (hs.points ▸ hp)).trans_le hle
  statementCall st hst := by
    unfold State.statementCall
    rw [hs.preparations] at hst ⊢
    exact (h.statementCall st hst).trans_le hle
  fit := hfit
  books := hs.pending ▸ hbooks

/-- What has to be known of a commit. -/
def Commits (s : State ε) (t : Turn ε) : Prop :=
  .commit ∈ t.commands → t.commands = [.commit] ∧ s.ended = false ∧ s.rollbackOnly = false
    ∧ s.closed = false ∧ ∃ f, s.stage = .draining f ∧ t.state.stage = .finalizing f
      ∧ f.commit = true

theorem Moved.same (h : s.Inv) (hs : Same s t.state) (hfit : t.state.Fit)
    (hbooks : Books t.state.calls t.state.waiting s.pending)
    (hcalls : (t.completions.map Prod.fst : Multiset ℕ) + t.state.waiting
      = s.waiting + (t.admissions : Multiset ℕ))
    (hnext : t.admissions = [] ∧ t.state.calls.next = s.calls.next
      ∨ t.admissions = [s.calls.next] ∧ t.state.calls.next = s.calls.next + 1)
    (hheld : (t.gifts : Multiset Unit) + t.state.held = s.held + (t.loans : Multiset Unit))
    (hspoiled : s.rollbackOnly = true → t.state.rollbackOnly = true)
    (hcommit : Commits s t) : Moved s t where
  inv := by
    refine h.same hs hfit ?_ hbooks
    obtain ⟨-, hnext⟩ | ⟨-, hnext⟩ := hnext
    · exact hnext.ge
    · exact hnext ▸ Nat.le_succ _
  calls := by rw [hs.pending, ← add_assoc, hcalls, add_right_comm]
  next := hnext
  handle := hheld
  spoiled := hspoiled
  final hc := hs.closed ▸ hc
  commits := hcommit
  lifo p hp hq := by
    rw [hs.points, hp] at hq
    exact nomatch hq

/-- **A step that only moves the holder on.** -/
theorem Moved.goto {stage : Stage ε} {actions : List (Action ε)} (h : s.Inv)
    (hfit : Fit { s with stage := stage }) (hroot : root { s with stage := stage } = s.root)
    (hcall : stage.call = s.stage.call) (hc : actions.filterMap Action.completion = [])
    (ha : actions.filterMap Action.admission = [])
    (hheld : (actions.filterMap Action.gift : Multiset Unit) + held { s with stage := stage }
      = s.held + (actions.filterMap Action.loan : Multiset Unit))
    (hcommit : Commits s ⟨{ s with stage := stage }, actions⟩) :
    Moved s ⟨{ s with stage := stage }, actions⟩ := by
  have hsame : Same s { s with stage := stage } := ⟨rfl, rfl, rfl, rfl, rfl⟩
  have hw := hsame.waiting_eq hroot hcall
  refine .same h hsame hfit (hw ▸ h.books) ?_ (.inl ⟨ha, rfl⟩) hheld id hcommit
  simp [hc, ha, hw]

theorem Moved.refl (h : s.Inv) : Moved s (Turn.of s) :=
  .goto h h.fit rfl rfl rfl rfl (by simp) (by simp [Commits])

variable {name : String}

/-- **A call is accepted** and is in the hands of the holder. -/
theorem Moved.begin (h : s.Inv) (hs : Same s t.state) (hfit : t.state.Fit)
    (hcalls : t.state.calls = s.calls.alloc (.new name))
    (hplace : t.state.root + (t.state.stage.call : Multiset ℕ)
      = s.root + (s.stage.call : Multiset ℕ) + {s.calls.next})
    (hc : t.completions = []) (ha : t.admissions = [s.calls.next]) (hg : t.gifts = [])
    (hl : t.loans = []) (hheld : t.state.held = s.held)
    (hspoiled : s.rollbackOnly = true → t.state.rollbackOnly = true)
    (hcommit : .commit ∉ t.commands) : Moved s t := by
  have hw : t.state.waiting = s.waiting + {s.calls.next} := by
    rw [hs.waiting, hplace, ← add_assoc, waiting, add_left_comm]
  refine .same h hs hfit ?_ ?_ (.inr ⟨ha, by rw [hcalls, Heap.next_alloc]⟩) ?_ hspoiled
    (fun hc => absurd hc hcommit)
  · rw [hcalls, hw]
    exact h.books.begin name
  · rw [hc, ha, hw]
    exact zero_add _
  · rw [hg, hl, hheld, add_comm]

variable {call : ℕ}

theorem Moved.complete {outcome : Outcome ε} (h : s.Inv) (hs : Same s t.state) (hfit : t.state.Fit)
    (hcalls : t.state.calls = s.calls.modify call (·.complete outcome))
    (hplace : s.root + (s.stage.call : Multiset ℕ)
      = t.state.root + (t.state.stage.call : Multiset ℕ) + {call})
    (hc : t.completions = [(call, outcome)]) (ha : t.admissions = []) (hg : t.gifts = [])
    (hl : t.loans = []) (hheld : t.state.held = s.held)
    (hspoiled : s.rollbackOnly = true → t.state.rollbackOnly = true)
    (hcommit : .commit ∉ t.commands) : Moved s t := by
  have hw : s.waiting = t.state.waiting + {call} := by
    rw [hs.waiting, add_assoc, ← hplace, waiting, add_left_comm]
  refine .same h hs hfit ?_ ?_ (.inl ⟨ha, by rw [hcalls, Heap.next_modify]⟩) ?_ hspoiled
    (fun hc => absurd hc hcommit)
  · rw [hcalls]
    exact (hw ▸ h.books).complete outcome
  · rw [hc, ha, hw, add_comm]
    exact (add_zero _).symm
  · rw [hg, hl, hheld, add_comm]

theorem Moved.refuse (h : s.Inv) (outcome : Outcome ε) :
    Moved s (((Turn.of s).begin name).complete s.calls.next outcome) := by
  refine .same h ⟨rfl, rfl, rfl, rfl, rfl⟩ h.fit ?_ ?_ (.inr ⟨?_, ?_⟩) ?_ id ?_
  · exact (h.books.begin name).complete outcome
  · exact add_comm _ _
  · rfl
  · rfl
  · exact add_comm _ _
  · simp [Commits, Turn.commands]

variable {seen : Seen}

theorem Moved.answered {command : String} (h : s.Inv) (hopen : s.closed = false)
    (hroot : s.root = {0}) (hcall : s.stage.call = [call]) (hheld : s.held = {()})
    (outcome : Outcome ε) :
    Moved s ((((Turn.of s).observe command seen).complete call outcome).goto .free) := by
  refine .complete h ⟨rfl, rfl, rfl, rfl, rfl⟩ trivial rfl ?_ ?_ ?_ ?_ ?_ ?_ ?_ ?_
  · rw [hroot, hcall]
    simp [root, Stage.call, hopen]
  iterate 4 simp
  · rw [hheld]
    simp [held, hopen]
  · intro hr
    simp [hr]
  · simp

/-! ## Operations -/

/-- What the checks of an operation have shown. -/
def Admits (s : State ε) : Op → Prop
  | .query _ _ | .prepare _ | .savepoint | .execute _ _ =>
    s.closed = false ∧ s.ended = false ∧ s.rollbackOnly = false
  | .close st => (s.preparations.cell st).closed = false
  | .settle p _ => s.closed = false ∧ s.ended = false ∧ s.rollbackOnly = false
      ∧ s.savepoints.getLast? = some p
  | .finish commit => s.closed = false
      ∧ (commit = true → s.ended = false ∧ s.rollbackOnly = false)

variable {op : Op}

theorem admits_of_early (h : s.early op = none) : s.stage = .free ∧ s.Admits op := by
  unfold early at h
  split at h
  · cases h
  · next hfree =>
    have hstage : s.stage = .free := by
      cases hst : s.stage with
      | free => rfl
      | _ => simp [Stage.unlocked, hst] at hfree
    refine ⟨hstage, ?_⟩
    cases op with
    | query => simpa [Admits, lock, usable, Option.or_eq_none_iff] using h
    | prepare | savepoint =>
      simp only [lock, usable, Option.or_eq_none_iff] at h
      simpa [Admits] using h.1
    | execute =>
      simp [revoked] at h
      simpa [Admits, and_assoc] using h.2
    | close => simpa [Admits] using h
    | settle p =>
      dsimp only at h
      split_ifs at h with hclosed hlive hlast
      simp only [revoked, Bool.or_eq_true, not_or, Bool.not_eq_true, and_assoc] at hlive
      exact ⟨hlive.1, hlive.2.1, hlive.2.2, not_not.mp hlast⟩
    | finish =>
      simp [lock, usable, Option.or_eq_none_iff] at h
      simpa [Admits] using h

theorem moved_enter (h : s.Inv) (hst : s.stage = .free) (ha : s.Admits op)
    (ht : s.enter op = some t) : Moved s t := by
  obtain ⟨_, _, _, _, closed, _, _, _, _, stage⟩ := s
  obtain rfl : stage = .free := hst
  have hopen : closed = false := by
    cases op with
    | close st =>
      obtain ⟨hlt, -⟩ := Option.ite_none_right_eq_some.mp ht
      by_contra hc
      have hmem := (h.statement st).mpr ⟨hlt, ha⟩
      rw [(h.empty (by simpa using hc)).2] at hmem
      cases hmem
    | _ => exact ha.1
  subst hopen
  unfold enter at ht
  repeat' split at ht
  all_goals cases ht
  all_goals try
    exact .begin h ⟨rfl, rfl, rfl, rfl, rfl⟩ rfl rfl rfl rfl rfl rfl rfl rfl id (by simp)
  · exact .refuse h _
  · next st hlt =>
    exact .goto h ⟨rfl, (h.statement st).mpr ⟨hlt, ha⟩, nofun⟩ rfl rfl rfl rfl rfl
      (by simp [Commits])
  iterate 2 exact .goto h ⟨rfl, ha.2.2.2⟩ rfl rfl rfl rfl rfl (by simp [Commits])
  · exact .goto h ⟨rfl, fun hc => (ha.2 hc).1⟩ rfl rfl rfl rfl rfl (by simp [Commits])

theorem moved_start {setup : Setup ε} (h : s.Inv) (he : s.early op = none)
    (ht : s.start op setup = some t) : Moved s t := by
  obtain ⟨hst, ha⟩ := admits_of_early he
  cases setup with
  | refused =>
    cases ht
    exact .refl h
  | ended =>
    obtain ⟨name, -, rfl⟩ := Option.map_eq_some_iff.mp ht
    exact .refuse h _
  | ready => exact moved_enter h hst ha ht

theorem mem_concat {α : Type} {x : Heap α} {a : α} {l : List ℕ} {P : α → Prop}
    (hl : ∀ p, p ∈ l ↔ p < x.next ∧ P (x.cell p)) (ha : P a) (p : ℕ) :
    p ∈ l ++ [x.next] ↔ p < (x.alloc a).next ∧ P ((x.alloc a).cell p) := by
  rw [List.mem_append, hl, List.mem_singleton, Heap.next_alloc, x.alloc_iff, and_iff_left ha]

theorem mem_removed {α : Type} {x : Heap α} {f : α → α} {l l' : List ℕ} {P : α → Prop} {p : ℕ}
    (hl : ∀ q, q ∈ l ↔ q < x.next ∧ P (x.cell q)) (hl' : ∀ q, q ∈ l' ↔ q ∈ l ∧ q ≠ p)
    (hf : ¬ P (f (x.cell p))) (q : ℕ) : q ∈ l' ↔ q < x.next ∧ P ((x.modify p f).cell q) := by
  rw [hl', hl]
  by_cases hq : q = p
  · subst hq
    simp [hf]
  · simp [x.cell_modify_of_ne f hq, hq]

/-! ## Savepoints -/

/-- A savepoint is established: its call is now its own. -/
theorem moved_establish (h : s.Inv) (hst : s.stage = .establishing call name) :
    Moved s ((Turn.of s).change (fun s => s.establish call name)) := by
  have hopen : s.closed = false := by simpa [Fit, hst] using h.fit
  have hold : ∀ p ∈ s.savepoints,
      (s.points.alloc ⟨name, call, false⟩).cell p = s.points.cell p := fun p hp =>
    s.points.cell_alloc_of_lt _ ((h.point p).mp hp).1
  have hmap : s.savepoints.map (s.establish call name).pointCall = s.savepoints.map s.pointCall :=
    List.map_congr_left (fun p hp => congrArg Point.call (hold p hp))
  have hw : (s.establish call name).waiting = s.waiting := by
    show root (s.establish call name) + (((s.savepoints ++ [s.points.next]).map
      (s.establish call name).pointCall : List ℕ) + ((Stage.free : Stage ε).call : Multiset ℕ)) = _
    rw [List.map_append, hmap]
    simp [waiting, root, establish, pointCall, Stage.call, hst, hopen]
    rfl
  have hlt : call < s.calls.next := h.books.lt call (by simp [waiting, Stage.call, hst])
  refine ⟨⟨?_, fun p => ?_, h.distinct, h.statement, ?_, fun p hp => ?_, h.statementCall, trivial,
    ?_⟩,
    ?_, .inl ⟨rfl, rfl⟩, ?_, id, id, ?_, fun p hp hq => ?_⟩
  · refine List.pairwise_append.mpr ⟨h.sorted, List.pairwise_singleton _ _, fun p hp q hq => ?_⟩
    rw [List.mem_singleton.mp hq]
    exact ((h.point p).mp hp).1
  · exact mem_concat (P := fun x : Point => x.closed = false) h.point rfl p
  · intro hc
    simp [establish, hopen] at hc
  · exact s.points.forall_alloc (Q := fun _ x => x.call < s.calls.next) h.pointCall hlt p hp
  · exact hw ▸ h.books
  · show 0 + ((s.establish call name).waiting + s.pending) = s.waiting + s.pending + 0
    rw [hw, zero_add, add_zero]
  · simp [held, establish, hst, hopen]
  · simp
  · by_cases hn : p = s.points.next
    · subst hn
      simp [establish] at hq
    · simp [establish, s.points.cell_alloc_of_ne _ hn, hp] at hq

variable {cleanup : Option (Err ε)}

/-- **The last savepoint is closed**, and its call completed. -/
theorem moved_settled {p : ℕ} {complete : Bool} {outcome : SavepointOutcome}
    {primary : Option (Err ε)} (h : s.Inv) (hopen : s.closed = false)
    (hlast : s.savepoints.getLast? = some p) (hroot : s.root = {0}) (hcall : s.stage.call = [])
    (hheld : s.held = {()}) : Moved s (s.settled p complete outcome primary cleanup seen) := by
  have hsplit : s.savepoints.dropLast ++ [p] = s.savepoints := List.dropLast_append_getLast? p hlast
  have hsorted := h.sorted
  rw [← hsplit, List.pairwise_append] at hsorted
  have hbelow : ∀ q ∈ s.savepoints.dropLast, q < p := fun q hq =>
    hsorted.2.2 q hq p (List.mem_singleton_self p)
  have hmem : ∀ q, q ∈ s.savepoints.dropLast ↔ q ∈ s.savepoints ∧ q ≠ p := by
    intro q
    rw [← hsplit, List.mem_append, List.mem_singleton, List.dropLast_concat]
    constructor
    · exact fun hq => ⟨.inl hq, (hbelow q hq).ne⟩
    · rintro ⟨hq | hq, hne⟩
      · exact hq
      · exact absurd hq hne
  have hcell : ∀ q, q ≠ p → (s.points.modify p Point.shut).cell q = s.points.cell q := fun q hq =>
    s.points.cell_modify_of_ne _ hq
  have hcalls : ∀ q, ((s.points.modify p Point.shut).cell q).call = (s.points.cell q).call :=
    fun q => s.points.cell_modify_proj p q (fun _ => rfl)
  have hw : s.waiting
      = {0} + (s.savepoints.dropLast.map s.pointCall : List ℕ) + {(s.points.cell p).call} := by
    unfold waiting
    rw [hroot, hcall]
    nth_rewrite 1 [← hsplit]
    rw [List.map_append, add_assoc, ← Multiset.coe_add, add_assoc]
    rfl
  have hw' : waiting (s.settled p complete outcome primary cleanup seen).state
      = {0} + (s.savepoints.dropLast.map s.pointCall : List ℕ) := by
    have hcall' : pointCall (s.settled p complete outcome primary cleanup seen).state
        = s.pointCall :=
      funext hcalls
    unfold waiting
    rw [hcall']
    simp [settled, root, popped, hopen, Stage.call]
  refine ⟨⟨hsorted.1, fun q => ?_, h.distinct, h.statement, fun hc => (nomatch hopen.symm.trans hc),
    fun q hq => ?_, h.statementCall, trivial, ?_⟩, ?_, .inl ⟨?_, ?_⟩, ?_, fun hr => ?_, id, ?_,
    fun q hq hq' r hr hlt => ?_⟩
  · exact mem_removed (P := fun x : Point => x.closed = false) h.point hmem Bool.noConfusion q
  · exact (hcalls q).trans_lt (h.pointCall q hq)
  · rw [hw']
    exact (hw ▸ h.books).complete _
  · obtain ⟨hc, ha⟩ : (s.settled p complete outcome primary cleanup seen).completions.map Prod.fst
        = [(s.points.cell p).call]
        ∧ (s.settled p complete outcome primary cleanup seen).admissions = [] := by
      simp [settled]
    rw [hw', hw, hc, ha]
    show {(s.points.cell p).call} + (_ + s.pending) = _ + s.pending + 0
    abel
  · simp [settled]
  · simp [settled, popped]
  · have hheld' : held (s.settled p complete outcome primary cleanup seen).state = {()} := by
      simp [settled, held, popped, hopen]
    rw [hheld', hheld]
    simp [settled]
  · simp [settled, popped, hr]
  · simp [settled]
  · -- Only the last one is closed by this, and what is above it was closed before.
    have hqp : q = p := by
      by_contra hne
      rw [← hcell q hne] at hq
      exact nomatch hq.symm.trans hq'
    subst hqp
    show ((s.points.modify q Point.shut).cell r).closed = true
    rw [hcell r hr.ne']
    by_contra hclosed
    have hr' : r ∈ s.savepoints := (h.point r).mpr ⟨hlt, by simpa using hclosed⟩
    exact absurd (hbelow r ((hmem r).mpr ⟨hr', hr.ne'⟩)) hr.asymm

theorem moved_consume {command : String} {primary : Option (Err ε)} (h : s.Inv)
    (ht : s.consume command primary cleanup seen = some t) : Moved s t := by
  obtain ⟨_, _, _, _, _, _, _, _, _, stage⟩ := s
  have hfit := h.fit
  unfold consume at ht
  dsimp only at ht
  repeat' split at ht
  all_goals cases ht
  iterate 2 exact .answered h hfit rfl rfl rfl _
  · exact moved_establish h rfl
  · exact moved_settled h hfit.1 hfit.2 rfl rfl rfl
  · exact .goto h hfit rfl rfl rfl rfl rfl (by simp [Commits])
  all_goals exact moved_settled h hfit.1 hfit.2 rfl rfl rfl

/-! ## Prepared statements -/

theorem moved_unwanted {name' : String} {primary : Err ε} (h : s.Inv)
    (hst : s.stage = .preparing call name') :
    Moved s ((((Turn.of s).observe "" seen).send (.deallocate name)).goto
      (.deallocating call primary)) := by
  have hopen : s.closed = false := by simpa [Fit, hst] using h.fit
  have hsame : Same s ((((Turn.of s).observe "" seen).send (.deallocate name)).goto
      (.deallocating call primary)).state := ⟨rfl, rfl, rfl, rfl, rfl⟩
  have hw := hsame.waiting_eq (by simp [root, hst]) (by simp [Stage.call, hst])
  refine .same h hsame hopen (hw ▸ h.books) ?_ (.inl ⟨?_, rfl⟩) ?_ (fun hr => ?_) ?_
  · rw [hw]
    simp
  · simp
  · simp [held, hst]
  · simp [hr]
  · simp [Commits]

/-- A statement is prepared: its call is resolved and stays open. -/
theorem moved_prepare (h : s.Inv) (hst : s.stage = .preparing call name) :
    Moved s (((Turn.of s).observe "" seen).change (fun s => s.prepare call name)) := by
  have hopen : s.closed = false := by simpa [Fit, hst] using h.fit
  have hold : ∀ st ∈ s.statements,
      (s.preparations.alloc ⟨name, call, false⟩).cell st = s.preparations.cell st := fun st hm =>
    s.preparations.cell_alloc_of_lt _ ((h.statement st).mp hm).1
  have hpending :
      pending (((Turn.of s).observe "" seen).change (fun s => s.prepare call name)).state
      = s.pending + {call} := by
    show ((s.statements ++ [s.preparations.next]).map (fun st =>
      ((s.preparations.alloc ⟨name, call, false⟩).cell st).call) : Multiset ℕ) = _
    rw [List.map_append, List.map_congr_left (fun st hm => congrArg Preparation.call (hold st hm)),
      List.map_singleton, Heap.cell_alloc_self]
    rfl
  have hw : s.waiting
      = waiting (((Turn.of s).observe "" seen).change (fun s => s.prepare call name)).state
        + {call} := by
    show s.root + ((s.savepoints.map s.pointCall : List ℕ) + (s.stage.call : Multiset ℕ))
      = root _ + ((s.savepoints.map s.pointCall : List ℕ)
        + ((Stage.free : Stage ε).call : Multiset ℕ))
        + {call}
    simp [root, Stage.call, prepare, hst, hopen]
    rfl
  have hlt : call < s.calls.next := h.books.lt call (by simp [waiting, Stage.call, hst])
  refine ⟨⟨h.sorted, h.point, ?_, fun st => ?_, fun hc => (nomatch hopen.symm.trans hc),
    h.pointCall,
    fun st hs => ?_, trivial, ?_⟩, ?_, .inl ⟨?_, rfl⟩, ?_, fun hr => ?_, id, ?_,
    fun p hp hq => nomatch hp.symm.trans hq⟩
  · refine List.nodup_append.mpr ⟨h.distinct, List.nodup_singleton _, fun st hm st' hm' => ?_⟩
    rw [List.mem_singleton.mp hm']
    exact ((h.statement st).mp hm).1.ne
  · exact mem_concat (P := fun x : Preparation => x.closed = false) h.statement rfl st
  · exact s.preparations.forall_alloc (Q := fun _ x => x.call < s.calls.next) h.statementCall hlt
      st hs
  · rw [hpending]
    exact (hw ▸ h.books).resolve _
  · rw [hpending, hw]
    simp
    abel
  · simp
  · simp [held, prepare, hst, hopen]
  · simp [prepare, hr]
  · simp

variable {m : ℕ}

theorem moved_prepared {answer : Prepared ε} (h : s.Inv) (ht : s.prepared m answer seen = some t) :
    Moved s t := by
  have hfit := h.fit
  unfold prepared at ht
  dsimp only at ht
  repeat' split at ht
  all_goals cases ht
  all_goals
    have hst := ‹s.stage = _›
    simp only [Fit, hst] at hfit
  · exact moved_unwanted h hst
  · exact .answered h hfit (by simp [root, hst]) (by simp [Stage.call, hst]) (by simp [held, hst]) _
  · exact moved_unwanted h hst
  · exact .answered h hfit (by simp [root, hst]) (by simp [Stage.call, hst]) (by simp [held, hst]) _
  · exact moved_prepare h hst

/-- **A prepared statement is closed**, and its call released. -/
theorem moved_shutAll {st : ℕ} {next : Option (Finish ε)} (h : s.Inv) (hopen : s.closed = false)
    (hmem : st ∈ s.statements) (hnext : ∀ f ∈ next, f.commit = true → s.ended = false)
    (hroot : s.root = {0}) (hcall : s.stage.call = []) (hheld : s.held = {()}) :
    Moved s (s.shutAll st cleanup next) := by
  have hcalls : ∀ st', ((s.preparations.modify st Preparation.shut).cell st').call
      = (s.preparations.cell st').call := fun st' =>
    s.preparations.cell_modify_proj st st' (fun _ => rfl)
  have hpending : s.pending = pending (s.shutAll st cleanup next).state
      + {(s.preparations.cell st).call} := by
    have hcall' : statementCall (s.shutAll st cleanup next).state = s.statementCall := funext hcalls
    unfold pending
    rw [hcall', add_comm]
    exact Multiset.coe_eq_coe.mpr ((List.perm_cons_erase hmem).map s.statementCall)
  have hw : waiting (s.shutAll st cleanup next).state = s.waiting := by
    show root (s.shutAll st cleanup next).state + ((s.savepoints.map s.pointCall : List ℕ)
      + ((s.shutAll st cleanup next).state.stage.call : Multiset ℕ)) = _
    unfold waiting
    rw [hroot, hcall]
    cases next with
    | none => simp [shutAll, shut, root, hopen, Stage.call]
    | some => simp [shutAll, shut, root, Stage.call]
  have hheld' : held (s.shutAll st cleanup next).state = {()} := by
    cases next with
    | none => simp [shutAll, shut, held, hopen]
    | some => simp [shutAll, shut, held]
  refine ⟨⟨h.sorted, h.point, h.distinct.erase st, fun st' => ?_,
    fun hc => (nomatch hopen.symm.trans hc), h.pointCall, fun st' hs => ?_, ?_, ?_⟩, ?_,
    .inl ⟨?_, rfl⟩, ?_, fun hr => ?_, id, ?_, fun p hp hq => nomatch hp.symm.trans hq⟩
  · exact mem_removed (P := fun x : Preparation => x.closed = false) h.statement
      (fun _ => h.distinct.mem_erase_iff.trans and_comm) Bool.noConfusion st'
  · exact (hcalls st').trans_lt (h.statementCall st' hs)
  · cases next with
    | none => trivial
    | some f => exact ⟨hopen, hnext f rfl⟩
  · rw [hw]
    exact (hpending ▸ h.books).finish cleanup
  · obtain ⟨hc, ha⟩ : (s.shutAll st cleanup next).completions.map Prod.fst
        = [(s.preparations.cell st).call] ∧ (s.shutAll st cleanup next).admissions = [] := by
      simp [shutAll]
    rw [hw, hpending, hc, ha]
    show {(s.preparations.cell st).call} + _ = _ + 0
    abel
  · simp [shutAll]
  · rw [hheld', hheld]
    simp [shutAll]
  · simp [shutAll, shut, hr]
  · simp [shutAll]

variable {err : Option (Err ε)}

/-! ## The end -/

/-- **The transaction is closed**, with every savepoint that is left. -/
theorem moved_conclude {f : Finish ε} {outcome : TransactionOutcome} (h : s.Inv)
    (hempty : s.statements = []) (hroot : s.root = {0}) (hcall : s.stage.call = [])
    (hheld : s.held = {()}) : Moved s (s.conclude f outcome err) := by
  have hw : s.waiting = {0} + (s.savepoints.map s.pointCall : List ℕ) := by
    unfold waiting
    rw [hroot, hcall]
    simp
  have hw' : waiting (s.conclude f outcome err).state = {0} := by
    unfold conclude
    split
    all_goals simp [waiting, root, settleSavepoints, Stage.call]
  obtain ⟨hcompleted, hadmitted, hgifts, hloans, hcommands⟩ :
      (s.conclude f outcome err).completions.map Prod.fst = s.savepoints.map s.pointCall
        ∧ (s.conclude f outcome err).admissions = [] ∧ (s.conclude f outcome err).gifts = [()]
        ∧ (s.conclude f outcome err).loans = [] ∧ (s.conclude f outcome err).commands = [] := by
    simp [conclude, List.filterMap_append, List.filterMap_map, Function.comp_def]
  have hclosed : ∀ p, (s.points.mapCells
      (fun p x => if p ∈ s.savepoints then Point.shut x else x)).cell p
        = if p ∈ s.savepoints then Point.shut (s.points.cell p) else s.points.cell p := fun p =>
    s.points.cell_mapCells _ p
  have hall : ∀ p < s.points.next, ((s.points.mapCells
      (fun p x => if p ∈ s.savepoints then Point.shut x else x)).cell p).closed = true := by
    intro p hp
    rw [hclosed p]
    split
    · rfl
    · next hnot =>
      by_contra hc
      exact hnot ((h.point p).mpr ⟨hp, by simpa using hc⟩)
  refine ⟨⟨List.Pairwise.nil, fun p => ?_, h.distinct, h.statement, fun _ => ⟨rfl, hempty⟩,
    fun p hp => ?_, h.statementCall, ?_, ?_⟩, ?_, .inl ⟨hadmitted, rfl⟩, ?_, id, fun _ => rfl, ?_,
    fun p _ _ q _ hq => hall q hq⟩
  · refine ⟨nofun, fun hp => ?_⟩
    exact nomatch (hall p hp.1).symm.trans hp.2
  · refine (congrArg Point.call (hclosed p)).trans_lt ?_
    split
    all_goals exact h.pointCall p hp
  · cases he : s.ended with
    | false | true => simp [conclude, Fit, he, settleSavepoints]
  · rw [hw']
    exact (hw ▸ h.books).completeAll parentEnded
  · rw [hcompleted, hadmitted, hw', hw]
    show _ + (_ + s.pending) = _ + s.pending + 0
    abel
  · have hheld' : held (s.conclude f outcome err).state = 0 := by
      unfold conclude
      split
      all_goals simp [held]
    rw [hgifts, hloans, hheld, hheld']
    rfl
  · intro hc
    rw [hcommands] at hc
    cases hc

/-! ## All steps -/

/-- **What any step does.** With the stage known, the invariant and the step
compute. -/
theorem moved {l : Event ε} (h : s.Inv) (ht : s.turn m l = some t) : Moved s t := by
  obtain ⟨_, _, _, _, closed, _, _, _, _, stage⟩ := s
  have hfit := h.fit
  unfold State.turn taken begun observed deallocated retired drain State.decide finalized gave at ht
  dsimp only at ht
  repeat' split at ht
  any_goals cases ht
  -- the beginning
  · exact .complete h ⟨rfl, rfl, rfl, rfl, rfl⟩ hfit rfl rfl rfl rfl rfl rfl rfl id
      (by simp)
  iterate 2 exact .goto h hfit rfl rfl rfl rfl rfl (by simp [Commits])
  · obtain rfl : closed = false := hfit.1
    exact .goto h trivial rfl rfl rfl rfl rfl (by simp [Commits])
  · exact .goto h hfit rfl rfl rfl rfl rfl (by simp [Commits])
  -- operations
  · exact .refl h
  · next he => exact moved_start h he ht
  · exact moved_consume h ht
  · exact .answered h hfit rfl rfl rfl _
  · exact moved_prepared h ht
  · obtain rfl : closed = false := hfit
    exact .complete h ⟨rfl, rfl, rfl, rfl, rfl⟩ trivial rfl rfl rfl rfl rfl rfl rfl id
      (by simp)
  · exact .goto h hfit rfl rfl rfl rfl rfl (by simp [Commits])
  · exact moved_shutAll h hfit.1 hfit.2.1 hfit.2.2 rfl rfl rfl
  · exact .goto h hfit rfl rfl rfl rfl rfl (by simp [Commits])
  · obtain rfl : closed = false := hfit
    exact .complete h ⟨rfl, rfl, rfl, rfl, rfl⟩ trivial rfl rfl rfl rfl rfl rfl rfl
      (fun _ => rfl) (by simp)
  · exact moved_shutAll h hfit.1 hfit.2.1 hfit.2.2 rfl rfl rfl
  -- the end
  · next hmem =>
    refine .goto h ⟨hfit.1, hmem, fun f' hf' => ?_⟩ rfl rfl rfl rfl rfl (by simp [Commits])
    cases hf'
    exact hfit.2
  · next hempty _ => exact moved_conclude h hempty rfl rfl rfl
  · next f hempty hgo hc =>
    have hgood := And.intro (hfit.2 hc) (show _ = false by simpa [hc] using hgo)
    exact .goto h ⟨hfit.1, hempty, fun _ => hgood⟩ rfl rfl rfl rfl rfl
      (fun _ => ⟨rfl, hgood.1, hgood.2, hfit.1, f, rfl, rfl, hc⟩)
  · next hempty _ hc =>
    exact .goto h ⟨hfit.1, hempty, fun hc' => absurd hc' hc⟩ rfl rfl rfl rfl rfl
      (by simp [Commits])
  · exact moved_conclude h hfit.2.1 rfl rfl rfl
  · exact .complete h ⟨rfl, rfl, rfl, rfl, rfl⟩ hfit rfl rfl rfl rfl rfl rfl rfl id
      (by simp)
  · obtain rfl : closed = true := hfit
    exact .complete h ⟨rfl, rfl, rfl, rfl, rfl⟩ trivial rfl rfl rfl rfl rfl rfl rfl id
      (by simp)

theorem inv_init : (init : State ε).Inv where
  sorted := List.Pairwise.nil
  point p := by simp [init]
  distinct := List.nodup_nil
  statement st := by simp [init]
  empty := nofun
  pointCall := nofun
  statementCall := nofun
  fit := ⟨rfl, rfl, rfl⟩
  books := by
    refine ⟨?_, ?_, ?_, nofun, ?_⟩
    iterate 2 simp [init, waiting, root, pending, Stage.call]
    · simp [init, waiting, root, Stage.call, Heap.alloc, Invocation.Call.new]
    · simp [init, waiting, root, pending, Stage.call]

theorem inv_of_run {tr : List (Event ε)} (hr : (machine m).machine.Run tr s) : s.Inv :=
  Mealy.invariant (I := fun _ s => s.Inv) inv_init (fun _ h ht => (moved h ht).inv) hr

end State

end Pgx
