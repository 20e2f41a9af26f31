import Fathomry.Failure
import Fathomry.Invocation
import Fathomry.Mealy

/-!
# Transactions of PostgreSQL

A `Transaction` holds one native connection, and every operation on it takes
its mutex with `TryLock`: it runs alone, or it is refused. What it does to
the connection may fail at any point, and what is left of the transaction
then is recorded in three flags – `closed` once it has been finalized,
`ended` once the server has been seen outside of it, `rollbackOnly` once a
commit must not happen any more – and in the preparations and savepoints
that are still open.

A step of the machine is what an operation does up to its next native call,
or what it does with the answer to the last one. The answer, what the
connection looks like afterwards, and whether a call is admitted at all are
decided outside and are part of the label. A step comes with its actions:
the calls that begin and are completed, the commands that go to the server,
and the connection taken from the pool and given back.
-/

namespace Pgx

variable {ε : Type}

/-! ## Errors -/

inductive Kind where
  | input
  | environment
  | unsupported
  | connect
  | query
  | limit
  | state
  | cleanup
deriving DecidableEq

inductive Cause (ε : Type) where
  | txClosed
  | txCommitRollback
  | other (err : ε)

abbrev Err (ε : Type) := Fault Kind Unit (Cause ε)

def providerID : String := "database.pgx.v5"

def failure (kind : Kind) (operation : String) (causes : List (Option (Err ε))) : Err ε :=
  .new kind operation providerID () causes

def failureOrNil (kind : Kind) (operation : String) (causes : List (Option (Err ε))) :
    Option (Err ε) :=
  if causes.any Option.isSome then some (failure kind operation causes) else none

/-- A native error, with the cause of the context when the error is that of
the context. -/
structure Refusal (ε : Type) where
  err : Err ε
  cause : Option (Err ε)

abbrev Answer (ε : Type) := Option (Refusal ε)

def nativeFailure (kind : Kind) (operation : String) (answer : Answer ε) : Option (Err ε) :=
  answer.map (fun r => failure kind operation [some r.err, r.cause])

/-- `errors.Is(err, sdk.ErrTxCommitRollback)`, for an error of `Commit`. -/
def Refusal.isCommitRollback (r : Refusal ε) : Bool :=
  match r.err with
  | .native .txCommitRollback => true
  | _ => false

/-! ## Calls -/

inductive TransactionOutcome where
  | unobserved
  | commitAcknowledged
  | rollbackAcknowledged
  | commitRolledBack
  | finalizationUnknown
deriving DecidableEq

inductive SavepointOutcome where
  | unobserved
  | released
  | rolledBack
  | rollbackOnly
  | unknown
  | parentEnded
deriving DecidableEq

/-- `Result`, without the rows. -/
structure Result where
  command : String
  complete : Bool
  transaction : TransactionOutcome
  savepoint : SavepointOutcome
deriving DecidableEq

abbrev Outcome (ε : Type) := Invocation.Outcome Result (Err ε)

abbrev Call (ε : Type) := Invocation.Call Result (Err ε)

/-! ## The transaction -/

structure Point where
  name : String
  call : ℕ
  closed : Bool

structure Preparation where
  name : String
  call : ℕ
  closed : Bool

def Point.shut (x : Point) : Point := { x with closed := true }

def Preparation.shut (x : Preparation) : Preparation := { x with closed := true }

/-- What `Commit` or `Rollback` is about, and the errors of the preparations
it has closed. -/
structure Finish (ε : Type) where
  commit : Bool
  cleanup : List (Option (Err ε))

def Finish.operation (f : Finish ε) : String := if f.commit then "commit" else "rollback"

/-- **Where the holder of the mutex is**: in which native call, and with what
in its hands. -/
inductive Stage (ε : Type) where
  /-- `Begin`, taking a connection. -/
  | taking
  | beginning
  /-- `Begin` has failed and gives the connection back. -/
  | returning (primary : Option (Err ε))
  | past
  | free
  | querying (call : ℕ)
  /-- `Prepare` has no name for its statement. -/
  | unnamed (call : ℕ)
  | preparing (call : ℕ) (name : String)
  /-- `Prepare` has failed and takes its statement back. -/
  | deallocating (call : ℕ) (primary : Err ε)
  /-- And that has failed as well: the connection is closed. -/
  | retiring (call : ℕ) (primary cleanup : Err ε)
  | establishing (call : ℕ) (name : String)
  | rollingBackTo (p : ℕ)
  | releasing (p : ℕ) (rollback : Bool)
  /-- `closeLocked`, on its own or for `finish`. -/
  | closing (st : ℕ) (next : Option (Finish ε))
  | shutting (st : ℕ) (cleanup : Err ε) (next : Option (Finish ε))
  /-- `finish`, in front of the next preparation. -/
  | draining (f : Finish ε)
  | finalizing (f : Finish ε)
  | giving (f : Finish ε) (result : Result) (primary : Option (Err ε))

/-- There is no transaction, or not yet. -/
def Stage.startup : Stage ε → Bool
  | .taking | .beginning | .returning _ | .past => true
  | _ => false

/-- `TryLock` succeeds. -/
def Stage.unlocked : Stage ε → Bool
  | .free => true
  | _ => false

/-- **A transaction**, with everything that was made in it. -/
structure State (ε : Type) where
  sequence : ℕ
  calls : Heap (Call ε)
  points : Heap Point
  preparations : Heap Preparation
  closed : Bool
  ended : Bool
  rollbackOnly : Bool
  statements : List ℕ
  savepoints : List ℕ
  stage : Stage ε

inductive Command where
  | begin
  | statement (sql : String)
  | prepare (name sql : String)
  | execute (name : String)
  | savepoint (name : String)
  | rollbackTo (name : String)
  | release (name : String)
  | deallocate (name : String)
  | commit
  | rollback
  | terminate
deriving DecidableEq

/-- **What a step does to others.** -/
inductive Action (ε : Type) where
  | took
  | gave
  | began (call : ℕ)
  | completed (call : ℕ) (outcome : Outcome ε)
  | sent (command : Command)

/-- A state and the actions on the way to it. -/
abbrev Turn (ε : Type) := Reaction (State ε) (Action ε)

/-- What `observeState` reads of the connection: `IsClosed()`, and whether
`TxStatus()` is `'I'`. -/
structure Seen where
  closed : Bool
  idle : Bool

/-- The server has ended the transaction, by the connection or by the command
tag. -/
def Seen.ends (seen : Seen) (command : String) : Bool :=
  seen.closed || seen.idle || command = "COMMIT" || command = "ROLLBACK"
    || command = "PREPARE TRANSACTION"

namespace Turn

variable (t : Turn ε)

@[simp] def of (s : State ε) : Turn ε := ⟨s, []⟩

@[simp] def act (a : Action ε) : Turn ε := { t with actions := t.actions ++ [a] }

@[simp] def change (f : State ε → State ε) : Turn ε := { t with state := f t.state }

/-- The mutex passes on to a stage, or is unlocked. -/
@[simp] def goto (stage : Stage ε) : Turn ε := t.change (fun s => { s with stage := stage })

@[simp] def send (command : Command) : Turn ε := t.act (.sent command)

@[simp] def begin (name : String) : Turn ε :=
  (t.change (fun s => { s with calls := s.calls.alloc (.new name) })).act
    (.began t.state.calls.next)

@[simp] def complete (call : ℕ) (outcome : Outcome ε) : Turn ε :=
  (t.change (fun s => { s with calls := s.calls.modify call (·.complete outcome) })).act
    (.completed call outcome)

@[simp] def observe (command : String) (seen : Seen) : Turn ε :=
  t.change (fun s => { s with
    ended := s.ended || seen.ends command
    rollbackOnly := s.rollbackOnly || command = "SAVEPOINT" || command = "RELEASE" })

end Turn

/-! ## Operations -/

def maxPreparedStatements : ℕ := 8

def maxSavepoints : ℕ := 8

def maxArguments : ℕ := 128

def maxColumns : ℕ := 64

/-- **What a caller asks for.** -/
inductive Op where
  | query (sql : String) (keep : Bool)
  | prepare (sql : String)
  | savepoint
  | execute (st : ℕ) (keep : Bool)
  | close (st : ℕ)
  | settle (p : ℕ) (rollback : Bool)
  | finish (commit : Bool)

def Op.concurrent : Op → String
  | .query _ _ | .prepare _ | .savepoint | .finish _ => "concurrent-transaction"
  | .execute _ _ | .close _ => "concurrent-statement"
  | .settle _ _ => "concurrent-savepoint"

def Op.callName : Op → Option String
  | .query _ keep | .execute _ keep => some (if keep then "query" else "exec")
  | .prepare _ => some "prepare"
  | .savepoint => some "savepoint"
  | .close _ | .settle _ _ | .finish _ => none

/-- **What becomes of an operation before it does anything**: its input or
its admission is refused, its time is over once it has been admitted, or it
goes on. -/
inductive Setup (ε : Type) where
  | refused (err : Err ε)
  | ended (err : Err ε)
  | ready

/-- A receipt, or an error. -/
inductive Reply (ε : Type) where
  | receipt (call : ℕ)
  | error (err : Err ε)

/-- What is known of a statement the server has prepared: its parameters, and
the lengths of the names of its columns. -/
structure Description where
  params : ℕ
  fields : List ℕ

def validateDescription (maxResultBytes : ℕ) (d : Description) : Option (Err ε) :=
  if maxArguments < d.params ∨ maxColumns < d.fields.length ∨ maxResultBytes < d.fields.sum then
    some (failure .limit "prepare-metadata" [])
  else none

/-- What `PgConn().Prepare` returns: an error, and whether the server has the
statement nevertheless; or its description. -/
abbrev Prepared (ε : Type) := Except (Refusal ε × Bool) Description

namespace State

variable (s : State ε)

def revoked : Bool := s.closed || s.ended || s.rollbackOnly

/-- `lock`, after `TryLock`. -/
def lock : Option (Reply ε) :=
  if s.closed then some (.error (failure .state "transaction" [some (.native .txClosed)]))
  else none

/-- The check that most operations make next. -/
def usable : Option (Reply ε) :=
  if s.ended || s.rollbackOnly then some (.error (failure .state "transaction-ended" []))
  else none

/-- **What an operation answers without doing anything**: `lock`, and the
checks after it. -/
def early (op : Op) : Option (Reply ε) :=
  if s.stage.unlocked = false then some (.error (failure .state op.concurrent []))
  else match op with
  | .query _ _ => s.lock.or s.usable
  | .prepare _ => (s.lock.or s.usable).or
      (if maxPreparedStatements ≤ s.statements.length then
        some (.error (failure .limit "preparations" [])) else none)
  | .savepoint => (s.lock.or s.usable).or
      (if maxSavepoints ≤ s.savepoints.length then
        some (.error (failure .limit "savepoints" [])) else none)
  | .finish commit => s.lock.or (if commit then s.usable else none)
  | .execute st _ =>
    if (s.preparations.cell st).closed || s.revoked then
      some (.error (failure .state "statement" [])) else none
  | .close st =>
    if (s.preparations.cell st).closed then some (.receipt (s.preparations.cell st).call) else none
  | .settle p _ =>
    if (s.points.cell p).closed then some (.receipt (s.points.cell p).call)
    else if s.revoked then some (.error (failure .state "savepoint-parent" []))
    else if s.savepoints.getLast? ≠ some p then
      some (.error (failure .state "savepoint-order" []))
    else none

def nextName (pre : String) : Except (Err ε) String :=
  if s.sequence = maxUint64 then .error (failure .limit "name-sequence" [])
  else .ok (pre ++ toString (increment s.sequence))

def named : State ε := { s with sequence := increment s.sequence }

/-- **An operation that holds the mutex**, up to its first native call. -/
def enter : Op → Option (Turn ε)
  | .query sql keep =>
    some ((((Turn.of s).begin (if keep then "query" else "exec")).send (.statement sql)).goto
      (.querying s.calls.next))
  | .execute st keep =>
    if st < s.preparations.next then
      some ((((Turn.of s).begin (if keep then "query" else "exec")).send
        (.execute (s.preparations.cell st).name)).goto (.querying s.calls.next))
    else none
  | .prepare sql =>
    some (match s.nextName "fathomry_statement_" with
    | .error _ => ((Turn.of s).begin "prepare").goto (.unnamed s.calls.next)
    | .ok name =>
      ((((Turn.of s).begin "prepare").change named).send (.prepare name sql)).goto
        (.preparing s.calls.next name))
  | .savepoint =>
    some (match s.nextName "fathomry_savepoint_" with
    | .error err => ((Turn.of s).begin "savepoint").complete s.calls.next ⟨none, some err, []⟩
    | .ok name =>
      ((((Turn.of s).begin "savepoint").change named).send (.savepoint name)).goto
        (.establishing s.calls.next name))
  | .close st =>
    if st < s.preparations.next then
      some (((Turn.of s).send (.deallocate (s.preparations.cell st).name)).goto (.closing st none))
    else none
  | .settle p rollback =>
    if p < s.points.next then
      some (if rollback then
        ((Turn.of s).send (.rollbackTo (s.points.cell p).name)).goto (.rollingBackTo p)
      else ((Turn.of s).send (.release (s.points.cell p).name)).goto (.releasing p false))
    else none
  | .finish commit => some ((Turn.of s).goto (.draining ⟨commit, []⟩))

def start (op : Op) : Setup ε → Option (Turn ε)
  | .refused _ => some (Turn.of s)
  | .ended err =>
    op.callName.map (fun name =>
      ((Turn.of s).begin name).complete s.calls.next ⟨none, some err, []⟩)
  | .ready => s.enter op

def consumed (command : String) (primary cleanup : Option (Err ε)) : Result :=
  ⟨command, primary.isNone && cleanup.isNone, .unobserved, .unobserved⟩

def establish (call : ℕ) (name : String) : State ε :=
  { s with
    points := s.points.alloc ⟨name, call, false⟩
    savepoints := s.savepoints ++ [s.points.next]
    stage := .free }

def popped (p : ℕ) (failed : Bool) : State ε :=
  { s with
    points := s.points.modify p Point.shut
    savepoints := s.savepoints.dropLast
    rollbackOnly := s.rollbackOnly || failed }

def settled (p : ℕ) (complete : Bool) (outcome : SavepointOutcome)
    (primary cleanup : Option (Err ε)) (seen : Seen) : Turn ε :=
  ((((Turn.of s).change (fun s => s.popped p (primary.isSome || cleanup.isSome))).observe "" seen
    ).complete (s.points.cell p).call
      ⟨some ⟨"", complete, .unobserved, outcome⟩, primary, cleanup.toList⟩).goto .free

/-- **The answer to a statement.** -/
def consume (command : String) (primary cleanup : Option (Err ε)) (seen : Seen) : Option (Turn ε) :=
  match s.stage with
  | .querying call =>
    some ((((Turn.of s).observe command seen).complete call
      ⟨some (consumed command primary cleanup), primary,
        (failureOrNil .cleanup "consume" [cleanup, none]).toList⟩).goto .free)
  | .establishing call name =>
    if primary.isSome || cleanup.isSome then
      some ((((Turn.of s).observe "" seen).complete call
        ⟨some (consumed command primary cleanup), primary, cleanup.toList⟩).goto .free)
    else some ((Turn.of s).change (fun s => s.establish call name))
  | .rollingBackTo p =>
    if primary.isSome || cleanup.isSome then
      some (s.settled p false .unknown primary cleanup seen)
    else
      some (((Turn.of s).send (.release (s.points.cell p).name)).goto (.releasing p true))
  | .releasing p rollback =>
    match failureOrNil .cleanup "savepoint-release" [primary, cleanup] with
    | none => some (s.settled p true (if rollback then .rolledBack else .released) none none seen)
    | some err =>
      some (s.settled p false (if rollback then .rollbackOnly else .unknown) none (some err) seen)
  | _ => none

def prepare (call : ℕ) (name : String) : State ε :=
  { s with
    preparations := s.preparations.alloc ⟨name, call, false⟩
    statements := s.statements ++ [s.preparations.next]
    calls := s.calls.modify call (·.resolve
      ⟨some ⟨"", true, .unobserved, .unobserved⟩, none, []⟩)
    stage := .free }

/-- **The answer to `Prepare`.** -/
def prepared (maxResultBytes : ℕ) (answer : Prepared ε) (seen : Seen) : Option (Turn ε) :=
  match s.stage with
  | .preparing call name =>
    let t := (Turn.of s).observe "" seen
    match answer with
    | .error (r, parsed) =>
      let primary := failure .query "prepare" [some r.err, r.cause]
      some (if parsed && !seen.closed then
          (t.send (.deallocate name)).goto (.deallocating call primary)
        else (t.complete call ⟨none, some primary, []⟩).goto .free)
    | .ok d =>
      match validateDescription maxResultBytes d with
      | some primary =>
        some (if !seen.closed then (t.send (.deallocate name)).goto (.deallocating call primary)
          else (t.complete call ⟨none, some primary, []⟩).goto .free)
      | none => some (t.change (fun s => s.prepare call name))
  | _ => none

def shut (st : ℕ) (cleanup : Option (Err ε)) : State ε :=
  { s with
    preparations := s.preparations.modify st Preparation.shut
    statements := s.statements.erase st
    rollbackOnly := s.rollbackOnly || cleanup.isSome
    calls := s.calls.modify (s.preparations.cell st).call (fun c => (c.finish cleanup).release) }

/-- `closeLocked`, after its native calls. -/
def shutAll (st : ℕ) (cleanup : Option (Err ε)) (next : Option (Finish ε)) : Turn ε :=
  (((Turn.of s).change (fun s => s.shut st cleanup)).act
    (.completed (s.preparations.cell st).call ⟨none, none, cleanup.toList⟩)).goto
      (match next with
      | none => .free
      | some f => .draining { f with cleanup := f.cleanup ++ [cleanup] })

/-- **The answer to `Deallocate`.** -/
def deallocated (answer : Answer ε) : Option (Turn ε) :=
  match s.stage, answer with
  | .deallocating call primary, none =>
    some (((Turn.of s).complete call ⟨none, some primary, []⟩).goto .free)
  | .deallocating call primary, some r =>
    some (((Turn.of s).send .terminate).goto
      (.retiring call primary (failure .cleanup "deallocate" [some r.err, r.cause])))
  | .closing st next, none => some (s.shutAll st none next)
  | .closing st next, some r =>
    some (((Turn.of s).send .terminate).goto
      (.shutting st (failure .cleanup "deallocate" [some r.err, r.cause]) next))
  | _, _ => none

/-- A commit must not happen any more. -/
def spoil : State ε := { s with rollbackOnly := true }

/-- **The connection has been closed**, `retirePreparation`. -/
def retired (err : Option (Err ε)) : Option (Turn ε) :=
  match s.stage with
  | .retiring call primary cleanup =>
    some ((((Turn.of s).change spoil).complete call
      ⟨none, some primary, [failure .cleanup "deallocate-retire" [some cleanup, err]]⟩).goto .free)
  | .shutting st cleanup next =>
    some (s.shutAll st (some (failure .cleanup "deallocate-retire" [some cleanup, err])) next)
  | _ => none

/-- What a savepoint is told that its transaction has outlived. -/
def parentEnded : Outcome ε := ⟨some ⟨"", false, .unobserved, .parentEnded⟩, none, []⟩

def pointCall (p : ℕ) : ℕ := (s.points.cell p).call

def settleSavepoints : State ε :=
  { s with
    closed := true
    points := s.points.mapCells (fun p x => if p ∈ s.savepoints then Point.shut x else x)
    calls := s.calls.mapCells (fun k c =>
      if k ∈ s.savepoints.map s.pointCall then c.complete parentEnded else c)
    savepoints := [] }

/-- **The end of `finish`**, up to `give`: what the native call returned, and
what it says about the transaction. -/
def conclude (f : Finish ε) (outcome : TransactionOutcome) (err : Option (Err ε)) : Turn ε :=
  Turn.goto ⟨s.settleSavepoints,
      s.savepoints.map (fun p => .completed (s.pointCall p) parentEnded) ++ [.gave]⟩
    (if s.ended then
      .giving f ⟨"", false, .finalizationUnknown, .unobserved⟩
        (some (failure .state "transaction-ended" [err]))
    else .giving f ⟨"", err.isNone, outcome, .unobserved⟩ err)

/-- **`finish`, when every preparation is closed**: a commit that has become
impossible is not sent. -/
def decide : Option (Turn ε) :=
  match s.stage with
  | .draining f =>
    if s.statements = [] then
      some (if f.commit && s.rollbackOnly then
        s.conclude f .finalizationUnknown
          (some (failure .query f.operation [some (failure .state "transaction-cleanup" [])]))
      else ((Turn.of s).send (if f.commit then .commit else .rollback)).goto (.finalizing f))
    else none
  | _ => none

def drain (st : ℕ) : Option (Turn ε) :=
  match s.stage with
  | .draining f =>
    if st ∈ s.statements then
      some (((Turn.of s).send (.deallocate (s.preparations.cell st).name)).goto
        (.closing st (some f)))
    else none
  | _ => none

def finality (commit : Bool) (answer : Answer ε) : TransactionOutcome :=
  match answer with
  | none => if commit then .commitAcknowledged else .rollbackAcknowledged
  | some r => if commit && r.isCommitRollback then .commitRolledBack else .finalizationUnknown

/-- **The answer to `COMMIT` or `ROLLBACK`.** -/
def finalized (answer : Answer ε) : Option (Turn ε) :=
  match s.stage with
  | .finalizing f =>
    some (s.conclude f (finality f.commit answer) (nativeFailure .query f.operation answer))
  | _ => none

/-- **The pool has the connection back.** -/
def gave (err : Option (Err ε)) : Option (Turn ε) :=
  match s.stage with
  | .returning primary => some (((Turn.of s).complete 0 ⟨none, primary, err.toList⟩).goto .past)
  | .giving f result primary =>
    some (((Turn.of s).complete 0 ⟨some result, primary,
      (failureOrNil .cleanup "transaction-cleanup"
        [Fault.joined f.cleanup, err]).toList⟩).goto .free)
  | _ => none

/-- **`Begin` has asked for a connection.** -/
def taken : Setup ε → Option (Turn ε) := fun setup =>
  match s.stage, setup with
  | .taking, .refused err => some (((Turn.of s).complete 0 ⟨none, some err, []⟩).goto .past)
  | .taking, .ended err => some ((((Turn.of s).act .took).act .gave).goto (.returning (some err)))
  | .taking, .ready => some ((((Turn.of s).act .took).send .begin).goto .beginning)
  | _, _ => none

/-- **The answer to `BEGIN`.** -/
def begun (answer : Answer ε) : Option (Turn ε) :=
  match s.stage, answer with
  | .beginning, none => some ((Turn.of s).goto .free)
  | .beginning, some r =>
    some (((Turn.of s).act .gave).goto (.returning (nativeFailure .query "begin" (some r))))
  | _, _ => none

/-- `Prepare` without a name. -/
def observed (seen : Seen) : Option (Turn ε) :=
  match s.stage with
  | .unnamed call =>
    some ((((Turn.of s).observe "" seen).complete call
      ⟨none, some (failure .query "prepare" [some (failure .limit "name-sequence" [])]), []⟩).goto
        .free)
  | _ => none

end State

/-- **What happens.** -/
inductive Event (ε : Type) where
  | taken (setup : Setup ε)
  | begun (answer : Answer ε)
  | call (op : Op) (setup : Setup ε)
  | consumed (command : String) (primary cleanup : Option (Err ε)) (seen : Seen)
  | observed (seen : Seen)
  | prepared (answer : Prepared ε) (seen : Seen)
  | deallocated (answer : Answer ε)
  | retired (err : Option (Err ε))
  | drain (st : ℕ)
  | decide
  | finalized (answer : Answer ε)
  | gave (err : Option (Err ε))

namespace State

/-- `Begin` has been admitted. -/
def init : State ε where
  sequence := 0
  calls := (Heap.empty (.new "")).alloc (.new "transaction")
  points := .empty ⟨"", 0, true⟩
  preparations := .empty ⟨"", 0, true⟩
  closed := false
  ended := false
  rollbackOnly := false
  statements := []
  savepoints := []
  stage := .taking

variable (maxResultBytes : ℕ) (s : State ε)

/-- **The step of the machine**, with its actions. -/
def turn : Event ε → Option (Turn ε)
  | .taken setup => s.taken setup
  | .begun answer => s.begun answer
  | .call op setup =>
    if s.stage.startup then none
    else match s.early op with
    | some _ => some (Turn.of s)
    | none => s.start op setup
  | .consumed command primary cleanup seen => s.consume command primary cleanup seen
  | .observed seen => s.observed seen
  | .prepared answer seen => s.prepared maxResultBytes answer seen
  | .deallocated answer => s.deallocated answer
  | .retired err => s.retired err
  | .drain st => s.drain st
  | .decide => s.decide
  | .finalized answer => s.finalized answer
  | .gave err => s.gave err

/-- **The machine.** -/
def machine : Mealy (State ε) (Event ε) (Action ε) := ⟨init, fun s l => s.turn maxResultBytes l⟩

end State

end Pgx
