import Fathomry.Failure
import Fathomry.Mealy

/-!
# One call, and who completes it

`Resolve`, `Finish`, `Release`, `Complete` and `Execute` all complete the same
call, and any number of goroutines may try. Each looks at the flags under the
mutex of the call and gives up if it comes too late. `Execute` alone lets go of
the mutex, to run its function, and when it comes back it looks at nothing. The
flag `executing` keeps the others out, and puts off giving back the lease until
`Execute` is left.

So the machine is that of a call and of the goroutine that has won it by
`Execute`, if there is one; those that lose change nothing. Where the call is
and what has been done with it determine each other (`Course`).

What is published is not literally what the function returns: errors are
attributed to the call first, unless they are already.
-/

namespace Calls

variable {T L ε : Type} [DecidableEq L]

/-- The codes of errors: two of the package, and any others. -/
inductive Kind
  | failed | cleanup | other (code : String)

/-- Errors; the details of an occurrence are its `fault.Context`. -/
abbrev Err (L ε : Type) := Fault Kind L ε

structure Outcome (T L ε : Type) where
  value : Option T
  primary : Option (Err L ε)
  cleanup : Option (Err L ε)

def attributeError (identity : Kind) (location : L) : Err L ε → Err L ε
  | .occurrence c op name l causes =>
    if l = location then .occurrence c op name l causes
    else .new identity "" "" location [some (.occurrence c op name l causes)]
  | cause => .new identity "" "" location [some cause]

def Outcome.attribute (location : L) (o : Outcome T L ε) : Outcome T L ε :=
  ⟨o.value, o.primary.map (attributeError .failed location),
    o.cleanup.map (attributeError .cleanup location)⟩

/-- Where the goroutine is that has won the call by `Execute`: there is none,
its function runs, or it leaves, with what the function returned if that was
called. -/
inductive Worker (T L ε : Type)
  | none
  | running
  | leaving (o : Option (Outcome T L ε))

structure CallState (T L ε : Type) where
  location : L
  /-- `shape == Finite`. -/
  finite : Bool
  outcome : Outcome T L ε
  (resolved final released executing : Bool)
  worker : Worker T L ε

/-- What is done with a call: its two channels are closed, its flag is set, its
lease is given back, and an `Execute` whose function returned `o` returns nil. -/
inductive Action (T L ε : Type)
  | published (o : Outcome T L ε)
  | finalized
  | released
  | lease
  | executed (o : Outcome T L ε)

inductive Event (T L ε : Type)
  | resolve (o : Outcome T L ε)
  | finish (cleanup : Option (Err L ε))
  | release
  | complete (o : Outcome T L ε)
  /-- `Execute` looks whether it can have the call; there may be no function. -/
  | execute (run : Bool)
  /-- It fails for its budget or its context. -/
  | refused (err : Err L ε)
  | returned (o : Outcome T L ε)
  /-- It is left, maybe by a crash of its function. -/
  | leave

abbrev Turn (T L ε : Type) := Reaction (CallState T L ε) (Action T L ε)

namespace CallState

def new (location : L) (finite : Bool) : CallState T L ε :=
  ⟨location, finite, ⟨none, none, none⟩, false, false, false, false, .none⟩

variable (s : CallState T L ε)

def resolve (o : Outcome T L ε) : Turn T L ε :=
  ⟨{ s with outcome := o.attribute s.location, resolved := true },
    [.published (o.attribute s.location)]⟩

def finish : Turn T L ε := ⟨{ s with final := true }, [.finalized]⟩

def release : Turn T L ε :=
  ⟨{ s with released := true }, .released :: if s.executing then [] else [.lease]⟩

def complete (o : Outcome T L ε) : Turn T L ε :=
  let resolved := s.resolve o
  let finished := resolved.state.finish
  let released := finished.state.release
  ⟨released.state, resolved.actions ++ finished.actions ++ released.actions⟩

def concluded (o : Outcome T L ε) (returned : Option (Outcome T L ε)) : Turn T L ε :=
  ⟨{ (s.complete o).state with worker := .leaving returned }, (s.complete o).actions⟩

def late : Turn T L ε := ⟨s, []⟩

/-- **One critical section.** -/
def turn : Event T L ε → Option (Turn T L ε)
  | .resolve o => some (if s.resolved ∨ s.executing then s.late else s.resolve o)
  | .finish cleanup =>
    some (if s.resolved = false ∨ s.final ∨ s.executing then s.late
      else
        let joined := cleanup.elim s.outcome.cleanup (fun err =>
          some (.new .cleanup "" "" s.location [s.outcome.cleanup, some err]))
        finish { s with outcome := { s.outcome with cleanup := joined } })
  | .release => some (if s.final = false ∨ s.released ∨ s.executing then s.late else s.release)
  | .complete o => some (if s.resolved ∨ s.executing then s.late else s.complete o)
  | .execute run =>
    some (if s.resolved ∨ s.executing ∨ s.finite = false ∨ run = false then s.late
      else ⟨{ s with executing := true, worker := .running }, []⟩)
  | .refused err =>
    match s.worker with
    | .running => some (s.concluded ⟨none, some err, none⟩ none)
    | _ => none
  | .returned o =>
    match s.worker with
    | .running => some (s.concluded o (some o))
    | _ => none
  | .leave =>
    let left := { s with executing := false, worker := .none }
    match s.worker with
    | .none => none
    | .running => some ⟨left, if s.released then [.lease] else []⟩
    | .leaving o => some ⟨left, (if s.released then [.lease] else []) ++ o.toList.map .executed⟩

/-- **A call as a machine.** -/
def machine (location : L) (finite : Bool) : Mealy (CallState T L ε) (Event T L ε) (Action T L ε) :=
  ⟨new location finite, turn⟩

variable {s} {l : Event T L ε} {t : Turn T L ε} {location : L} {finite : Bool}
  {log : List (Action T L ε)}

/-- **The course of a call**: what has been done, and where it is. -/
inductive Course (location : L) (finite : Bool) : List (Action T L ε) → CallState T L ε → Prop
  | fresh (o) : Course location finite []
      ⟨location, finite, o, false, false, false, false, .none⟩
  | running (o) : Course location finite []
      ⟨location, finite, o, false, false, false, true, .running⟩
  | resolved (p) : Course location finite [.published p]
      ⟨location, finite, p, true, false, false, false, .none⟩
  | final (p o) : Course location finite [.published p, .finalized]
      ⟨location, finite, o, true, true, false, false, .none⟩
  | leaving (p returned) (hp : ∀ o, returned = some o → p = o.attribute location) :
      Course location finite [.published p, .finalized, .released]
        ⟨location, finite, p, true, true, true, true, .leaving returned⟩
  | over (p o) : Course location finite [.published p, .finalized, .released, .lease]
      ⟨location, finite, o, true, true, true, false, .none⟩
  | executed (o) : Course location finite
      [.published (o.attribute location), .finalized, .released, .lease, .executed o]
      ⟨location, finite, o.attribute location, true, true, true, false, .none⟩

/-- **Every critical section keeps a call on its course.** -/
theorem Course.turn (h : Course location finite log s) (ht : s.turn l = some t) :
    Course location finite (log ++ t.actions) t.state := by
  cases h with
  | fresh o =>
    cases l with
    | execute run =>
      cases ht
      cases finite
      · exact .fresh o
      · cases run
        · exact .fresh o
        · exact .running o
    | resolve | finish | release | complete =>
      cases ht
      constructor
    | _ => cases ht
  | leaving p returned hp =>
    cases l with
    | leave =>
      cases ht
      cases returned with
      | none => exact .over p p
      | some o =>
        obtain rfl := hp o rfl
        exact .executed o
    | refused | returned => cases ht
    | _ =>
      cases ht
      exact .leaving p returned hp
  | running o =>
    cases l with
    | refused =>
      cases ht
      exact .leaving _ _ nofun
    | returned o =>
      cases ht
      exact .leaving _ _ (fun _ h => Option.some.inj h ▸ rfl)
    | _ =>
      cases ht
      constructor
  | _ =>
    cases l
    all_goals cases ht
    all_goals constructor

end CallState

/-! ## Once each, and in order -/

/-- What there is to enter, and the end of the lease. -/
inductive Phase
  | resolved | final | released | lease
deriving DecidableEq

namespace Action

def entered : Action T L ε → Option Phase
  | .published _ => some .resolved
  | .finalized => some .final
  | .released => some .released
  | .lease => some .lease
  | .executed _ => none

def outcome : Action T L ε → Option (Outcome T L ε)
  | .published o => some o
  | _ => none

end Action

namespace CallState

variable {s : CallState T L ε} {location : L} {finite : Bool} {tr : List (Event T L ε)}

/-- **What `Execute` answers for was returned by its function.** -/
theorem returned_of_run (hr : (machine location finite).machine.Run tr s) :
    (∀ o, s.worker = .leaving (some o) → .returned o ∈ tr)
    ∧ ∀ o, .executed o ∈ (machine location finite).log tr → .returned o ∈ tr := by
  refine Mealy.invariant (I := fun tr s => (∀ o, s.worker = .leaving (some o) → .returned o ∈ tr)
    ∧ ∀ o, .executed o ∈ (machine location finite).log tr → .returned o ∈ tr)
    ⟨nofun, nofun⟩ (fun {tr s l t} hr ih ht => ?_) hr
  have hturn : (∀ o, t.state.worker = .leaving (some o) →
      s.worker = .leaving (some o) ∨ l = .returned o)
      ∧ ∀ o, .executed o ∈ t.actions → s.worker = .leaving (some o) := by
    replace ht : s.turn l = some t := ht
    revert ht
    fun_cases turn
    all_goals grind [late, resolve, finish, release, complete, concluded]
  rw [Mealy.log_concat hr ht]
  simp only [List.mem_append, List.mem_singleton]
  refine ⟨fun o ho => (hturn.1 o ho).imp (ih.1 o) Eq.symm, fun o ho => .inl ?_⟩
  exact ho.elim (ih.2 o) (fun ho => ih.1 o (hturn.2 o ho))
/-- **A call is completed once.** Whoever tries in whatever order, it is
resolved, final and released once each and in this order, and only then is its
lease given back – exactly once, as soon as it is released and `Execute` has
been left. At most one outcome is published; if `Execute` succeeds, it is that
that its function returned, its errors attributed to the call, and stays so. -/
theorem completed_once (hr : (machine location finite).machine.Run tr s) :
    let log := (machine location finite).log tr
    log.filterMap Action.entered <+: [.resolved, .final, .released, .lease]
    ∧ (.lease ∈ log ↔ s.released = true ∧ s.executing = false)
    ∧ (log.filterMap Action.outcome).length ≤ 1
    ∧ ∀ o, .executed o ∈ log → .returned o ∈ tr ∧
      log.filterMap Action.outcome = [o.attribute location] ∧ s.outcome = o.attribute location := by
  have hreturned := (returned_of_run hr).2
  have h : Course location finite ((machine location finite).log tr) s :=
    Mealy.log_invariant (.fresh _) (fun h => h.turn) hr
  revert h hreturned
  generalize (machine location finite).log tr = log
  rintro hreturned ⟨⟩
  all_goals simp [Action.entered, Action.outcome]
  exact hreturned _ (by simp)

def failing : Outcome Unit Unit Unit := ⟨none, some (.native ()), none⟩

def sample : List (Event Unit Unit Unit) :=
  [.execute true, .resolve failing, .returned failing, .leave]

theorem log_sample : (machine () true).log sample
    = [.published (failing.attribute ()), .finalized, .released, .lease, .executed failing] := rfl

/-- **What is published is not what the function returned**, if that is an
error which does not know of the call yet. -/
theorem published_attributed : (∃ s, (machine () true).machine.Run sample s)
    ∧ .executed failing ∈ (machine () true).log sample
    ∧ .published failing ∉ (machine () true).log sample := by
  rw [log_sample]
  refine ⟨⟨_, rfl⟩, by simp, ?_⟩
  simp [failing, Outcome.attribute, attributeError, Fault.new]

theorem completed_once_executed : ∃ s, (machine () true).machine.Run sample s
    ∧ s.outcome = failing.attribute () := by
  have hr := Machine.run_reached (machine () true).machine sample rfl
  refine ⟨_, hr, ((completed_once hr).2.2.2 failing ?_).2.2⟩
  rw [log_sample]
  simp

end CallState

end Calls
