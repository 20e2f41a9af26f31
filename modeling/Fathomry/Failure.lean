import Mathlib.Algebra.Group.Nat.Defs
import Mathlib.Data.List.ReduceOption

/-!
# Error values and contexts

Every package of the repository builds its errors the same way: a stable
code, the operation and the instance it happened at, a record of details
and the causes it retains, with nil causes dropped. `Fault` is that value,
over the codes and details of one package and the foreign errors its
callbacks return. A Go `error` that may be nil is an `Option` of it.

A context is read through what the packages ask of it – whether it has
been cancelled, with which error, and with which cause. It is cancelled
once and for ever: a second `cancel` changes nothing.
-/

/-- **An error value**, over a package's codes `κ` and details `δ` and the
errors `ε` of foreign code. -/
inductive Fault (κ δ ε : Type) where
  /-- An error of a callback, a service or the standard library. -/
  | native (cause : ε)
  | canceled
  | eof
  /-- A bare code used as an error, as the causes of cancellations are. -/
  | code (c : κ)
  /-- `errors.Join` of at least one error. -/
  | join (causes : List (Fault κ δ ε))
  /-- A failure occurrence: its code, location, details and causes. -/
  | occurrence (c : κ) (operation name : String) (details : δ)
      (causes : List (Fault κ δ ε))

namespace Fault

variable {κ δ ε : Type}

/-- `failure.NewDetailed`: an occurrence, its nil causes dropped. -/
def new (c : κ) (operation name : String) (details : δ)
    (causes : List (Option (Fault κ δ ε))) : Fault κ δ ε :=
  occurrence c operation name details causes.reduceOption

/-- `errors.Join`: nil when every error is. -/
def joined (causes : List (Option (Fault κ δ ε))) : Option (Fault κ δ ε) :=
  match causes.reduceOption with
  | [] => none
  | errs => some (join errs)

end Fault

/-- How a context ended: `ctx.Err()` and `context.Cause(ctx)`. -/
structure Cancellation (κ δ ε : Type) where
  err : Fault κ δ ε
  cause : Fault κ δ ε

/-- **A context**: live, or cancelled. -/
abbrev Context (κ δ ε : Type) := Option (Cancellation κ δ ε)

namespace Context

variable {κ δ ε : Type}

/-- `ctx.Err()`. -/
def err (ctx : Context κ δ ε) : Option (Fault κ δ ε) := ctx.map (fun c => c.err)

/-- `context.Cause(ctx)`. -/
def cause (ctx : Context κ δ ε) : Option (Fault κ δ ε) := ctx.map (fun c => c.cause)

/-- The cancel function of `context.WithCancelCause`: the first call decides,
and a nil cause stands for `context.Canceled`. -/
def cancel (ctx : Context κ δ ε) (cause : Option (Fault κ δ ε)) : Context κ δ ε :=
  match ctx with
  | some c => some c
  | none => some ⟨Fault.canceled, cause.getD Fault.canceled⟩

end Context

/-! ## Counters

The packages count in `uint64` and refuse to go past the last value. The
increment is Go's, which wraps; that it never does is a theorem. -/

/-- `math.MaxUint64`. -/
def maxUint64 : ℕ := 2 ^ 64 - 1

/-- `counter++` on a `uint64`. -/
def increment (n : ℕ) : ℕ := (n + 1) % 2 ^ 64

/-- Below the last value an increment does not wrap. -/
theorem increment_of_lt {n : ℕ} (h : n < maxUint64) : increment n = n + 1 := by
  unfold increment maxUint64 at *
  exact Nat.mod_eq_of_lt (by omega)
