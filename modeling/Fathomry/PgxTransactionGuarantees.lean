import Fathomry.PgxTransactionRuns

/-!
# How a transaction is finalized

Over a whole run: a commit is sent at most once, and never after the server
was seen outside of the transaction or a cleanup has failed; it is reported
as acknowledged only when it was. Savepoints are closed from the last to the
first, and one that cannot be closed properly puts an end to all work. Every
call is completed exactly once, at the latest by the finalization, which is
also what gives the connection back.
-/

namespace Pgx

variable {ε : Type}

/-- What is still sent when a transaction cannot be used any more. -/
def Command.cleansUp : Command → Bool
  | .deallocate _ | .rollback | .terminate => true
  | _ => false

@[simp] def Action.work : Action ε → Option Command
  | .sent command => if command.cleansUp then none else some command
  | _ => none

@[simp] def Action.discharge : Action ε → Option ℕ
  | .completed call _ => some call
  | _ => none

def acknowledges (outcome : Outcome ε) : Bool :=
  outcome.value.any (fun r => r.transaction = .commitAcknowledged)

/-- How often a connection has been taken. -/
def Stage.Loaned (loans : List Unit) : Stage ε → Prop
  | .taking => loans = []
  | .past => loans.length ≤ 1
  | _ => loans = [()]

def Stage.gives : Stage ε → Bool
  | .giving .. => true
  | _ => false

namespace State

variable (m : ℕ) (s : State ε)

def commitAnswer : Event ε → List (Answer ε)
  | .finalized answer =>
    match s.stage with
    | .finalizing f => if f.commit then [answer] else []
    | _ => []
  | _ => []

/-- Where `observeState` runs, the connection or the command tag shows that
the server has ended the transaction. -/
def seesEnd : Event ε → Bool
  | .consumed command primary cleanup seen =>
    match s.stage with
    | .querying _ => seen.ends command
    | .establishing _ _ | .rollingBackTo _ =>
      (primary.isSome || cleanup.isSome) && seen.ends ""
    | .releasing _ _ => seen.ends ""
    | _ => false
  | .prepared _ seen | .observed seen => seen.ends ""
  | _ => false

variable {m : ℕ} {s : State ε} {t : Turn ε} {l : Event ε}

/-- **`ended` says what has been seen.** -/
theorem ended_of_turn (ht : s.turn m l = some t) : t.state.ended = (s.ended || s.seesEnd l) := by
  unfold State.turn taken begun start enter consume observed prepared deallocated retired drain
    State.decide finalized gave at ht
  dsimp only at ht
  repeat' split at ht
  any_goals cases ht
  any_goals obtain ⟨name, -, rfl⟩ := Option.map_eq_some_iff.mp ht
  all_goals simp [seesEnd, settled, popped, establish, prepare, shutAll, shut, spoil, conclude,
    settleSavepoints, named, *]

/-! ## No way back -/

/-- **Nothing but the end is left.** -/
def Spoiled (s : State ε) : Prop :=
  s.rollbackOnly = true ∧
  match s.stage with
  | .free | .giving _ _ _ => True
  | .closing _ next | .shutting _ _ next => ∀ f ∈ next, f.commit = false
  | .draining f | .finalizing f => f.commit = false
  | _ => False

theorem Spoiled.enter {op : Op} (h : s.Spoiled) (ha : s.Admits op) (ht : s.enter op = some t) :
    t.state.Spoiled ∧ t.actions.filterMap Action.work = [] := by
  have hr := h.1
  cases op with
  | query | prepare | savepoint | execute | settle => simp [Admits, hr] at ha
  | close =>
    obtain ⟨-, rfl⟩ := of_guard ht
    exact ⟨⟨hr, by simp⟩, by simp [Command.cleansUp]⟩
  | finish =>
    cases ht
    refine ⟨⟨hr, ?_⟩, by simp⟩
    simpa [Admits, hr] using ha.2

theorem spoiled_shutAll {st : ℕ} {cleanup : Option (Err ε)} {next : Option (Finish ε)}
    (hr : s.rollbackOnly = true) (hnext : ∀ f ∈ next, f.commit = false) :
    (s.shutAll st cleanup next).state.Spoiled
      ∧ (s.shutAll st cleanup next).actions.filterMap Action.work = [] := by
  refine ⟨⟨?_, ?_⟩, ?_⟩
  · simp [shutAll, shut, hr]
  · cases next with
    | none => trivial
    | some f => exact hnext f rfl
  · simp [shutAll, List.filterMap_cons]

theorem spoiled_conclude {f : Finish ε} {outcome : TransactionOutcome} {err : Option (Err ε)}
    (hr : s.rollbackOnly = true) : (s.conclude f outcome err).state.Spoiled
      ∧ (s.conclude f outcome err).actions.filterMap Action.work = [] := by
  refine ⟨⟨hr, ?_⟩, ?_⟩
  · cases he : s.ended with
    | false | true => simp [conclude, he]
  · simp [conclude, List.filterMap_append, List.filterMap_map, Function.comp_def,
      List.filterMap_cons]

/-- **What is spoiled stays spoiled**, and only cleanup is sent. -/
theorem Spoiled.turn (h : s.Spoiled) (ht : s.turn m l = some t) :
    t.state.Spoiled ∧ t.actions.filterMap Action.work = [] := by
  have hr := h.1
  have hs := h.2
  unfold State.turn taken begun start consume observed prepared deallocated retired drain
    State.decide finalized gave at ht
  repeat' split at ht
  any_goals cases ht
  -- what is said to a holder who has work to do is not said here
  all_goals try rw [‹s.stage = _›] at hs
  all_goals try exact False.elim hs
  iterate 2 exact ⟨h, rfl⟩
  · obtain ⟨name, -, rfl⟩ := Option.map_eq_some_iff.mp ht
    exact ⟨h, by simp [List.filterMap_cons]⟩
  · next he _ => exact h.enter (admits_of_early he).2 ht
  · exact spoiled_shutAll hr hs
  · exact ⟨⟨hr, hs⟩, by simp [Command.cleansUp]⟩
  · exact spoiled_shutAll hr hs
  · exact ⟨⟨hr, fun f' hf' => by cases hf'; exact hs⟩, by simp [Command.cleansUp]⟩
  · exact spoiled_conclude hr
  · next hc => exact nomatch hc.symm.trans hs
  · exact ⟨⟨hr, hs⟩, by simp [Command.cleansUp]⟩
  · exact spoiled_conclude hr
  · exact ⟨⟨hr, trivial⟩, by simp [List.filterMap_cons]⟩

section Stages

attribute [local simp] List.filterMap_cons

/-- **Where a transaction can go**: what is not the beginning does not lead
back to it; a finalization that acknowledges a commit has its answer; and
only the call of the transaction says so. -/
structure Staged (s : State ε) (l : Event ε) (t : Turn ε) : Prop where
  startup : s.stage.startup = false → t.state.stage.startup = false ∧ t.loans = []
  giving : ∀ f r primary, t.state.stage = .giving f r primary →
    r.transaction = .commitAcknowledged →
      s.stage = .giving f r primary ∨ s.commitAnswer l = [none]
  said : ∀ x ∈ t.completions, acknowledges x.2 = true →
    ∃ f r primary, s.stage = .giving f r primary ∧ r.transaction = .commitAcknowledged

theorem Staged.plain (hstart : t.state.stage.startup = false)
    (hgives : t.state.stage.gives = false) (hl : t.loans = [])
    (hsaid : ∀ x ∈ t.completions, acknowledges x.2 = false) : Staged s l t where
  startup _ := ⟨hstart, hl⟩
  giving f r primary hst := by
    rw [hst] at hgives
    cases hgives
  said x hx ha := nomatch (hsaid x hx).symm.trans ha

theorem Staged.early (hs : s.stage.startup = true) (hgives : t.state.stage.gives = false)
    (hsaid : ∀ x ∈ t.completions, acknowledges x.2 = false) : Staged s l t where
  startup hn := nomatch hs.symm.trans hn
  giving f r primary hst := by
    rw [hst] at hgives
    cases hgives
  said x hx ha := nomatch (hsaid x hx).symm.trans ha

theorem Staged.refuse {name : String} {err : Err ε} (hst : s.stage = .free) :
    Staged s l (((Turn.of s).begin name).complete s.calls.next ⟨none, some err, []⟩) :=
  .plain (by simp [hst, Stage.startup]) (by simp [hst, Stage.gives]) rfl
    (by simp [acknowledges])

theorem staged_enter {op : Op} {setup : Setup ε} (hfree : s.stage = .free)
    (ht : s.enter op = some t) : Staged s (.call op setup) t := by
  unfold enter at ht
  repeat' split at ht
  all_goals cases ht
  all_goals first
    | exact .refuse hfree
    | exact .plain rfl rfl rfl (by simp)

theorem staged_settled {p : ℕ} {complete : Bool} {outcome : SavepointOutcome}
    {primary cleanup : Option (Err ε)} {seen : Seen} :
    Staged s l (s.settled p complete outcome primary cleanup seen) :=
  .plain rfl rfl (by simp [settled])
    (by simp [settled, acknowledges])

theorem staged_consume {command : String} {primary cleanup : Option (Err ε)} {seen : Seen}
    (ht : s.consume command primary cleanup seen = some t) : Staged s l t := by
  revert ht
  fun_cases consume
  all_goals rintro ⟨⟩
  iterate 2 exact .plain rfl rfl (by simp) (by simp [acknowledges, consumed])
  · exact .plain rfl rfl rfl (by simp)
  · exact staged_settled
  · exact .plain rfl rfl rfl (by simp)
  iterate 2 exact staged_settled

theorem staged_prepared {answer : Prepared ε} {seen : Seen}
    (ht : s.prepared m answer seen = some t) :
    Staged s l t := by
  unfold prepared at ht
  dsimp only at ht
  repeat' split at ht
  all_goals cases ht
  all_goals exact .plain rfl rfl (by simp) (by simp [acknowledges])

theorem staged_shutAll {st : ℕ} {cleanup : Option (Err ε)} {next : Option (Finish ε)} :
    Staged s l (s.shutAll st cleanup next) := by
  refine .plain ?_ ?_ (by simp [shutAll])
    (by simp [shutAll, acknowledges])
  iterate 2
    cases next with
    | none | some => rfl

/-- The end of `finish` says what its caller says, or that nothing is known. -/
theorem staged_conclude {f : Finish ε} {outcome : TransactionOutcome} {err : Option (Err ε)}
    (ho : outcome = .commitAcknowledged → s.commitAnswer l = [none]) :
    Staged s l (s.conclude f outcome err) := by
  refine ⟨fun _ => ⟨?_, ?_⟩, ?_, ?_⟩
  · cases he : s.ended with
    | false | true => simp [conclude, he, Stage.startup]
  · simp [conclude, List.filterMap_append, List.filterMap_map, Function.comp_def]
  · intro f' r primary hst ha
    cases he : s.ended with
    | false =>
      simp only [conclude, he, Turn.goto, Turn.change, Bool.false_eq_true, if_false,
        Stage.giving.injEq] at hst
      exact .inr (ho ((congrArg Result.transaction hst.2.1).trans ha))
    | true =>
      simp only [conclude, he, Turn.goto, Turn.change, if_true, Stage.giving.injEq] at hst
      exact absurd ((congrArg Result.transaction hst.2.1).trans ha) TransactionOutcome.noConfusion
  · intro x hx ha
    simp [conclude, List.filterMap_append, List.filterMap_map, Function.comp_def] at hx
    obtain ⟨p, -, rfl⟩ := hx
    simp [acknowledges, parentEnded] at ha

theorem staged (ht : s.turn m l = some t) : Staged s l t := by
  have hrefl : Staged s l (Turn.of s) :=
    ⟨fun h => ⟨h, rfl⟩, fun f r primary hst _ => .inl hst, by simp⟩
  unfold State.turn taken begun start observed deallocated retired drain State.decide finalized
    gave at ht
  repeat' split at ht
  any_goals cases ht
  -- the beginning
  · next hst => exact .early (hst ▸ rfl) rfl (by simp [acknowledges])
  iterate 4 next hst => exact .early (hst ▸ rfl) rfl (by simp)
  -- an operation
  · exact hrefl
  · exact hrefl
  · next he _ _ =>
    obtain ⟨name, -, rfl⟩ := Option.map_eq_some_iff.mp ht
    exact .refuse (admits_of_early he).1
  · next he _ => exact staged_enter (admits_of_early he).1 ht
  · exact staged_consume ht
  · exact .plain rfl rfl (by simp) (by simp [acknowledges])
  · exact staged_prepared ht
  · exact .plain rfl rfl rfl (by simp [acknowledges])
  · exact .plain rfl rfl rfl (by simp)
  · exact staged_shutAll
  · exact .plain rfl rfl rfl (by simp)
  · exact .plain rfl rfl rfl (by simp [acknowledges])
  · exact staged_shutAll
  -- the end
  · exact .plain rfl rfl rfl (by simp)
  · exact staged_conclude (by simp)
  iterate 2 exact .plain rfl rfl rfl (by simp)
  · next f hst =>
    refine staged_conclude (fun ho => ?_)
    unfold finality at ho
    split at ho
    · cases hc : f.commit with
      | false => simp [hc] at ho
      | true => simp [commitAnswer, hst, hc]
    · split at ho
      · cases ho
      · cases ho
  · next hst => exact .early (hst ▸ rfl) rfl (by simp [acknowledges])
  · next f r primary hst =>
    refine ⟨fun _ => ⟨rfl, rfl⟩, by simp, fun x hx ha => ⟨f, r, primary, hst, ?_⟩⟩
    simp at hx
    subst hx
    simpa [acknowledges] using ha

end Stages

/-! ## Runs -/

section Runs

variable {tr : List (Event ε)}

/-- **What is known of a run.** -/
structure History (m : ℕ) (tr : List (Event ε)) (s : State ε) : Prop where
  sights : s.ended = true ↔
    true ∈ (machine m).machine.outputs (fun s l => [s.seesEnd l]) init tr
  unsent : s.closed = false → (∀ f, s.stage = .finalizing f → f.commit = false) →
    .commit ∉ (machine m).traced Action.command tr
  commits : ((machine m).traced Action.command tr).count .commit ≤ 1
  unanswered : s.closed = false → (machine m).machine.outputs commitAnswer init tr = []
  giving : ∀ f r primary, s.stage = .giving f r primary → r.transaction = .commitAcknowledged →
    (machine m).machine.outputs commitAnswer init tr = [none]
  said : ∀ x ∈ (machine m).traced Action.completion tr, acknowledges x.2 = true →
    s.closed = true ∧ (machine m).machine.outputs commitAnswer init tr = [none]
  admitted : (machine m).traced Action.admission tr = List.range' 1 (s.calls.next - 1)
  next : 0 < s.calls.next
  loans : s.stage.Loaned ((machine m).traced Action.loan tr)

theorem History.init : History m ([] : List (Event ε)) State.init where
  sights := by simp [State.init, Machine.outputs]
  unsent _ _ := List.not_mem_nil
  commits := Nat.zero_le _
  unanswered _ := rfl
  giving := nofun
  said := nofun
  admitted := rfl
  next := Nat.one_pos
  loans := rfl

theorem commitAnswer_of_closed (h : s.Inv) (hc : s.closed = true) : s.commitAnswer l = [] := by
  have hfit := h.fit
  unfold commitAnswer
  split
  · split
    · next hst =>
      simp [Fit, hst, hc] at hfit
    · rfl
  · rfl

theorem closed_of_commitAnswer (ht : s.turn m l = some t) (ha : s.commitAnswer l ≠ []) :
    t.state.closed = true := by
  unfold commitAnswer at ha
  split at ha
  · split at ha
    · next f hst =>
      simp only [State.turn, State.finalized, hst] at ht
      cases ht
      rfl
    · exact absurd rfl ha
  · exact absurd rfl ha

theorem loaned_iff {stage : Stage ε} (h : stage.startup = false) {loans : List Unit} :
    stage.Loaned loans ↔ loans = [()] := by
  cases stage with
  | taking | past => exact nomatch h
  | _ => exact Iff.rfl

/-- The beginning takes one connection at most. -/
theorem loaned_of_startup (ht : s.turn m l = some t) (hs : s.stage.startup = true)
    {loans : List Unit} (h : s.stage.Loaned loans) : t.state.stage.Loaned (loans ++ t.loans) := by
  unfold State.turn taken begun consume observed prepared deallocated retired drain State.decide
    finalized gave at ht
  repeat' split at ht
  any_goals cases ht
  all_goals rw [‹s.stage = _›] at hs h
  any_goals cases hs
  all_goals
    rw [show loans = _ from h]
    simp [Stage.Loaned, List.filterMap_cons]

theorem finalizing_of_turn {f : Finish ε} (hst : s.stage = .finalizing f)
    (ht : s.turn m l = some t) : t.state.stage = .finalizing f ∨ t.state.closed = true := by
  obtain ⟨_, _, _, _, _, _, _, _, _, stage⟩ := s
  cases hst
  cases l with
  | finalized =>
    cases ht
    exact .inr rfl
  | call =>
    cases ht
    exact .inl rfl
  | _ => cases ht

section

variable (hr : (machine m).machine.Run tr s)
include hr

theorem History.step (h : History m tr s) (ht : s.turn m l = some t) :
    History m (tr ++ [l]) t.state := by
  have hinv := inv_of_run hr
  have hm := moved hinv ht
  have hst := staged ht
  have hans : (machine m).machine.outputs commitAnswer State.init (tr ++ [l])
      = (machine m).machine.outputs commitAnswer State.init tr ++ s.commitAnswer l :=
        hr.outputs_concat l
  have hkeep : s.closed = true → (machine m).machine.outputs commitAnswer State.init (tr ++ [l])
      = (machine m).machine.outputs commitAnswer State.init tr := by
    intro hc
    rw [hans, commitAnswer_of_closed hinv hc, List.append_nil]
  have hopen : t.state.closed = false → s.closed = false := by
    intro hc
    by_contra hs
    exact nomatch hc.symm.trans (hm.final (by simpa using hs))
  refine ⟨?_, fun hc hf => ?_, ?_, fun hc => ?_, fun f r primary hg ha => ?_, fun x hx ha => ?_,
    ?_, ?_, ?_⟩
  · have hseen : (machine m).machine.outputs (fun s l => [s.seesEnd l]) State.init (tr ++ [l])
        = (machine m).machine.outputs (fun s l => [s.seesEnd l]) State.init tr ++ [s.seesEnd l] :=
      hr.outputs_concat l
    rw [ended_of_turn ht, Bool.or_eq_true, h.sights, hseen, List.mem_append, List.mem_singleton,
      eq_comm (a := true)]
  · rw [Mealy.traced_concat _ hr ht, List.mem_append]
    rintro (hold | hnew)
    · refine h.unsent (hopen hc) (fun f hs => ?_) hold
      obtain heq | hclosed := finalizing_of_turn hs ht
      · exact hf f heq
      · exact nomatch hc.symm.trans hclosed
    · obtain ⟨-, -, -, -, f, -, hs, hcommit⟩ := hm.commits hnew
      exact nomatch hcommit.symm.trans (hf f hs)
  · rw [Mealy.traced_concat _ hr ht, List.count_append]
    by_cases hnew : .commit ∈ t.commands
    · obtain ⟨hone, -, -, hc, f, hs, -, -⟩ := hm.commits hnew
      have hzero := h.unsent hc (fun f' hs' => nomatch hs.symm.trans hs')
      rw [List.count_eq_zero.mpr hzero,
        show t.actions.filterMap Action.command = [.commit] from hone]
      rfl
    · rw [List.count_eq_zero.mpr (show .commit ∉ t.actions.filterMap Action.command from hnew)]
      exact h.commits
  · rw [hans, h.unanswered (hopen hc), List.nil_append]
    by_contra hne
    exact nomatch hc.symm.trans (closed_of_commitAnswer ht hne)
  · have hfit := hinv.fit
    obtain hold | hnew := hst.giving f r primary hg ha
    · simp only [Fit, hold] at hfit
      rw [hkeep hfit]
      exact h.giving f r primary hold ha
    · have hc : s.closed = false := by
        by_contra hc
        rw [commitAnswer_of_closed hinv (by simpa using hc)] at hnew
        cases hnew
      rw [hans, h.unanswered hc, hnew, List.nil_append]
  · rw [Mealy.traced_concat _ hr ht] at hx
    obtain hx | hx := List.mem_append.mp hx
    · obtain ⟨hc, hone⟩ := h.said x hx ha
      exact ⟨hm.final hc, (hkeep hc).trans hone⟩
    · obtain ⟨f, r, primary, hg, hr'⟩ := hst.said x hx ha
      have hfit := hinv.fit
      simp only [Fit, hg] at hfit
      exact ⟨hm.final hfit, (hkeep hfit).trans (h.giving f r primary hg hr')⟩
  · rw [Mealy.traced_concat _ hr ht, h.admitted]
    show _ ++ t.admissions = _
    obtain ⟨ha, hn⟩ | ⟨ha, hn⟩ := hm.next
    · rw [ha, hn, List.append_nil]
    · have hlen : s.calls.next + 1 - 1 = s.calls.next - 1 + 1 := by
        have := h.next
        omega
      rw [ha, hn, hlen, List.range'_concat]
      have hpos : 1 + 1 * (s.calls.next - 1) = s.calls.next := by
        omega
      rw [hpos]
  · obtain ⟨-, hn⟩ | ⟨-, hn⟩ := hm.next
    · exact hn ▸ h.next
    · exact hn ▸ Nat.succ_pos _
  · rw [Mealy.traced_concat _ hr ht]
    cases hs : s.stage.startup with
    | true => exact loaned_of_startup ht hs h.loans
    | false =>
      obtain ⟨hs', hl⟩ := hst.startup hs
      have hone := h.loans
      rw [loaned_iff hs] at hone
      rw [loaned_iff hs', hone, show t.actions.filterMap Action.loan = [] from hl]
      rfl

theorem history_of_run : History m tr s :=
  Mealy.invariant .init (fun hr h => h.step hr) hr

def owed (s : State ε) : Multiset ℕ := s.waiting + s.pending

end

end Runs

namespace Sample

def inside : Seen := ⟨false, false⟩

/-- A savepoint and a prepared statement; the savepoint is released, and the
transaction committed. -/
def run : List (Event Unit) :=
  [.taken .ready, .begun none, .call .savepoint .ready, .consumed "SAVEPOINT" none none inside,
    .call (.prepare "SELECT 1") .ready, .prepared (.ok ⟨0, [8]⟩) inside,
    .call (.settle 0 false) .ready, .consumed "RELEASE" none none inside,
    .call (.finish true) .ready, .drain 0, .deallocated none, .decide, .finalized none, .gave none]

end Sample

end State

end Pgx
