import Fathomry.PgxPool
import Mathlib.Data.List.TakeWhile

/-!
# No session is handed on

The life of a connection is a sequence of loans: it is lent, it is reset, and
it is released. Only a loan that ends without a reset is the last one, since
then the connection is retired. `Cycles` is this language, and every status
says where in it a connection is (`Fit`); that a connection which `take`
returns has been reset after its last loan is read off it.
-/

namespace Pgx

namespace Pool

variable {ε : Type}

/-! ## Loans -/

/-- What is done with one connection. -/
inductive Use where
  | lent
  | reset
  | ended
deriving DecidableEq

def Action.use (c : ℕ) : Action ε → Option Use
  | .took _ c' => if c' = c then some .lent else none
  | .discarded c' => if c' = c then some .reset else none
  | .released c' | .retired c' _ => if c' = c then some .ended else none
  | _ => none

def uses (c : ℕ) (log : List (Action ε)) : List Use := log.filterMap (Action.use c)

/-- **Loans that were ended by a reset.** -/
inductive Cycles : List Use → Prop
  | nil : Cycles []
  | loan {u : List Use} (h : Cycles u) : Cycles (u ++ [.lent, .reset, .ended])

/-- A connection that is lent, in the hands of the borrower or of `give`. -/
def Status.isOut : Status ε → Bool
  | .lent | .resetting | .retiring _ => true
  | _ => false

/-- **Where a connection is in its life.** -/
def Fit (u : List Use) : Status ε → Prop
  | .idle | .gated => Cycles u
  | .lent | .resetting | .retiring _ => ∃ v, Cycles v ∧ u = v ++ [.lent]
  | .gone => Cycles u ∨ ∃ v, Cycles v ∧ u = v ++ [.lent, .ended]

variable {u : List Use}

theorem Cycles.clean (h : Cycles u) : u = [] ∨ ∃ v, u = v ++ [.lent, .reset, .ended] := by
  cases h with
  | nil => exact .inl rfl
  | loan => exact .inr ⟨_, rfl⟩

theorem Cycles.count (h : Cycles u) : u.count .lent = u.count .ended := by
  induction h with
  | nil => rfl
  | loan h ih =>
    rw [List.count_append, List.count_append, ih]
    rfl

variable {v w : List Use}

/-- In front of a loan there are others only, and all of them were ended by a
reset. -/
theorem cycles_of_append {y : List Use} (hu : Cycles u)
    (hrec : ∀ {v w}, u = v ++ .lent :: w → Cycles v) (hy : Use.lent ∉ y)
    (h : u ++ .lent :: y = v ++ .lent :: w) : Cycles v := by
  obtain ⟨a, rfl, ha⟩ | ⟨b, rfl, hb⟩ := List.append_eq_append_iff.mp h
  · cases a with
    | nil =>
      rw [List.append_nil]
      exact hu
    | cons =>
      cases ha
      exact absurd (by simp) hy
  · cases b with
    | nil =>
      rw [List.append_nil] at hu
      exact hu
    | cons =>
      cases hb
      exact hrec rfl

theorem Cycles.before (h : Cycles u) (huv : u = v ++ .lent :: w) : Cycles v := by
  induction h generalizing v w with
  | nil => simp at huv
  | loan h ih => exact cycles_of_append h ih (by simp) huv

/-- **Only what has been reset is lent again.** -/
theorem Fit.before {st : Status ε} (h : Fit u st) (huv : u = v ++ .lent :: w) : Cycles v := by
  have hout : (∃ x, Cycles x ∧ u = x ++ [.lent]) → Cycles v := by
    rintro ⟨x, hx, rfl⟩
    exact cycles_of_append hx hx.before List.not_mem_nil huv
  cases st with
  | idle | gated => exact Cycles.before h huv
  | lent | resetting | retiring => exact hout h
  | gone =>
    obtain h | ⟨x, hx, rfl⟩ := h
    · exact h.before huv
    · exact cycles_of_append hx hx.before (by simp) huv

/-- Every loan is ended once, or it is not over. -/
theorem Fit.count {st : Status ε} (h : Fit u st) :
    u.count .lent = u.count .ended + if st.isOut then 1 else 0 := by
  have hout : (∃ v, Cycles v ∧ u = v ++ [.lent]) → u.count .lent = u.count .ended + 1 := by
    rintro ⟨v, hv, rfl⟩
    rw [List.count_append, List.count_append, hv.count]
    rfl
  cases st with
  | idle | gated => exact Cycles.count h
  | lent | resetting | retiring => exact hout h
  | gone =>
    obtain h | ⟨v, hv, rfl⟩ := h
    · exact h.count
    · rw [List.count_append, List.count_append, hv.count]
      rfl

theorem uses_append (c : ℕ) (log more : List (Action ε)) :
    uses c (log ++ more) = uses c log ++ uses c more :=
  List.filterMap_append

/-! ## The gate -/

def Worker.usable : Worker → List ℕ
  | .take _ usable => usable
  | .sweep => []

namespace Gate

def held : Gate ε → List ℕ
  | .sorting w todo _ => todo ++ w.usable
  | .closing w c todo _ => c :: (todo ++ w.usable)
  | .returning _ extra (.took c) => c :: extra
  | .returning _ extra (.failed _) => extra
  | _ => []

def passed : Gate ε → Option ℕ
  | .acquiring k | .creating k | .created k | .returning k _ _ => some k
  | .sorting (.take k _) _ _ | .closing (.take k _) _ _ _ => some k
  | _ => none

end Gate

def Action.taker : Action ε → Option ℕ
  | .took k _ => some k
  | _ => none

def Action.starter : Action ε → Option ℕ
  | .started k => some k
  | _ => none

def Action.isSealed : Action ε → Bool
  | .sealed => true
  | _ => false

/-- The calls of `take` that begin when the pool is sealed. -/
def late (log : List (Action ε)) : List ℕ :=
  (log.dropWhile (fun a => !a.isSealed)).filterMap Action.starter

namespace State

variable {s : State ε} {t : Turn ε} {l : Event ε} {log : List (Action ε)} {m : Bool}

/-- **The invariant.** -/
structure Inv (log : List (Action ε)) (s : State ε) : Prop where
  fit : ∀ c, Fit (uses c log) (s.conns.cell c)
  fresh : ∀ c, s.conns.next ≤ c → s.conns.cell c = .gone ∧ uses c log = []
  held : ∀ c, s.conns.cell c = .gated ↔ c ∈ s.gate.held
  nodup : s.gate.held.Nodup

variable {g : Gate ε} {more : List (Action ε)}

theorem Inv.regate (h : s.Inv log) {g' : Gate ε} {takes : ℕ} {waiting : List ℕ} {shut m st n : Bool}
    {errors : List (Err ε)} (hg : s.gate = g) (hheld : g'.held.Perm g.held)
    (huse : ∀ c, uses c more = []) :
    (State.mk s.conns takes waiting g' shut errors m st n).Inv (log ++ more) := by
  have hu : ∀ c, uses c (log ++ more) = uses c log := fun c => by
    rw [uses_append, huse, List.append_nil]
  rw [← hg] at hheld
  refine ⟨?_, ?_, ?_, hheld.nodup_iff.mpr h.nodup⟩
  · intro c
    rw [hu]
    exact h.fit c
  · intro c hc
    rw [hu]
    exact h.fresh c hc
  · intro c
    rw [hheld.mem_iff]
    exact h.held c

theorem cell_set (conns : Heap (Status ε)) (c c' : ℕ) (st : Status ε) :
    (conns.set c st).cell c' = if c' = c then st else conns.cell c' := by
  split_ifs with hc
  · rw [hc]
    exact conns.cell_set_self c st
  · exact conns.cell_set_of_ne st hc

variable {s' : State ε} {c : ℕ} {st : Status ε}

section

variable (h : s.Inv log)
include h

/-- **Something happens to one connection**, which is and stays one of the
pool. -/
theorem Inv.mark (hconns : s'.conns = s.conns.set c st) (hold : s.conns.cell c ≠ .gone)
    (hfit : ∀ u, Fit u (s.conns.cell c) → Fit (u ++ uses c more) st)
    (huse : ∀ c' ≠ c, uses c' more = [])
    (hheld : ∀ c', (if c' = c then st else s.conns.cell c') = .gated ↔ c' ∈ s'.gate.held)
    (hnodup : s'.gate.held.Nodup) : s'.Inv (log ++ more) := by
  have hlt : c < s.conns.next := by
    by_contra hc
    exact hold (h.fresh c (not_lt.mp hc)).1
  refine ⟨?_, ?_, ?_, hnodup⟩
  · intro c'
    rw [hconns, cell_set, uses_append]
    split
    · next hc =>
      rw [hc]
      exact hfit _ (h.fit c)
    · next hc =>
      rw [huse c' hc, List.append_nil]
      exact h.fit c'
  · intro c' hc'
    rw [hconns] at hc' ⊢
    have hne : c' ≠ c := fun he => absurd (he ▸ hc') (not_le.mpr hlt)
    rw [cell_set, if_neg hne, uses_append, huse c' hne, List.append_nil]
    exact h.fresh c' hc'
  · intro c'
    rw [hconns, cell_set]
    exact hheld c'

theorem Inv.leave (hconns : s'.conns = s.conns.set c st) (hst : st ≠ .gated)
    (hperm : s.gate.held.Perm (c :: s'.gate.held))
    (hfit : ∀ u, Cycles u → Fit (u ++ uses c more) st) (huse : ∀ c' ≠ c, uses c' more = []) :
    s'.Inv (log ++ more) := by
  have hgated : s.conns.cell c = .gated := (h.held c).mpr (hperm.mem_iff.mpr (.head _))
  obtain ⟨hnot, hnodup⟩ := List.nodup_cons.mp (hperm.nodup_iff.mp h.nodup)
  refine h.mark hconns (by rw [hgated]; nofun) ?_ huse (fun c' => ?_) hnodup
  · intro u hu
    rw [hgated] at hu
    exact hfit u hu
  · split
    · next hc => exact ⟨fun he => absurd he hst, fun hm => absurd (hc ▸ hm) hnot⟩
    · next hc =>
      rw [h.held, hperm.mem_iff, List.mem_cons]
      exact ⟨fun hm => hm.resolve_left hc, .inr⟩

theorem Inv.drop (hconns : s'.conns = s.conns.set c st) (hst : st ≠ .gated)
    (hperm : s.gate.held.Perm (c :: s'.gate.held)) (hfit : ∀ u, Cycles u → Fit u st) :
    s'.Inv (log ++ []) := by
  refine h.leave hconns hst hperm (fun u hu => ?_) (fun _ _ => rfl)
  rw [show uses c ([] : List (Action ε)) = [] from rfl, List.append_nil]
  exact hfit u hu

/-- **Something happens to a connection that is lent.** -/
theorem Inv.serve (hconns : s'.conns = s.conns.set c st) (hgate : s'.gate = s.gate)
    (hold : (s.conns.cell c).isOut = true) (hst : st ≠ .gated)
    (hfit : ∀ u, Cycles u → Fit (u ++ [.lent] ++ uses c more) st)
    (huse : ∀ c' ≠ c, uses c' more = []) : s'.Inv (log ++ more) := by
  have hne : s.conns.cell c ≠ .gated := fun he => by simp [he, Status.isOut] at hold
  refine h.mark hconns (fun he => by simp [he, Status.isOut] at hold) ?_ huse (fun c' => ?_)
    (hgate ▸ h.nodup)
  · intro u hu
    obtain ⟨v, hv, rfl⟩ : ∃ v, Cycles v ∧ u = v ++ [.lent] := by
      cases hc : s.conns.cell c
      all_goals simp_all [Fit, Status.isOut]
    exact hfit v hv
  · rw [hgate, ← h.held c']
    split
    · next hc =>
      rw [hc]
      exact ⟨fun he => absurd he hst, fun he => absurd he hne⟩
    · exact Iff.rfl

/-- **Idle connections come to the gate.** -/
theorem Inv.acquire (handles : List ℕ) (hav : s.available handles = true)
    (hconns : s'.conns = (s.acquire handles).conns) (hgate : s.gate.held = [])
    (hheld : s'.gate.held = handles) : s'.Inv (log ++ []) := by
  simp only [available, Bool.and_eq_true, decide_eq_true_eq, List.all_eq_true] at hav
  have hidle : ∀ c ∈ handles, s.conns.cell c = .idle := fun c hc => by
    have := hav.2 c hc
    cases hs : s.conns.cell c
    all_goals simp_all [Status.isIdle]
  rw [List.append_nil]
  refine ⟨?_, ?_, ?_, hheld ▸ hav.1⟩
  · intro c
    rw [hconns]
    show Fit _ (if c ∈ handles then .gated else s.conns.cell c)
    have hfit := h.fit c
    split
    · next hc =>
      rw [hidle c hc] at hfit
      exact hfit
    · exact hfit
  · intro c hc
    rw [hconns] at hc ⊢
    obtain ⟨hgone, hu⟩ := h.fresh c hc
    refine ⟨?_, hu⟩
    show (if c ∈ handles then _ else s.conns.cell c) = _
    rw [if_neg (fun hm => by rw [hidle c hm] at hgone; exact absurd hgone nofun)]
    exact hgone
  · intro c
    rw [hconns, hheld]
    show (if c ∈ handles then _ else s.conns.cell c) = _ ↔ _
    have hnone : ¬ s.conns.cell c = .gated := by
      rw [h.held, hgate]
      exact List.not_mem_nil
    split
    · next hc => exact ⟨fun _ => hc, fun _ => rfl⟩
    · next hc => exact ⟨fun he => absurd he hnone, fun hm => absurd hm hc⟩

/-- **A connection is created**, and it is idle. -/
theorem Inv.alloc (hconns : s'.conns = s.conns.alloc .idle) (hgate : s'.gate.held = s.gate.held)
    (huse : ∀ c, uses c more = []) : s'.Inv (log ++ more) := by
  have hu : ∀ c, uses c (log ++ more) = uses c log := fun c => by
    rw [uses_append, huse, List.append_nil]
  obtain ⟨hgone, hnil⟩ := h.fresh s.conns.next le_rfl
  have hcell := s.conns.cell_alloc .idle
  refine ⟨?_, ?_, ?_, hgate ▸ h.nodup⟩
  · intro c
    rw [hconns, hcell, hu]
    split
    · next hc =>
      rw [hc, hnil]
      exact Cycles.nil
    · exact h.fit c
  · intro c hc
    rw [hconns, Heap.next_alloc] at hc
    rw [hconns, hcell, if_neg (by omega), hu]
    exact h.fresh c (by omega)
  · intro c
    rw [hconns, hcell, hgate, ← h.held c]
    split
    · next hc =>
      rw [hc, hgone]
      exact ⟨fun he => absurd he nofun, fun he => absurd he nofun⟩
    · exact Iff.rfl

theorem Inv.closeNative (ht : s.closeNative = some t) : t.state.Inv (log ++ t.actions) := by
  obtain ⟨-, rfl⟩ := of_guard_not ht
  rw [List.append_nil]
  refine ⟨fun c => ?_, fun c hc => ?_, fun c => ?_, h.nodup⟩
  · show Fit _ (if (s.conns.cell c).isIdle then .gone else s.conns.cell c)
    have hfit := h.fit c
    cases hs : s.conns.cell c
    case idle =>
      rw [hs] at hfit
      exact .inl hfit
    all_goals
      rw [hs] at hfit
      exact hfit
  · obtain ⟨hgone, hnil⟩ := h.fresh c hc
    refine ⟨?_, hnil⟩
    show (if (s.conns.cell c).isIdle then _ else s.conns.cell c) = _
    rw [hgone]
    rfl
  · show (if (s.conns.cell c).isIdle then _ else s.conns.cell c) = _ ↔ c ∈ s.gate.held
    rw [← h.held c]
    cases s.conns.cell c
    all_goals simp [Status.isIdle]

/-! ## Steps -/

omit h in
theorem fit_free {u : List Use} (h : Cycles u) :
    Fit u (if s.nativeClosed then .gone else .idle : Status ε) := by
  split
  · exact .inl h
  · exact h

omit h in
theorem free_ne_gated : (if s.nativeClosed then .gone else .idle : Status ε) ≠ .gated := by
  split
  · nofun
  · nofun

theorem Inv.refuse (hg : s.gate = g) (hnil : g.held = []) (k : ℕ) (err : Err ε) :
    (s.refuse k err).state.Inv (log ++ (s.refuse k err).actions) :=
  h.regate hg (hnil ▸ .refl _) (fun _ => rfl)

theorem Inv.choose {handles : List ℕ} (hg : s.gate = g) (hheld : g.held = handles) (k : ℕ) :
    (s.choose k handles).state.Inv (log ++ (s.choose k handles).actions) := by
  cases handles with
  | nil => exact h.refuse hg hheld k _
  | cons => exact h.regate hg (hheld ▸ .refl _) (fun _ => rfl)

theorem Inv.acquireAllIdle {handles : List ℕ} (ht : s.acquireAllIdle handles = some t) :
    t.state.Inv (log ++ t.actions) := by
  obtain ⟨hav, ht⟩ := Option.ite_none_left_eq_some.mp ht
  have hav : s.available handles = true := by simpa using hav
  split at ht
  all_goals cases ht
  · next k hg =>
    refine h.acquire handles hav rfl (by rw [hg]; rfl) ?_
    simp [State.goto, Gate.held, Worker.usable]
  · next k hg =>
    have hall : ((s.acquire handles).goto (.sorting .sweep handles [])).Inv (log ++ []) := by
      refine h.acquire handles hav rfl (by rw [hg]; rfl) ?_
      simp [State.goto, Gate.held, Worker.usable]
    rw [List.append_nil] at hall
    have hnext := hall.choose rfl (show handles ++ [] = handles from List.append_nil _) k
    cases handles
    all_goals exact hnext

theorem Inv.look {expired : Bool} (ht : s.look expired = some t) :
    t.state.Inv (log ++ t.actions) := by
  revert ht
  fun_cases State.look
  all_goals rintro ⟨⟩
  · next hg _ => exact h.regate hg (.refl _) (fun _ => rfl)
  · next c todo failures _ k usable hg =>
    refine h.regate hg ?_ (fun _ => rfl)
    show (todo ++ (usable ++ [c])).Perm (c :: (todo ++ usable))
    rw [← List.append_assoc]
    exact List.perm_append_singleton c _
  · next hg =>
    refine h.drop rfl free_ne_gated ?_ (fun u => fit_free)
    rw [hg]
    exact List.Perm.refl _

end

variable {err : Option (Err ε)}

section

variable (h : s.Inv log)
include h

theorem Inv.closed (ht : s.closed err = some t) : t.state.Inv (log ++ t.actions) := by
  revert ht
  fun_cases State.closed
  all_goals rintro ⟨⟩
  next hg =>
  refine h.drop rfl nofun ?_ (fun u => .inl)
  rw [hg]
  exact List.Perm.refl _

theorem Inv.sorted {w : Worker} {failures : List (Option (Err ε))}
    (hg : s.gate = .sorting w [] failures) :
    (s.sorted w err).state.Inv (log ++ (s.sorted w err).actions) := by
  unfold State.sorted
  split
  · exact h.regate hg (.refl _) (fun _ => rfl)
  · next k usable =>
    split
    · next he =>
      obtain rfl := List.isEmpty_iff.mp he
      exact h.regate hg (.refl _) (fun _ => rfl)
    · exact h.choose hg rfl k
  all_goals exact h.regate hg (.refl _) (fun _ => rfl)

theorem Inv.proceed (ht : s.proceed = some t) : t.state.Inv (log ++ t.actions) := by
  revert ht
  fun_cases State.proceed
  all_goals rintro ⟨⟩
  · next hg => exact h.sorted hg
  · next k c extra result hg =>
    refine h.drop rfl free_ne_gated ?_ (fun u => fit_free)
    rw [hg]
    cases result with
    | took c' => exact List.Perm.swap c c' extra
    | failed => exact List.Perm.refl _
  · next k result hg =>
    cases result with
    | took =>
      refine h.leave rfl nofun ?_ (fun u hu => ?_) (fun c' hc' => ?_)
      · rw [hg]
        exact List.Perm.refl _
      · exact ⟨u, hu, by simp [State.finish, uses, Action.use]⟩
      · simp [State.finish, uses, Action.use, Ne.symm hc']
    | failed => exact h.regate hg (.refl _) (fun _ => rfl)

theorem Inv.createResource {answer : Answer ε} (ht : s.createResource answer = some t) :
    t.state.Inv (log ++ t.actions) := by
  revert ht
  fun_cases State.createResource
  all_goals rintro ⟨⟩
  · next hg => exact h.refuse hg rfl _ _
  · next hg _ => exact h.alloc rfl (by rw [hg]; rfl) (fun _ => rfl)

theorem Inv.give {expired isClosed isBusy : Bool} {txStatus : Char}
    (ht : s.give c expired isClosed isBusy txStatus = some t) : t.state.Inv (log ++ t.actions) := by
  obtain ⟨hl, ht⟩ := Option.ite_none_left_eq_some.mp ht
  have hout : (s.conns.cell c).isOut = true := by
    cases hs : s.conns.cell c
    all_goals simp_all [Status.isLent, Status.isOut]
  have hsame : ∀ u, u ++ [Use.lent] ++ uses c ([] : List (Action ε)) = u ++ [.lent] :=
    fun u => List.append_nil _
  split at ht
  all_goals
    cases ht
    exact h.serve rfl rfl hout nofun (fun u hu => ⟨u, hu, hsame u⟩) (fun _ _ => rfl)

theorem Inv.reset {primary cleanup : Option (Err ε)} {isClosed : Bool} {txStatus : Char}
    (ht : s.reset c primary cleanup isClosed txStatus = some t) :
    t.state.Inv (log ++ t.actions) := by
  obtain ⟨hl, ht⟩ := Option.ite_none_left_eq_some.mp ht
  have hout : (s.conns.cell c).isOut = true := by
    cases hs : s.conns.cell c
    all_goals simp_all [Status.isResetting, Status.isOut]
  split at ht
  · cases ht
    refine h.serve rfl rfl hout free_ne_gated (fun u hu => ?_) (fun c' hc' => ?_)
    · have hloan : u ++ [.lent] ++ uses c [.discarded c, (.released c : Action ε)]
          = u ++ [.lent, .reset, .ended] := by
        simp [uses, Action.use]
      rw [hloan]
      exact fit_free hu.loan
    · simp [uses, Action.use, Ne.symm hc']
  · cases ht
    exact h.serve rfl rfl hout nofun (fun u hu => ⟨u, hu, List.append_nil _⟩) (fun _ _ => rfl)

theorem Inv.withdraw (ht : s.withdraw c err = some t) : t.state.Inv (log ++ t.actions) := by
  have hretired : ∀ e : Option (Err ε), (s.conns.cell c).isOut = true →
      (s.mark c .gone).Inv (log ++ [.retired c e]) := by
    intro e hout
    refine h.serve rfl rfl hout nofun (fun u hu => .inr ⟨u, hu, ?_⟩) (fun c' hc' => ?_)
    · simp [uses, Action.use]
    · simp [uses, Action.use, Ne.symm hc']
  revert ht
  fun_cases State.withdraw
  all_goals rintro ⟨⟩
  iterate 2 next hs => exact hretired _ (by rw [hs]; rfl)

theorem Inv.turn (ht : s.turn l = some t) : t.state.Inv (log ++ t.actions) := by
  revert ht
  fun_cases State.turn
  all_goals intro ht
  any_goals cases ht
  iterate 2 exact h.regate rfl (.refl _) (fun _ => rfl)
  · next hg _ =>
    unfold State.enter
    repeat' split
    all_goals exact h.regate hg (.refl _) (fun _ => rfl)
  · exact h.acquireAllIdle ht
  · exact h.look ht
  · exact h.closed ht
  · exact h.proceed ht
  · exact h.createResource ht
  · next handles =>
    revert ht
    fun_cases State.sweep
    all_goals rintro ⟨⟩
    next hg hok =>
    refine h.acquire handles ?_ rfl (by rw [hg]; rfl) ?_
    · simp only [Bool.or_eq_true, not_or] at hok
      simpa using hok.2
    · simp [State.goto, Gate.held, Worker.usable]
  · exact h.regate rfl (.refl _) (fun _ => rfl)
  · exact h.give ht
  · exact h.reset ht
  · exact h.withdraw ht
  · exact h.regate rfl (.refl _) (fun _ => rfl)
  · exact h.closeNative ht
  · exact h.regate rfl (.refl _) (fun _ => rfl)

end

/-! ## A pool that is sealed -/

theorem mem_late_append {k : ℕ} (h : k ∈ late (log ++ more)) :
    k ∈ late log ∨ k ∈ more.filterMap Action.starter := by
  unfold late at h ⊢
  rw [List.dropWhile_append] at h
  split at h
  · right
    obtain ⟨a, ha, hk⟩ := List.mem_filterMap.mp h
    exact List.mem_filterMap.mpr ⟨a, (List.dropWhile_sublist _).subset ha, hk⟩
  · rw [List.filterMap_append] at h
    exact List.mem_append.mp h

theorem late_eq_nil (h : ∀ a ∈ log, a.isSealed = false) : late log = [] := by
  have hall : log.dropWhile (fun a => !a.isSealed) = [] := by
    rw [List.dropWhile_eq_nil_iff]
    intro a ha
    rw [h a ha]
    rfl
  rw [late, hall]
  rfl

/-- **The calls of `take` that get through** began before the pool was
sealed. -/
structure Timely (log : List (Action ε)) (s : State ε) : Prop where
  flag : s.sealed = false → ∀ a ∈ log, a.isSealed = false
  passed : ∀ k ∈ s.gate.passed, k < s.takes ∧ k ∉ late log
  takers : ∀ k ∈ log.filterMap Action.taker, k < s.takes ∧ k ∉ late log
  waiting : ∀ k ∈ s.waiting, k < s.takes

section

variable (h : s.Timely log)
include h

/-- A step in which no `take` begins or gets through the gate. -/
theorem Timely.keep
    (hsealed : s'.sealed = false → s.sealed = false ∧ ∀ a ∈ more, a.isSealed = false)
    (hpassed : ∀ k ∈ s'.gate.passed, k ∈ s.gate.passed) (htakes : s'.takes = s.takes)
    (hwaiting : ∀ k ∈ s'.waiting, k ∈ s.waiting) (hstart : more.filterMap Action.starter = [])
    (htook : ∀ k ∈ more.filterMap Action.taker, k ∈ s.gate.passed) : s'.Timely (log ++ more) := by
  have hlate : ∀ k, k ∈ late (log ++ more) → k ∈ late log := fun k hk => by
    have := mem_late_append hk
    rw [hstart] at this
    simpa using this
  refine ⟨?_, ?_, ?_, ?_⟩
  · intro hs a ha
    obtain ⟨hs, hmore⟩ := hsealed hs
    exact (List.mem_append.mp ha).elim (h.flag hs a) (hmore a)
  · intro k hk
    rw [htakes]
    exact (h.passed k (hpassed k hk)).imp_right (fun hn hm => hn (hlate k hm))
  · intro k hk
    rw [List.filterMap_append] at hk
    rw [htakes]
    have hold : k < s.takes ∧ k ∉ late log :=
      (List.mem_append.mp hk).elim (h.takers k) (fun hk => h.passed k (htook k hk))
    exact hold.imp_right (fun hn hm => hn (hlate k hm))
  · intro k hk
    rw [htakes]
    exact h.waiting k (hwaiting k hk)

/-- At the gate, it is always the same call of `take`. -/
theorem Timely.gated {conns : Heap (Status ε)} {g' : Gate ε} {m st n : Bool} {errors : List (Err ε)}
    (hg : s.gate = g) (hpassed : ∀ k ∈ g'.passed, k ∈ g.passed)
    (hmore : ∀ a ∈ more, a.isSealed = false ∧ a.starter = none)
    (htook : ∀ k ∈ more.filterMap Action.taker, k ∈ s.gate.passed) :
    (State.mk conns s.takes s.waiting g' s.sealed errors m st n).Timely (log ++ more) :=
  h.keep (fun hs => ⟨hs, fun a ha => (hmore a ha).1⟩) (fun k hk => hg ▸ hpassed k hk) rfl
    (fun _ hk => hk) (List.filterMap_eq_nil_iff.mpr (fun a ha => (hmore a ha).2)) htook

/-- What is chosen, or that nothing is, has been decided by the call at the
gate. -/
theorem Timely.choose {k : ℕ} (hk : k ∈ s.gate.passed) (handles : List ℕ) :
    (s.choose k handles).state.Timely (log ++ (s.choose k handles).actions) := by
  cases handles with
  | nil =>
    exact h.gated rfl nofun (by simp [State.choose, refuse, Action.isSealed, Action.starter]) nofun
  | cons =>
    refine h.gated rfl (fun j hj => ?_) nofun nofun
    cases hj
    exact hk

theorem Timely.sorted {w : Worker} {failures : List (Option (Err ε))}
    (hg : s.gate = .sorting w [] failures) (err : Option (Err ε)) :
    (s.sorted w err).state.Timely (log ++ (s.sorted w err).actions) := by
  unfold State.sorted
  split
  · exact h.gated hg (fun _ hj => hj) nofun nofun
  · split
    · exact h.gated hg (fun _ hj => hj) nofun nofun
    · exact h.choose (by rw [hg]; rfl) _
  · exact h.keep nofun nofun rfl (fun _ hk => hk) rfl nofun
  · exact h.gated rfl nofun nofun nofun

theorem Timely.proceed (ht : s.proceed = some t) : t.state.Timely (log ++ t.actions) := by
  revert ht
  fun_cases State.proceed
  all_goals rintro ⟨⟩
  · next hg => exact h.sorted hg _
  · next hg => exact h.gated hg (fun _ hj => hj) nofun nofun
  · next k result hg =>
    cases result with
    | took =>
      refine h.gated rfl nofun (by simp [finish, Action.isSealed, Action.starter]) (fun j hj => ?_)
      obtain rfl : j = k := by simpa [finish, Action.taker] using hj
      rw [hg]
      rfl
    | failed => exact h.keep nofun nofun rfl (fun _ hk => hk) rfl nofun

theorem Timely.turn (ht : s.turn l = some t) : t.state.Timely (log ++ t.actions) := by
  unfold State.turn acquireAllIdle look closed createResource sweep give reset withdraw
    closeNative at ht
  repeat' split at ht
  any_goals cases ht
  · have hlate : ∀ k, k < s.takes → k ∈ late (log ++ [.started s.takes]) → k ∈ late log := by
      intro k hk hm
      refine (mem_late_append hm).resolve_right (fun hm => ?_)
      obtain rfl : k = s.takes := by simpa [Action.starter] using hm
      exact lt_irrefl _ hk
    refine ⟨?_, ?_, ?_, ?_⟩
    · intro hs a ha
      obtain ha | ha := List.mem_append.mp ha
      · exact h.flag hs a ha
      · obtain rfl := List.mem_singleton.mp ha
        rfl
    · intro k hk
      obtain ⟨hlt, hn⟩ := h.passed k hk
      exact ⟨hlt.trans (Nat.lt_add_one _), fun hm => hn (hlate k hlt hm)⟩
    · intro k hk
      obtain ⟨hlt, hn⟩ := h.takers k (by simpa [Action.taker] using hk)
      exact ⟨hlt.trans (Nat.lt_add_one _), fun hm => hn (hlate k hlt hm)⟩
    · intro k hk
      obtain hk | hk := List.mem_append.mp hk
      · exact (h.waiting k hk).trans (Nat.lt_add_one _)
      · obtain rfl := List.mem_singleton.mp hk
        exact Nat.lt_add_one _
  · exact h.keep (fun hs => ⟨hs, by simp [Action.isSealed]⟩) (fun _ hk => hk) rfl
      (fun _ => List.mem_of_mem_erase) rfl nofun
  · next k _ _ _ hk =>
    have hout : ∀ err : Err ε,
        (({ s with waiting := s.waiting.erase k } : State ε).refuse k err).state.Timely
          (log ++ [.refused k err]) := fun err =>
      h.keep (fun hs => ⟨hs, by simp [Action.isSealed]⟩) nofun rfl
        (fun _ => List.mem_of_mem_erase) rfl nofun
    unfold State.enter
    split
    · exact hout _
    split
    · exact hout _
    next hs =>
    -- the pool is not sealed, so no call is late
    have hs : s.sealed = false := by simpa using hs
    rw [List.append_nil]
    refine ⟨h.flag, ?_, h.takers, fun k hk => h.waiting k (List.mem_of_mem_erase hk)⟩
    intro j hj
    cases hj
    rw [late_eq_nil (h.flag hs)]
    exact ⟨h.waiting k (by simpa using hk), List.not_mem_nil⟩
  -- `AcquireAllIdle`
  · next hg => exact h.gated hg (fun _ hj => hj) nofun nofun
  · next handles _ _ k hg =>
    have hacq : (s.acquire handles).Timely log := { h with }
    exact hacq.choose (by show k ∈ s.gate.passed; rw [hg]; rfl) handles
  -- sorting
  · next w _ _ _ hg _ =>
    refine h.gated hg (fun j hj => ?_) nofun nofun
    cases w
    all_goals exact hj
  · next hg => exact h.gated hg (fun _ hj => hj) nofun nofun
  · exact h.gated rfl nofun nofun nofun
  · next w _ _ _ hg =>
    refine h.gated hg (fun j hj => ?_) nofun nofun
    cases w
    all_goals exact hj
  · exact h.proceed ht
  · exact h.gated rfl nofun (by simp [refuse, Action.isSealed, Action.starter]) nofun
  · next hg _ _ =>
    exact h.gated hg (fun _ hj => hj) (by simp [Action.isSealed, Action.starter]) nofun
  · exact h.gated rfl nofun nofun nofun
  · exact h.gated rfl (fun _ hj => hj) nofun nofun
  -- giving back
  iterate 2 exact h.gated rfl (fun _ hj => hj) nofun nofun
  · exact h.gated rfl (fun _ hj => hj) (by simp [Action.isSealed, Action.starter])
      (by simp [Action.taker])
  · exact h.gated rfl (fun _ hj => hj) nofun nofun
  iterate 2
    exact h.gated rfl (fun _ hj => hj) (by simp [Action.isSealed, Action.starter])
      (by simp [Action.taker])
  · exact h.keep nofun (fun _ hk => hk) rfl (fun _ hk => hk) rfl nofun
  iterate 2 exact h.gated rfl (fun _ hj => hj) nofun nofun

end

/-! ## Runs -/

theorem inv_of_run {tr : List (Event ε)} (hr : (machine m).machine.Run tr s) :
    s.Inv ((machine m).log tr) ∧ s.Timely ((machine m).log tr) := by
  refine Mealy.log_invariant (I := fun log s => s.Inv log ∧ s.Timely log) ⟨?_, ?_⟩
    (fun h ht => ⟨h.1.turn ht, h.2.turn ht⟩) hr
  · refine ⟨fun c => .inl Cycles.nil, fun c _ => ⟨rfl, rfl⟩, fun c => ?_, List.nodup_nil⟩
    exact ⟨fun he => absurd he nofun, nofun⟩
  · exact ⟨nofun, nofun, nofun, nofun⟩

def sampleRun : List (Event Unit) :=
  [.start, .enter 0 none, .acquireAllIdle [], .proceed, .createResource none,
    .acquireAllIdle [0], .proceed, .give 0 false false false 'I', .reset 0 none none false 'I',
    .start, .enter 1 none, .acquireAllIdle [0], .look false, .proceed, .proceed]

end State

end Pool

end Pgx
