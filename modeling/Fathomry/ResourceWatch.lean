import Fathomry.Failure
import Fathomry.Mealy
import Mathlib.Data.List.Basic

/-!
# Watching settings

A watch takes settings from a channel, applies them, and keeps **one** report for
whoever calls `Next`: a newer report takes the place of one that nobody has fetched,
and counts it as skipped. The goroutine and its callers meet at a mutex, so a step
of the machine is what one of them does with the mutex, or outside of it.

What adds up is the number of the last report that was published. Between two calls
of `Next` it grows by one with every report, and so does the count of the report
that waits; the watch stops – with its sequence one ahead – as soon as a report is
not published, so there is no gap that nobody counts (`Track`).
-/

namespace Resource.Watch

variable {ε U : Type}

structure Observation (ε U : Type) where
  sequence : ℕ
  skipped : ℕ
  update : U
  err : Option ε

inductive Terminal where
  | cancelled
  | eof
  | limit
  deriving DecidableEq

inductive Stage (ε U : Type) where
  /-- At the head of the loop. -/
  | top
  | selecting
  | applying
  | publishing (value : Observation ε U)
  | ending (terminal : Terminal)
  | over

structure State (ε U : Type) where
  stage : Stage ε U := .top
  sequence : ℕ := 0
  ended : Bool := false
  pending : Option (Observation ε U) := none
  terminal : Option Terminal := none

inductive Event (ε U : Type) where
  /-- The context ends: by its parent, or by `Close`. -/
  | cancel
  | check
  | done
  /-- Settings, or the end of the channel. -/
  | receive (isOpen : Bool)
  | applied (update : U) (err : Option ε)
  | publish
  | finish
  | next

inductive Action (ε U : Type) where
  | published (value : Observation ε U)
  | returned (value : Observation ε U)
  | refused (terminal : Terminal)

abbrev Turn (ε U : Type) := Reaction (State ε U) (Action ε U)

namespace State

variable (s : State ε U)

/-- `publish`: a report that nobody has fetched is counted. -/
def publish (value : Observation ε U) : Observation ε U :=
  match s.pending with
  | some old => { value with
      skipped := if old.skipped < maxUint64 then old.skipped + 1 else old.skipped }
  | none => value

def turn : Event ε U → Option (Turn ε U)
  | .cancel => some ⟨{ s with ended := true }, []⟩
  | .check =>
    match s.stage with
    | .top =>
      if s.ended then some ⟨{ s with stage := .over, terminal := some .cancelled }, []⟩
      else some ⟨{ s with stage := .selecting }, []⟩
    | _ => none
  | .done =>
    match s.stage, s.ended with
    | .selecting, true => some ⟨{ s with stage := .ending .cancelled }, []⟩
    | _, _ => none
  | .receive isOpen =>
    match s.stage with
    | .selecting =>
      if isOpen = false then some ⟨{ s with stage := .ending .eof }, []⟩
      else if s.sequence = maxUint64 then some ⟨{ s with stage := .ending .limit }, []⟩
      else some ⟨{ s with stage := .applying, sequence := s.sequence + 1 }, []⟩
    | _ => none
  | .applied update err =>
    match s.stage with
    | .applying =>
      if s.ended then some ⟨{ s with stage := .top }, []⟩
      else some ⟨{ s with stage := .publishing ⟨s.sequence, 0, update, err⟩ }, []⟩
    | _ => none
  | .publish =>
    match s.stage with
    | .publishing value =>
      some ⟨{ s with stage := .top, pending := some (s.publish value) },
        [.published (s.publish value)]⟩
    | _ => none
  | .finish =>
    match s.stage with
    | .ending terminal => some ⟨{ s with stage := .over, terminal := some terminal }, []⟩
    | _ => none
  | .next =>
    match s.pending, s.terminal with
    | some value, _ => some ⟨{ s with pending := none }, [.returned value]⟩
    | none, some terminal => some ⟨s, [.refused terminal]⟩
    | none, none => none

end State

def machine (ε U : Type) : Mealy (State ε U) (Event ε U) (Action ε U) := ⟨{}, State.turn⟩

/-! ## What adds up -/

/-- The sequences of the reports that were published, or that were returned. -/
def Action.publication : Action ε U → Option ℕ
  | .published value => some value.sequence
  | _ => none

def Action.report : Action ε U → Option (Observation ε U)
  | .returned value => some value
  | _ => none

def published (log : List (Action ε U)) : List ℕ := log.filterMap Action.publication

def returned (log : List (Action ε U)) : List (Observation ε U) := log.filterMap Action.report

/-- The last of some numbers, or 0. -/
def last (ns : List ℕ) : ℕ := ns.getLast?.getD 0

/-- **Nothing is lost without being counted**: a report is as far behind the one before as
it says. -/
def Counted : ℕ → List (Observation ε U) → Prop
  | _, [] => True
  | before, o :: os => o.sequence = before + 1 + o.skipped ∧ Counted o.sequence os

theorem counted_concat (before : ℕ) (os : List (Observation ε U)) (o : Observation ε U) :
    Counted before (os ++ [o]) ↔ Counted before os ∧
      o.sequence = (os.map (·.sequence)).getLast?.getD before + 1 + o.skipped := by
  induction os generalizing before with
  | nil => simp [Counted]
  | cons x os ih =>
    rw [List.cons_append, Counted, Counted, ih, and_assoc]
    cases os with
    | nil => rfl
    | cons => simp [List.getLast?_cons]

theorem Counted.lt {before : ℕ} {os : List (Observation ε U)} (h : Counted before os) :
    (before :: os.map (·.sequence)).Pairwise (· < ·) := by
  induction os generalizing before with
  | nil => exact List.pairwise_singleton _ _
  | cons o os ih =>
    have hrest := ih h.2
    have hlt : before < o.sequence := by rw [h.1]; omega
    rw [List.map_cons, List.pairwise_cons]
    refine ⟨fun n hn => ?_, hrest⟩
    rcases List.mem_cons.mp hn with rfl | hn
    · exact hlt
    · exact hlt.trans ((List.pairwise_cons.mp hrest).1 n hn)

/-- The refusals of `Next` come last, when everything published has been returned. -/
def Settled (log : List (Action ε U)) : Prop :=
  ∀ before terminal after, log = before ++ .refused terminal :: after →
    last (published before) = last ((returned before).map (·.sequence)) ∧
      published after = [] ∧ returned after = []

/-- Where the goroutine is, after the report with the number `p`. -/
def State.Fits (p : ℕ) (s : State ε U) : Prop :=
  s.sequence ≤ maxUint64 ∧ (s.terminal.isSome → s.stage = .over) ∧
    match s.stage with
    | .top => s.ended = true ∨ s.sequence = p
    | .selecting => s.sequence = p
    | .applying => s.sequence = p + 1
    | .publishing value => value.sequence = s.sequence ∧ value.skipped = 0 ∧ s.sequence = p + 1
    | .ending _ | .over => True

/-- **What a watch has counted.** The report that waits, and then the last one that was
returned, is the last one that was published. -/
structure Track (log : List (Action ε U)) (s : State ε U) : Prop where
  counted : Counted 0 (returned log)
  waiting : ∀ o ∈ s.pending, o.sequence = last (published log) ∧
    o.sequence = last ((returned log).map (·.sequence)) + 1 + o.skipped
  idle : s.pending = none → last (published log) = last ((returned log).map (·.sequence))
  fits : s.Fits (last (published log))
  settled : Settled log
  refused : ∀ terminal, .refused terminal ∈ log → s.pending = none ∧ s.terminal.isSome

variable {log : List (Action ε U)}

theorem settled_concat (h : Settled log) (a : Action ε U)
    (hin : ∀ terminal, .refused terminal ∈ log → published [a] = [] ∧ returned [a] = [])
    (hend : ∀ terminal, a = .refused terminal →
      last (published log) = last ((returned log).map (·.sequence))) :
    Settled (log ++ [a]) := by
  intro before terminal after heq
  rcases List.eq_nil_or_concat after with rfl | ⟨after', b, rfl⟩
  · obtain ⟨rfl, ha⟩ := List.append_inj' heq rfl
    exact ⟨hend terminal (List.cons.inj ha).1, rfl, rfl⟩
  · rw [List.concat_eq_append, ← List.cons_append, ← List.append_assoc] at heq
    obtain ⟨rfl, hb⟩ := List.append_inj' heq rfl
    obtain rfl := (List.cons.inj hb).1
    obtain ⟨hlast, hp, hr⟩ := h before terminal after' rfl
    obtain ⟨hp', hr'⟩ := hin terminal (List.mem_append_right _ (.head _))
    unfold published returned at *
    rw [List.concat_eq_append, List.filterMap_append, List.filterMap_append, hp, hr, hp', hr']
    exact ⟨hlast, rfl, rfl⟩

theorem last_concat (ns : List ℕ) (n : ℕ) : last (ns ++ [n]) = n := by
  simp [last]

variable {s : State ε U}

theorem State.Fits.quiet {p : ℕ} {l : Event ε U} {t : Turn ε U} (h : s.Fits p)
    (ht : s.turn l = some t) (ha : t.actions = []) :
    t.state.Fits p ∧ t.state.pending = s.pending ∧ (s.terminal.isSome →
      t.state.terminal.isSome) := by
  unfold State.Fits at h ⊢
  cases l with
  | cancel | check | done | receive | applied | publish | finish | next =>
    simp only [State.turn] at ht
    grind

theorem Track.publish {value : Observation ε U} (h : Track log s)
    (hst : s.stage = .publishing value) :
    Track (log ++ [.published (s.publish value)])
      { s with stage := .top, pending := some (s.publish value) } := by
  obtain ⟨hbound, hover, hstage⟩ := h.fits
  rw [hst] at hover hstage
  obtain ⟨hseq, hskip, hnext⟩ := hstage
  have hvalue : (s.publish value).sequence = s.sequence ∧ s.sequence
      = last ((returned log).map (·.sequence)) + 1 + (s.publish value).skipped := by
    unfold State.publish
    cases hp : s.pending with
    | none => exact ⟨hseq, by rw [hskip, hnext, h.idle hp]⟩
    | some old =>
      obtain ⟨hlast, hcount⟩ := h.waiting old hp
      have hlt : old.skipped < maxUint64 := by omega
      dsimp only
      rw [if_pos hlt]
      exact ⟨hseq, by omega⟩
  have hpub : published (log ++ [.published (s.publish value)])
      = published log ++ [s.sequence] := by
    simp [published, Action.publication, hvalue.1]
  have hret : returned (log ++ [.published (s.publish value)]) = returned log := by
    simp [returned, Action.report, List.filterMap_cons]
  have hno : ∀ terminal, .refused terminal ∉ log := fun t hm => nomatch hover (h.refused t hm).2
  refine ⟨hret ▸ h.counted, fun o ho => ?_, nofun, ?_,
    settled_concat h.settled _ (fun t hm => absurd hm (hno t)) nofun, fun t hm => ?_⟩
  · cases ho
    rw [hpub, hret, last_concat, hvalue.1]
    exact ⟨rfl, hvalue.2⟩
  · rw [hpub, last_concat]
    exact ⟨hbound, fun ht => (nomatch hover ht), .inr rfl⟩
  · simp [hno t] at hm

theorem Track.fetch {o : Observation ε U} (h : Track log s) (hp : s.pending = some o) :
    Track (log ++ [.returned o]) { s with pending := none } := by
  obtain ⟨hlast, hcount⟩ := h.waiting o hp
  have hpub : published (log ++ [.returned o]) = published log := by
    simp [published, Action.publication, List.filterMap_cons]
  have hret : returned (log ++ [.returned o]) = returned log ++ [o] := by
    simp [returned, Action.report]
  have hno : ∀ terminal, .refused terminal ∉ log := fun t hm =>
    nomatch hp.symm.trans (h.refused t hm).1
  refine ⟨?_, nofun, fun _ => ?_, hpub ▸ h.fits,
    settled_concat h.settled _ (fun t hm => absurd hm (hno t)) nofun, fun t hm => ?_⟩
  · rw [hret, counted_concat]
    exact ⟨h.counted, hcount⟩
  · rw [hpub, hret, ← hlast, List.map_append]
    exact (last_concat _ _).symm
  · simp [hno t] at hm

theorem Track.refuse {terminal : Terminal} (h : Track log s) (hp : s.pending = none)
    (hterm : s.terminal = some terminal) : Track (log ++ [.refused terminal]) s := by
  have hpub : published (log ++ [.refused terminal]) = published log := by
    simp [published, Action.publication, List.filterMap_cons]
  have hret : returned (log ++ [.refused terminal]) = returned log := by
    simp [returned, Action.report, List.filterMap_cons]
  refine ⟨hret ▸ h.counted, ?_, ?_, hpub ▸ h.fits,
    settled_concat h.settled _ (fun _ _ => ⟨rfl, rfl⟩) (fun _ _ => h.idle hp),
    fun t _ => ⟨hp, hterm ▸ rfl⟩⟩
  · rw [hp]
    exact nofun
  · rw [hpub, hret]
    exact h.idle

theorem Track.turn {l : Event ε U} {t : Turn ε U} (h : Track log s) (ht : s.turn l = some t) :
    Track (log ++ t.actions) t.state := by
  by_cases ha : t.actions = []
  · obtain ⟨hfits, hp, hterm⟩ := h.fits.quiet ht ha
    rw [ha, List.append_nil]
    exact ⟨h.counted, hp ▸ h.waiting, hp ▸ h.idle, hfits, h.settled,
      fun e hm => ⟨hp.trans (h.refused e hm).1, hterm (h.refused e hm).2⟩⟩
  · revert ht
    fun_cases State.turn
    all_goals intro ht
    all_goals cases ht
    all_goals try exact absurd rfl ha
    · next hst => exact h.publish hst
    · next hp => exact h.fetch hp
    · next hterm hp => exact h.refuse hp hterm

/-- **The reports of a watch add up**, for any settings, outcomes of `Apply`, ends of contexts
and calls of `Next`: the sequences that are returned increase, a report is as far behind the
one before as it says, and `Next` returns the terminal error when everything published has
been returned, and nothing is published or returned after it. -/
theorem reports_add_up {tr : List (Event ε U)} {s : State ε U}
    (hr : (machine ε U).machine.Run tr s) :
    ((returned ((machine ε U).log tr)).map (·.sequence)).Pairwise (· < ·) ∧
      Counted 0 (returned ((machine ε U).log tr)) ∧ Settled ((machine ε U).log tr) := by
  have h0 : Track ([] : List (Action ε U)) ({} : State ε U) :=
    ⟨trivial, nofun, fun _ => rfl, ⟨Nat.zero_le _, nofun, .inr rfl⟩,
      fun _ _ _ h => by simp at h, nofun⟩
  have h : Track ((machine ε U).log tr) s := Mealy.log_invariant h0 (fun h => h.turn) hr
  exact ⟨(List.pairwise_cons.mp h.counted.lt).2, h.counted, h.settled⟩

/-- Two reports, of which the second finds the first, and the end of the channel. -/
def sample : List (Event Unit ℕ) :=
  [.check, .receive true, .applied 5 none, .publish, .check, .receive true, .applied 6 none,
    .publish, .check, .receive false, .finish, .next, .next]

theorem reports_add_up_twice : (returned ((machine Unit ℕ).log sample)).map
      (fun o => (o.sequence, o.skipped, o.update)) = [(2, 1, 6)] ∧
    Counted 0 (returned ((machine Unit ℕ).log sample)) :=
  ⟨by decide +kernel,
    (reports_add_up ((machine Unit ℕ).machine.run_reached sample (by decide +kernel))).2.1⟩

end Resource.Watch
