import Fathomry.AdapterWorld

/-!
# The evidence of calls

**Every accepted call has one record, and the record is somewhere until it
is acknowledged.** The inbox alone cannot say so: that a reservation is
committed when its call is accepted, and given back when its call fails, is
a matter of the calls, which the runtime keeps. So the fate of a call – open,
failed, or begun as an operation – is followed here on the side of the
runtime (`Runtime.Origins`), and tied to what its record says on the side of
the inbox (`World.Linked`).

Acknowledgements are counted in the history of the world. A record that is
gone has been acknowledged once if its call was accepted, and never if its
call failed.
-/

namespace Adapter

open Admission

variable {ε T : Type}

/-! ## The fate of calls -/

/-- What has become of a call: nothing yet, a failure, or an operation. -/
def Phase.fate : Phase ε → Option (Option ℕ)
  | .failed _ => some none
  | .begun v => some (some v)
  | _ => none

theorem Phase.fate_eq_begun {p : Phase ε} {v : ℕ} : p.fate = some (some v) ↔ p = .begun v := by
  cases p with
  | begun => exact ⟨fun h => congrArg _ (Option.some.inj (Option.some.inj h)), fun h => h ▸ rfl⟩
  | _ => exact ⟨nofun, nofun⟩

namespace Admission

variable {z : Options} {a a' : Admission ε T} {c : ℕ}

/-- What has become of a call. -/
def fate (a : Admission ε T) (d : ℕ) : Option (Option ℕ) := (a.phase d).fate

theorem fate_of_modify {f : Caller ε T → Caller ε T} (hcell : a'.callers = a.callers.modify c f)
    (hf : (f (a.callers.cell c)).phase.fate = a.fate c) (d : ℕ) : a'.fate d = a.fate d := by
  unfold fate phase at *
  rw [hcell]
  exact a.callers.cell_modify_congr (π := fun x => x.phase.fate) hf d

variable {p : Phase ε}

theorem fate_goto (hp : p.fate = none) (hc : a.fate c = none) (d : ℕ) :
    (a.goto c p).fate d = a.fate d :=
  fate_of_modify (f := (·.goto p)) rfl (hp.trans hc.symm) d

theorem phase_goto_self : (a.goto c p).phase c = p :=
  congrArg (·.phase) (Heap.cell_modify_self a.callers c (·.goto p))

theorem fate_goto_self (d : ℕ) : (a.goto c p).fate d = if d = c then p.fate else a.fate d := by
  show ((a.callers.modify c (·.goto p)).cell d).phase.fate = _
  rw [Heap.cell_modify]
  split_ifs
  · rfl
  · rfl

theorem fate_promoteLocked (d : ℕ) : (a.promoteLocked z).fate d = a.fate d :=
  promote_rule (P := fun b => ∀ d, b.fate d = a.fate d)
    (fun hP _ _ _ _ d => (fate_of_modify rfl rfl d).trans (hP d))
    (fun {b c _} hP _ _ _ d =>
      (fate_of_modify (f := (·.refuse (waitError z "admit" (b.ctx c)))) rfl rfl d).trans (hP d))
    (fun _ => rfl) d

theorem fate_closeDoneLocked (d : ℕ) : a.closeDoneLocked.fate d = a.fate d := by
  unfold fate phase
  rw [callers_closeDoneLocked]

theorem fate_releasePermitLocked (b : ℤ) (d : ℕ) : (a.releasePermitLocked z b).fate d = a.fate d :=
  (fate_closeDoneLocked d).trans (fate_promoteLocked d)

theorem fate_withdraw (d : ℕ) : (a.withdraw z c).fate d = a.fate d := by
  unfold withdraw leave
  split_ifs
  · exact fate_releasePermitLocked _ d
  iterate 2 exact fate_promoteLocked d
  · rfl

theorem fate_of_step {e : Event ε} (hs : a.step z e = some a') (he : ∀ c, e ≠ .abort c) (d : ℕ) :
    a'.fate d = a.fate d := by
  cases stepped hs with
  | cancelCall c how => exact fate_of_modify (f := (·.cancel how)) rfl rfl d
  | cancelLifetime c how => exact fate_of_modify (f := (·.cancelLifetime how)) rfl rfl d
  | cancelBase => rfl
  | acquire c _ hp =>
    have hc : a.fate c = none := by
      unfold fate
      rw [hp]
      rfl
    have hgoto {b : Admission ε T} {p : Phase ε} (hcell : b.callers = a.callers.modify c (·.goto p))
        (hp : p.fate = none) : b.fate d = a.fate d :=
      fate_of_modify hcell (hp.trans hc.symm) d
    unfold acquire
    split_ifs
    all_goals exact hgoto rfl rfl
  | resume c _ hp =>
    have hc : a.fate c = none := by
      unfold fate
      rw [hp]
      rfl
    unfold resume
    split_ifs
    · exact fate_goto rfl hc d
    · exact (fate_goto rfl ((fate_withdraw c).trans hc) d).trans (fate_withdraw d)
  | abort c => exact absurd rfl (he c)

theorem fate_of_abort (hs : a.step z (.abort c) = some a') :
    c < a.callers.next ∧ a.fate c = none
      ∧ ∀ d, a'.fate d = if d = c then some none else a.fate d := by
  cases stepped hs with
  | abort _ err hc hp =>
    refine ⟨hc, ?_, fun d => fate_goto_self d⟩
    unfold fate
    rw [hp]
    rfl

end Admission

namespace Runtime

variable {z : Options} {s s' : Runtime ε T} {c v : ℕ}

/-- **Operations and accepted calls are the same thing**: every operation
was begun by one call. -/
structure Origins (s : Runtime ε T) : Prop where
  node : ∀ v < s.nodes.next, ∃ c < s.callers.next, s.fate c = some (some v)
  lt : ∀ c < s.callers.next, ∀ v, s.fate c = some (some v) → v < s.nodes.next
  once : ∀ c < s.callers.next, ∀ c' < s.callers.next, ∀ v, s.fate c = some (some v) →
    s.fate c' = some (some v) → c = c'

/-- What decides nothing about what has begun. -/
theorem Origins.of_fate (h : Origins s) (hn : s'.nodes.next = s.nodes.next)
    (hf : ∀ d v, d < s'.callers.next ∧ s'.fate d = some (some v)
      ↔ d < s.callers.next ∧ s.fate d = some (some v)) : Origins s' := by
  refine ⟨fun v hv => ?_, fun c hc v hv => ?_, fun c hc c' hc' v hv hv' => ?_⟩
  · obtain ⟨c, hcv⟩ := h.node v (hn ▸ hv)
    exact ⟨c, (hf c v).mpr hcv⟩
  · obtain ⟨hc, hv⟩ := (hf c v).mp ⟨hc, hv⟩
    exact hn ▸ h.lt c hc v hv
  · obtain ⟨hc, hv⟩ := (hf c v).mp ⟨hc, hv⟩
    obtain ⟨hc', hv'⟩ := (hf c' v).mp ⟨hc', hv'⟩
    exact h.once c hc c' hc' v hv hv'

theorem fate_new (x : Call T) : (Caller.new x : Caller ε T).phase.fate = none := by
  unfold Caller.new
  dsimp only
  split_ifs
  · rfl
  · rfl

theorem Origins.call (h : Origins s) (x : Call T) : Origins (s.setAdmission (s.invoke (.new x))) :=
  h.of_fate rfl (fun d v => s.callers.alloc_iff_of_not
    (P := fun y => y.phase.fate = some (some v)) (fun hv => nomatch (fate_new x).symm.trans hv) d)

theorem Origins.begun (h : Origins s) (hk : s'.callers.next = s.callers.next)
    (hc : c < s.callers.next) (hn : s'.nodes.next = s.nodes.next + 1) (ho : s.fate c = none)
    (hf : ∀ d, s'.fate d = if d = c then some (some s.nodes.next) else s.fate d) : Origins s' := by
  have hcases {d v : ℕ} (hd : d < s.callers.next) (hv : s'.fate d = some (some v)) :
      (d = c ∧ v = s.nodes.next) ∨ (s.fate d = some (some v) ∧ v < s.nodes.next) := by
    rw [hf] at hv
    split_ifs at hv with hdc
    · exact .inl ⟨hdc, (Option.some.inj (Option.some.inj hv)).symm⟩
    · exact .inr ⟨hv, h.lt d hd v hv⟩
  refine ⟨fun v hv => ?_, fun d hd v hv => ?_, fun d hd d' hd' v hv hv' => ?_⟩
  · rw [hn] at hv
    obtain hlt | rfl := Nat.lt_succ_iff_lt_or_eq.mp hv
    · obtain ⟨d, hd, hdv⟩ := h.node v hlt
      have hdc : d ≠ c := fun hdc => nomatch (hdc ▸ hdv).symm.trans ho
      exact ⟨d, hk ▸ hd, (hf d).trans ((if_neg hdc).trans hdv)⟩
    · exact ⟨c, hk ▸ hc, (hf c).trans (if_pos rfl)⟩
  · rw [hk] at hd
    rw [hn]
    obtain ⟨-, rfl⟩ | ⟨-, hlt⟩ := hcases hd hv
    · exact Nat.lt_add_one _
    · exact Nat.lt_succ_of_lt hlt
  · rw [hk] at hd hd'
    obtain ⟨rfl, rfl⟩ | ⟨hold, hlt⟩ := hcases hd hv
    · obtain ⟨rfl, -⟩ | ⟨-, hlt⟩ := hcases hd' hv'
      · rfl
      · exact absurd hlt (lt_irrefl _)
    · obtain ⟨-, rfl⟩ | ⟨hold', -⟩ := hcases hd' hv'
      · exact absurd hlt (lt_irrefl _)
      · exact h.once d hd d' hd' v hold hold'

variable [Inhabited T]

variable {e : Event ε T}

theorem kept_of_step (hs : s.step z e = some s') (he : ∀ x, e ≠ .call x) :
    Admission.Kept s.toAdmission s'.toAdmission := by
  have hrefl : Admission.Kept s.toAdmission s.toAdmission := .of_eq rfl
  cases stepped hs with
  | call x => exact absurd rfl (he x)
  | admission e a ha => exact kept_step ha
  | refuseRoot =>
    exact (kept_releasePermitLocked _).trans (kept_goto _)
  | refuseChild | beginRoot | beginChild => exact kept_goto _
  | shutdownAgain | finishChild | tree => exact hrefl
  | shutdown cause => exact (kept_shutdown cause).trans kept_closeDoneLocked
  | finishRoot => exact kept_releasePermitLocked _

/-- **What decides nothing leaves the fate of calls alone**, and makes no
operation. -/
theorem fate_of_step (hs : s.step z e = some s') (hcall : ∀ x, e ≠ .call x)
    (habort : ∀ c, e ≠ .admission (.abort c))
    (hbegun : ∀ c v, e = .begin c → s'.phase c ≠ .begun v) :
    (∀ d, s'.fate d = s.fate d) ∧ s'.nodes.next = s.nodes.next := by
  have hadmitted {c : ℕ} (hp : (s.callers.cell c).phase = .admitted) : s.fate c = none := by
    unfold fate phase
    rw [hp]
    rfl
  cases stepped hs with
  | call x => exact absurd rfl (hcall x)
  | admission e a ha =>
    exact ⟨fate_of_step ha (fun c hc => habort c (congrArg _ hc)), rfl⟩
  | refuseRoot c err _ hp =>
    refine ⟨fun d => ?_, rfl⟩
    have hc := (fate_releasePermitLocked (z := z) (s.bytes c) c).trans (hadmitted hp)
    exact (fate_goto rfl hc d).trans (fate_releasePermitLocked _ d)
  | refuseChild c p err _ hp => exact ⟨fate_goto rfl (hadmitted hp), rfl⟩
  | beginRoot c | beginChild c => exact absurd phase_goto_self (hbegun c _ rfl)
  | shutdownAgain => exact ⟨fun _ => rfl, rfl⟩
  | shutdown =>
    refine ⟨fun d => (fate_closeDoneLocked d).trans ?_, rfl⟩
    show (Caller.phase (if d ∈ s.queue then _ else _)).fate = _
    split_ifs
    · rfl
    · rfl
  | finishRoot => exact ⟨fate_releasePermitLocked _, rfl⟩
  | finishChild => exact ⟨fun _ => rfl, Tree.next_finishChild _ _ _⟩
  | tree e t ht => exact ⟨fun _ => rfl, (Tree.still_of_step ht).next⟩

/-- **A call begins** as the next operation. -/
theorem fate_of_begun (hs : s.step z (.begin c) = some s') (hv : s'.phase c = .begun v) :
    c < s.callers.next ∧ s.fate c = none ∧ v = s.nodes.next
      ∧ s'.nodes.next = s.nodes.next + 1
      ∧ ∀ d, s'.fate d = if d = c then some (some s.nodes.next) else s.fate d := by
  have hdone (hc : c < s.callers.next) (hp : (s.callers.cell c).phase = .admitted)
      (hv : (s.toAdmission.goto c (.begun s.nodes.next)).phase c = .begun v) :
      c < s.callers.next ∧ s.fate c = none ∧ v = s.nodes.next
        ∧ (s.toTree.spawn (s.callers.cell c).toCall).nodes.next = s.nodes.next + 1
        ∧ ∀ d, (s.toAdmission.goto c (.begun s.nodes.next)).fate d
          = if d = c then some (some s.nodes.next) else s.fate d := by
    refine ⟨hc, ?_, ?_, Tree.next_spawn, fun d => fate_goto_self d⟩
    · unfold fate phase
      rw [hp]
      rfl
    · exact Phase.begun.inj (hv.symm.trans phase_goto_self)
  cases stepped hs with
  | refuseRoot | refuseChild => exact nomatch phase_goto_self.symm.trans hv
  | beginRoot _ hc hp | beginChild _ _ hc hp => exact hdone hc hp hv

theorem Origins.step (h : Origins s) (hs : s.step z e = some s') : Origins s' := by
  have hquiet (hcall : ∀ x, e ≠ .call x) (habort : ∀ c, e ≠ .admission (.abort c))
      (hbegun : ∀ c v, e = .begin c → s'.phase c ≠ .begun v) : Origins s' := by
    have hsame := fate_of_step hs hcall habort hbegun
    exact h.of_fate hsame.2 (fun d v => by rw [(kept_of_step hs hcall).next, hsame.1 d])
  cases e with
  | call x =>
    cases stepped hs with
    | call => exact h.call x
  | begin c =>
    by_cases hb : ∃ v, s'.phase c = .begun v
    · obtain ⟨v, hv⟩ := hb
      obtain ⟨hc, ho, -, hn, hf⟩ := fate_of_begun hs hv
      exact h.begun (kept_of_step hs nofun).next hc hn ho hf
    · exact hquiet nofun nofun (fun d v hd hv => hb ⟨v, (Event.begin.inj hd) ▸ hv⟩)
  | admission e =>
    by_cases ha : ∃ c, e = .abort c
    · have hk := kept_of_step hs nofun
      obtain ⟨c, rfl⟩ := ha
      obtain ⟨a, ha, rfl⟩ := Option.map_eq_some_iff.mp hs
      obtain ⟨-, ho, hf⟩ := fate_of_abort ha
      refine h.of_fate rfl (fun d v => ?_)
      rw [hk.next, show (s.setAdmission a).fate d = _ from hf d]
      split_ifs with hdc
      · rw [hdc, ho]
        exact ⟨fun hn => (nomatch hn.2), fun hn => (nomatch hn.2)⟩
      · rfl
    · exact hquiet nofun (fun c hx => ha ⟨c, Event.admission.inj hx⟩) nofun
  | shutdown | finish | tree => exact hquiet nofun nofun nofun

theorem origins_of_run {tr : List (Event ε T)} (hr : (machine z).Run tr s) : Origins s :=
  hr.invariant (I := fun _ s => Origins s)
    ⟨fun v hv => absurd hv (Nat.not_lt_zero v), fun c hc => absurd hc (Nat.not_lt_zero c),
      fun c hc => absurd hc (Nat.not_lt_zero c)⟩
    (fun _ h => h.step)

end Runtime

/-! ## What consumers do to records -/

namespace Inbox

variable {read : Result → Reading} {b b' : Inbox ε} {y : EvidenceOptions}

/-- A claim that has been ended successfully. -/
structure End where
  delivery : ℕ
  entry : ℕ
  retry : Bool

/-- The claim a step ends. -/
def ended (b : Inbox ε) : Event ε → Option End
  | .move d =>
    match (b.deliveries.cell d).lock, (b.deliveries.cell d).entry with
    | .holding _ retry, some e =>
      if (b.records.cell e).claim = some d then some ⟨d, e, retry⟩ else none
    | _, _ => none
  | _ => none

variable {e : Event ε}

theorem ended_eq_none (he : ∀ d, e ≠ .move d) : b.ended e = none := by
  cases e with
  | move d => exact absurd rfl (he d)
  | _ => rfl

variable {d : ℕ} {retry : Bool}

theorem holding_of_ended {ev : Event ε} {e : ℕ} (h : b.ended ev = some ⟨d, e, retry⟩) :
    ∃ r, (b.deliveries.cell d).lock = .holding r retry := by
  revert h
  fun_cases ended
  all_goals rintro ⟨⟩
  next r _ _ hl => exact ⟨r, hl⟩

variable {r : ℕ}

theorem ended_move {e : ℕ} (hl : (b.deliveries.cell d).lock = .holding r retry)
    (he : (b.deliveries.cell d).entry = some e) :
    b.ended (.move d) = if (b.records.cell e).claim = some d then some ⟨d, e, retry⟩ else none := by
  simp only [ended, hl, he]

/-- **What a step does to records and claims.** A step that ends no claim
leaves what records are about and what claims are valid for; one that ends a
claim moves its record or gives it up. -/
structure Effect (b : Inbox ε) (b' : Ledger) (out : Option End) : Prop where
  next : b'.records.next = b.records.next
  records : ∀ e, (∀ d, out ≠ some ⟨d, e, false⟩) →
    (b'.records.cell e).reserved = (b.records.cell e).reserved
      ∧ (b'.records.cell e).result = (b.records.cell e).result
  dropped : ∀ d e, out = some ⟨d, e, false⟩ → e < b.records.next
    ∧ (b.records.cell e).claim = some d ∧ (b'.records.cell e).live = false
  grows : b.deliveries.next ≤ b'.deliveries.next
  valid : ∀ d < b.deliveries.next, (∀ e retry, out ≠ some ⟨d, e, retry⟩) →
    ((b'.deliveries.cell d).valid = none ↔ (b.deliveries.cell d).valid = none)
  fresh : ∀ d < b'.deliveries.next, b.deliveries.next ≤ d → (b'.deliveries.cell d).valid ≠ none
  spent : ∀ d e retry, out = some ⟨d, e, retry⟩ → d < b.deliveries.next
    ∧ (b.deliveries.cell d).valid ≠ none ∧ (b'.deliveries.cell d).valid = none

theorem Effect.lock {b₁ : Ledger} {g : Delivery → Delivery} (hrec : b₁.records = b.records)
    (hdel : b₁.deliveries = b.deliveries.modify d g)
    (hv : (g (b.deliveries.cell d)).valid = (b.deliveries.cell d).valid) : Effect b b₁ none := by
  refine ⟨by rw [hrec], fun e _ => by rw [hrec]; exact ⟨rfl, rfl⟩, nofun,
    by rw [hdel]; exact le_rfl, fun d' hd' _ => ?_, fun d' hd' hge => ?_, nofun⟩
  · rw [hdel, b.deliveries.cell_modify_congr hv]
  · rw [hdel] at hd'
    exact absurd hd' (not_lt.mpr hge)

theorem Effect.ends {b₁ : Ledger} {e : ℕ} {f : Entry → Entry} (hd : d < b.deliveries.next)
    (hv : (b.deliveries.cell d).valid = some e) (hrec : b₁.records = b.records.modify e f)
    (hdel : b₁.deliveries = b.deliveries.modify d (·.setLock (.leaving r)))
    (hkeep : retry = true → ∀ x, (f x).reserved = x.reserved ∧ (f x).result = x.result)
    (hdrop : retry = false → e < b.records.next ∧ (b.records.cell e).claim = some d
      ∧ (f (b.records.cell e)).live = false) :
    Effect b b₁ (some ⟨d, e, retry⟩) := by
  refine ⟨by rw [hrec]; rfl, fun e' he' => ?_, fun d' e' h => ?_, by rw [hdel]; exact le_rfl,
    fun d' hd' hne => ?_, fun d' hd' hge => ?_, fun d' e' retry' h => ?_⟩
  · rw [hrec, Heap.cell_modify]
    split_ifs with hee
    · subst hee
      cases hr : retry with
      | true => exact hkeep hr _
      | false => exact absurd (hr ▸ rfl) (he' d)
    · exact ⟨rfl, rfl⟩
  · cases h
    obtain ⟨he, hc, hl⟩ := hdrop rfl
    rw [hrec, Heap.cell_modify_self]
    exact ⟨he, hc, hl⟩
  · have hdd : d' ≠ d := fun hdd => hne e retry (hdd ▸ rfl)
    rw [hdel, Heap.cell_modify_of_ne _ _ hdd]
  · rw [hdel] at hd'
    exact absurd hd' (not_lt.mpr hge)
  · cases h
    refine ⟨hd, fun hn => (nomatch hv.symm.trans hn), ?_⟩
    rw [hdel, Heap.cell_modify_self]
    exact Delivery.valid_of_leaving rfl

/-- **Every step of a consumer has such an effect.** -/
theorem effect_of_step (h : b.toLedger.Ok y) (hs : b.step read e = some b') :
    Effect b b'.toLedger (b.ended e) := by
  have hsame (hrec : b'.records = b.records) (hdel : b'.deliveries = b.deliveries) :
      Effect b b'.toLedger none :=
    .lock hrec (hdel.trans (Heap.modify_id _ 0).symm) rfl
  generalize hb : b'.toLedger = b₁ at hsame
  cases hb ▸ stepped hs with
  | idle _ he =>
    rw [ended_eq_none he]
    exact hsame rfl rfl
  | sealInbox => exact hsame rfl rfl
  | take r e shared =>
    refine ⟨rfl, fun e' _ => ?_, nofun, Nat.le_succ _, fun d hd _ => ?_, fun d hd hge => ?_, nofun⟩
    · exact ⟨Heap.cell_modify_proj (f := (·.take b.deliveries.next))
          b.records e e' (fun _ => rfl),
        Heap.cell_modify_proj (f := (·.take b.deliveries.next))
          b.records e e' (fun _ => rfl)⟩
    · rw [show (b.take e shared).deliveries.cell d = _ from Heap.cell_alloc_of_lt _ _ hd]
    · obtain rfl : d = b.deliveries.next := Nat.le_antisymm (Nat.lt_succ_iff.mp hd) hge
      rw [show (b.take e shared).deliveries.cell b.deliveries.next = _ from
        Heap.cell_alloc_self _ _, Delivery.valid_of_free rfl]
      exact nofun
  | hold r d e retry hd hl =>
    refine Effect.lock (g := (·.setLock (.holding r retry))) rfl rfl ?_
    rw [Delivery.valid_of_free hl, Delivery.valid_of_holding rfl]
    rfl
  | moveRefused d r e retry hd hl he hc => exact absurd (h.claimed_of_holding hd hl he).2 hc
  | requeue d r e hd hl he hc =>
    rw [ended_move hl he, if_pos hc]
    exact Effect.ends hd ((Delivery.valid_of_holding hl).trans he) rfl rfl
      (fun _ _ => ⟨rfl, rfl⟩) nofun
  | drop d r e hd hl he hc =>
    rw [ended_move hl he, if_pos hc]
    have hlt := (h.claimed_of_holding hd hl he).1
    have hx := h.entry e hlt
    have hres : (b.records.cell e).result ≠ none := hx.held (fun hn => nomatch hc.symm.trans hn)
    refine Effect.ends hd ((Delivery.valid_of_holding hl).trans he) rfl rfl
      nofun (fun _ => ⟨hlt, hc, ?_⟩)
    show ((b.records.cell e).reserved || false) = false
    rw [hx.not_reserved hres]
    rfl
  | clear d r hd hl =>
    refine Effect.lock rfl rfl ?_
    rw [Delivery.valid_of_leaving hl, Delivery.valid_of_free rfl]
    rfl

/-- **Whoever is about to acknowledge a record** was so before, or has just
seen its operation released. -/
theorem holding_of_step (hs : b.step read e = some b') (hd : d < b'.deliveries.next)
    (hl : (b'.deliveries.cell d).lock = .holding r false) :
    d < b.deliveries.next
      ∧ (b'.deliveries.cell d).result = (b.deliveries.cell d).result
      ∧ ((b.deliveries.cell d).lock = .holding r false
        ∨ ∃ e, (b.deliveries.cell d).valid = some e
          ∧ ready read (b.deliveries.cell d).result = true) := by
  -- a claim whose lock is not taken is as it was
  have hother {b₁ : Ledger} {d' : ℕ} {g : Delivery → Delivery} (hd : d < b₁.deliveries.next)
      (hl : (b₁.deliveries.cell d).lock = .holding r false)
      (hdel : b₁.deliveries = b.deliveries.modify d' g)
      (hg : ∀ x r, (g x).lock ≠ .holding r false) :
      d < b.deliveries.next ∧ (b₁.deliveries.cell d).result = (b.deliveries.cell d).result
        ∧ ((b.deliveries.cell d).lock = .holding r false ∨ ∃ e, (b.deliveries.cell d).valid = some e
            ∧ ready read (b.deliveries.cell d).result = true) := by
    rw [hdel] at hd hl ⊢
    have hne : d ≠ d' := by
      rintro rfl
      rw [Heap.cell_modify_self] at hl
      exact hg _ r hl
    rw [Heap.cell_modify_of_ne _ _ hne] at hl ⊢
    exact ⟨hd, rfl, .inl hl⟩
  generalize hb : b'.toLedger = b₁ at hd hl ⊢
  cases hb ▸ stepped hs with
  | idle | sealInbox => exact ⟨hd, rfl, .inl hl⟩
  | take r' e' shared =>
    let R := ((b.take e' shared).deliveries.cell d).result
    obtain ⟨hlt, hl, hres⟩ := (b.deliveries.alloc_iff_of_not
      (P := fun x => x.lock = .holding r false ∧ x.result = R) (by rintro ⟨⟨⟩, _⟩) d).mp
      ⟨hd, hl, rfl⟩
    exact ⟨hlt, hres.symm, .inl hl⟩
  | hold r' d' e' retry hd' hl' he' hready =>
    by_cases hdd : d = d'
    · subst hdd
      have hcell : (b.setLock d (.holding r' retry)).deliveries.cell d
          = (b.deliveries.cell d).setLock (.holding r' retry) :=
        Heap.cell_modify_self b.deliveries d (·.setLock (.holding r' retry))
      rw [hcell] at hl ⊢
      cases hl
      exact ⟨hd', rfl, .inr ⟨e', (Delivery.valid_of_free hl').trans he', hready rfl⟩⟩
    · have hcell : (b.setLock d' (.holding r' retry)).deliveries.cell d = b.deliveries.cell d :=
        Heap.cell_modify_of_ne b.deliveries (·.setLock (.holding r' retry)) hdd
      rw [hcell] at hl ⊢
      exact ⟨hd, rfl, .inl hl⟩
  | moveRefused => exact hother (g := (·.setLock .free)) hd hl rfl nofun
  | requeue d' r' | drop d' r' =>
    exact hother (g := (·.setLock (.leaving r'))) hd hl rfl nofun
  | clear => exact hother hd hl rfl nofun

end Inbox

/-! ## Calls and records -/

namespace World

variable {z : ℕ → Options} {y : ℕ → EvidenceOptions} {w w' : World ε T}
  {h h' : List (ℕ × Inbox.End)}

def ends (w : World ε T) : Label ε T → List (ℕ × Inbox.End)
  | .inbox j e => ((w.inboxes j).ended e).toList.map (fun x => (j, x))
  | _ => []

def acks (h : List (ℕ × Inbox.End)) (j e : ℕ) : ℕ :=
  h.countP (fun x => x.1 = j ∧ x.2.entry = e ∧ x.2.retry = false)

def closes (h : List (ℕ × Inbox.End)) (j d : ℕ) : ℕ :=
  h.countP (fun x => x.1 = j ∧ x.2.delivery = d)

/-- **What the record of a call says**, by what has become of the call. An
open call has a reservation, a failed one has none any more; the record of an
accepted call is about its operation until it has been acknowledged. -/
def Settled (i : ℕ) (x : Entry) (acks : ℕ) : Option (Option ℕ) → Prop
  | none => x.reserved = true ∧ acks = 0
  | some none => x.live = false ∧ acks = 0
  | some (some v) => (x.result = some ⟨i, v⟩ ∧ acks = 0) ∨ (x.live = false ∧ acks = 1)

variable {i : ℕ}

/-- What a record is about, and how often it has been acknowledged, is all
that matters. -/
theorem Settled.congr {k k' : ℕ} {x x' : Entry} {f f' : Option (Option ℕ)} (hs : Settled i x k f)
    (hr : x'.reserved = x.reserved) (hv : x'.result = x.result) (hk : k' = k) (hf : f' = f) :
    Settled i x' k' f' := by
  have hl : x'.live = x.live := by
    unfold Entry.live
    rw [hr, hv]
  subst hk hf
  unfold Settled at *
  rw [hr, hv, hl]
  exact hs

/-- **What is true of the world.** -/
structure Sound (y : ℕ → EvidenceOptions) (h : List (ℕ × Inbox.End)) (w : World ε T) : Prop where
  ledger : ∀ j, (w.inboxes j).toLedger.Ok (y j)
  placed : ∀ i, ∀ c < (w.runtimes i).callers.next,
    ((w.runtimes i).callers.cell c).entry
      < (w.inboxes ((w.runtimes i).callers.cell c).inbox).records.next
    ∧ Settled i ((w.inboxes ((w.runtimes i).callers.cell c).inbox).records.cell
        ((w.runtimes i).callers.cell c).entry)
      (acks h ((w.runtimes i).callers.cell c).inbox ((w.runtimes i).callers.cell c).entry)
      ((w.runtimes i).fate c)
  apart : ∀ i, ∀ c < (w.runtimes i).callers.next, ∀ i', ∀ c' < (w.runtimes i').callers.next,
    ((w.runtimes i).callers.cell c).inbox = ((w.runtimes i').callers.cell c').inbox →
    ((w.runtimes i).callers.cell c).entry = ((w.runtimes i').callers.cell c').entry →
    i = i' ∧ c = c'
  owned : ∀ j, ∀ e < (w.inboxes j).records.next, ∃ i c, c < (w.runtimes i).callers.next
    ∧ ((w.runtimes i).callers.cell c).inbox = j ∧ ((w.runtimes i).callers.cell c).entry = e
  unborn : ∀ j e, (w.inboxes j).records.next ≤ e → acks h j e = 0

/-- **Calls keep their records.** A step that makes no call and no record
has to keep the books of the inboxes, and what it makes of a call it has to
make of its record. -/
theorem Sound.advance (hw : Sound y h w)
    (hk : ∀ i, Admission.Kept (w.runtimes i).toAdmission (w'.runtimes i).toAdmission)
    (hn : ∀ j, (w'.inboxes j).records.next = (w.inboxes j).records.next)
    (hok : ∀ j, (w'.inboxes j).toLedger.Ok (y j))
    (hset : ∀ i, ∀ c < (w.runtimes i).callers.next, ∀ j e,
      ((w.runtimes i).callers.cell c).inbox = j → ((w.runtimes i).callers.cell c).entry = e →
      Settled i ((w.inboxes j).records.cell e) (acks h j e) ((w.runtimes i).fate c) →
      Settled i ((w'.inboxes j).records.cell e) (acks h' j e) ((w'.runtimes i).fate c))
    (hacks : ∀ j e, (w.inboxes j).records.next ≤ e → acks h' j e = 0) : Sound y h' w' := by
  have hinbox (i c : ℕ) : ((w'.runtimes i).callers.cell c).inbox
      = ((w.runtimes i).callers.cell c).inbox := congrArg Call.inbox ((hk i).call c)
  have hentry (i c : ℕ) : ((w'.runtimes i).callers.cell c).entry
      = ((w.runtimes i).callers.cell c).entry := congrArg Call.entry ((hk i).call c)
  refine ⟨hok, fun i c hc => ?_, fun i c hc i' c' hc' => ?_, fun j e he => ?_,
    fun j e he => hacks j e (hn j ▸ he)⟩
  · rw [(hk i).next] at hc
    obtain ⟨hlt, hold⟩ := hw.placed i c hc
    rw [hinbox, hentry, hn]
    exact ⟨hlt, hset i c hc _ _ rfl rfl hold⟩
  · rw [(hk i).next] at hc
    rw [(hk i').next] at hc'
    rw [hinbox, hinbox, hentry, hentry]
    exact hw.apart i c hc i' c' hc'
  · rw [hn] at he
    obtain ⟨i, c, hc, hj, he⟩ := hw.owned j e he
    exact ⟨i, c, (hk i).next ▸ hc, (hinbox i c).trans hj, (hentry i c).trans he⟩

variable {s : Runtime ε T}

theorem kept_setRuntime (hk : Admission.Kept (w.runtimes i).toAdmission s.toAdmission) (i' : ℕ) :
    Admission.Kept (w.runtimes i').toAdmission ((w.setRuntime i s).runtimes i').toAdmission := by
  rw [runtimes_setRuntime]
  split_ifs with hi
  · exact hi ▸ hk
  · exact .of_eq rfl

theorem fate_setRuntime {c : ℕ} {f : Option (Option ℕ)}
    (hf : ∀ d, s.fate d = if d = c then f else (w.runtimes i).fate d) (i' d : ℕ) :
    ((w.setRuntime i s).runtimes i').fate d
      = if i' = i ∧ d = c then f else (w.runtimes i').fate d := by
  rw [runtimes_setRuntime]
  by_cases hi : i' = i
  · subst hi
    rw [if_pos rfl, hf]
    simp only [true_and]
  · rw [if_neg hi, if_neg (fun hn => hi hn.1)]

theorem fate_setRuntime_of_eq (hf : ∀ d, s.fate d = (w.runtimes i).fate d) (i' d : ℕ) :
    ((w.setRuntime i s).runtimes i').fate d = (w.runtimes i').fate d := by
  rw [runtimes_setRuntime]
  split_ifs with hi
  · exact hi ▸ hf d
  · rfl

variable {j e : ℕ} {b : Ledger}

theorem record_setLedger {f : Entry → Entry} (hb : b.records = (w.inboxes j).records.modify e f)
    (j' e' : ℕ) :
    ((w.setLedger j b).inboxes j').records.cell e'
      = if j' = j ∧ e' = e then f ((w.inboxes j').records.cell e')
        else (w.inboxes j').records.cell e' := by
  rw [records_setLedger]
  by_cases hj : j' = j
  · subst hj
    rw [if_pos rfl, hb, Heap.cell_modify]
    simp only [true_and]
  · rw [if_neg hj, if_neg (fun hn => hj hn.1)]

theorem ok_setLedger (hok : ∀ j, (w.inboxes j).toLedger.Ok (y j)) (hb : b.Ok (y j)) (j' : ℕ) :
    ((w.setLedger j b).inboxes j').toLedger.Ok (y j') := by
  rw [ledger_setLedger]
  split_ifs with hj
  · exact hj ▸ hb
  · exact hok j'

theorem next_setLedger (hb : b.records.next = (w.inboxes j).records.next) (j' : ℕ) :
    ((w.setLedger j b).inboxes j').records.next = (w.inboxes j').records.next := by
  rw [records_setLedger]
  split_ifs with hj
  · exact hj ▸ hb
  · rfl

/-- **A call is decided, and its record with it.** -/
theorem Sound.decide (hw : Sound y h w) {c : ℕ} {f : Entry → Entry} {p : Option (Option ℕ)}
    (hc : c < (w.runtimes i).callers.next) (hj : ((w.runtimes i).callers.cell c).inbox = j)
    (he : ((w.runtimes i).callers.cell c).entry = e)
    (hk : Admission.Kept (w.runtimes i).toAdmission s.toAdmission)
    (hfate : ∀ d, s.fate d = if d = c then p else (w.runtimes i).fate d)
    (hb : b.records = (w.inboxes j).records.modify e f) (hok : b.Ok (y j))
    (hset : Settled i (f ((w.inboxes j).records.cell e)) (acks h j e) p) :
    Sound y h ((w.setRuntime i s).setLedger j b) := by
  refine hw.advance (kept_setRuntime hk) (next_setLedger (by rw [hb]; rfl))
    (ok_setLedger hw.ledger hok) (fun i' c' hc' j' e' hj' he' hold => ?_)
    hw.unborn
  rw [record_setLedger (w := w.setRuntime i s) hb,
    show ((w.setRuntime i s).setLedger j b).runtimes = (w.setRuntime i s).runtimes from rfl,
    fate_setRuntime hfate]
  by_cases hsame : i' = i ∧ c' = c
  · obtain ⟨rfl, rfl⟩ := hsame
    obtain rfl : j = j' := hj.symm.trans hj'
    obtain rfl : e = e' := he.symm.trans he'
    rw [if_pos ⟨rfl, rfl⟩, if_pos ⟨rfl, rfl⟩]
    exact hset
  · -- another call has another record
    have hrec : ¬ (j' = j ∧ e' = e) := fun hn => hsame
      (hw.apart i' c' hc' i c hc (hj'.trans (hn.1.trans hj.symm)) (he'.trans (hn.2.trans he.symm)))
    rw [if_neg hsame, if_neg hrec]
    exact hold

/-- A step that neither decides a call nor touches a record. -/
theorem Sound.quiet (hw : Sound y h w)
    (hk : Admission.Kept (w.runtimes i).toAdmission s.toAdmission)
    (hf : ∀ d, s.fate d = (w.runtimes i).fate d) : Sound y h (w.setRuntime i s) := by
  refine hw.advance (kept_setRuntime hk) (fun _ => rfl) hw.ledger
    (fun i' c _ j e _ _ hold => ?_) hw.unborn
  exact hold.congr rfl rfl rfl (fate_setRuntime_of_eq hf i' c)

theorem Sound.notify (hw : Sound y h w) (j : ℕ) :
    Sound y h (w.setLedger j (w.inboxes j).notifyLocked) := by
  have hrec (j' : ℕ) : ((w.setLedger j (w.inboxes j).notifyLocked).inboxes j').records
      = (w.inboxes j').records := by
    rw [records_setLedger]
    split_ifs with hj
    · rw [hj]
      rfl
    · rfl
  refine hw.advance (fun _ => .of_eq rfl) (fun j' => by rw [hrec])
    (ok_setLedger hw.ledger { hw.ledger j with }) (fun i c _ j' e _ _ hold => ?_) hw.unborn
  rw [hrec]
  exact hold

theorem acks_ended_of_not {j' : ℕ} {out : Option Inbox.End}
    (hd : j = j' → ∀ d, out ≠ some ⟨d, e, false⟩) :
    acks (out.toList.map (fun x => (j, x))) j' e = 0 := by
  cases out with
  | none => rfl
  | some x =>
    refine List.countP_eq_zero.mpr (fun y hy => ?_)
    obtain rfl := List.mem_singleton.mp hy
    rw [decide_eq_true_eq]
    rintro ⟨hj, rfl, hr⟩
    exact hd hj x.delivery (by rw [← hr])

/-- **A consumer takes a step.** A record that is given up was accepted. -/
theorem Sound.consume (hw : Sound y h w) {ev : Inbox.Event ε} {b : Inbox ε}
    (hb : (w.inboxes j).step (w.read z) ev = some b) :
    Sound y (h ++ w.ends (.inbox j ev)) (w.setInbox j b) := by
  have heff := Inbox.effect_of_step (hw.ledger j) hb
  have hacks (j' e : ℕ) : acks (h ++ w.ends (.inbox j ev)) j' e = acks h j' e
      + acks (((w.inboxes j).ended ev).toList.map (fun x => (j, x))) j' e := List.countP_append
  refine hw.advance (fun _ => .of_eq rfl) (fun j' => ?_) (fun j' => ?_)
    (fun i c _ j' e _ _ hold => ?_) (fun j' e he => ?_)
  · rw [inboxes_setInbox]
    split_ifs with hj
    · exact hj ▸ heff.next
    · rfl
  · rw [inboxes_setInbox]
    split_ifs with hj
    · subst hj
      exact Inbox.ok_of_step (hw.ledger j') hb
    · exact hw.ledger j'
  · rw [hacks, inboxes_setInbox]
    by_cases hj : j = j'
    · subst hj
      rw [if_pos rfl]
      by_cases hd : ∃ d, (w.inboxes j).ended ev = some ⟨d, e, false⟩
      · obtain ⟨d, hd⟩ := hd
        rw [hd, Option.toList_some, show acks (List.map _ _) j e = 1 by simp [acks]]
        obtain ⟨he, hc, hgone⟩ := heff.dropped d e hd
        have hx := (hw.ledger j).entry e he
        have hres : ((w.inboxes j).records.cell e).result ≠ none :=
          hx.held (fun hn => nomatch hc.symm.trans hn)
        have hlive : ((w.inboxes j).records.cell e).live = true := by
          obtain ⟨v, hv⟩ := Option.ne_none_iff_exists'.mp hres
          exact Entry.live_of_result hv
        -- a claimed record is neither a reservation nor gone
        show Settled i (b.records.cell e) (acks h j e + 1) ((w.runtimes i).fate c)
        cases hfate : (w.runtimes i).fate c with
        | none =>
          rw [hfate] at hold
          exact nomatch (hx.not_reserved hres).symm.trans hold.1
        | some o =>
          rw [hfate] at hold
          cases o with
          | none => exact nomatch hlive.symm.trans hold.1
          | some =>
            obtain ⟨-, hk⟩ | ⟨hn, -⟩ := hold
            · exact .inr ⟨hgone, by rw [hk]⟩
            · exact nomatch hlive.symm.trans hn
      · obtain ⟨hr, hv⟩ := heff.records e (fun d hn => hd ⟨d, hn⟩)
        exact hold.congr hr hv
          (by rw [acks_ended_of_not (fun _ d hn => hd ⟨d, hn⟩), Nat.add_zero]) rfl
    · rw [if_neg (Ne.symm hj), acks_ended_of_not (fun hn => absurd hn hj), Nat.add_zero]
      exact hold
  · rw [hacks, hw.unborn j' e he, Nat.zero_add]
    refine acks_ended_of_not (fun hj d hd => ?_)
    subst hj
    exact absurd (heff.dropped d e hd).1 (not_lt.mpr he)

/-- **A call reserves its record.** -/
theorem Sound.call (hw : Sound y h w) {x : Invocation ε T} (hr : w.refuse z y x = none) :
    Sound y h ((w.setRuntime x.runtime ((w.runtimes x.runtime).setAdmission
        ((w.runtimes x.runtime).invoke (.new (w.reserved x))))).setLedger x.inbox
      ((w.inboxes x.inbox).reserve x.request.evidenceBytes)) := by
  generalize hW : (w.setRuntime x.runtime _).setLedger x.inbox _ = W
  have hok : ((w.inboxes x.inbox).reserve x.request.evidenceBytes).Ok (y x.inbox) :=
    (hw.ledger x.inbox).reserve (room_of_refuse hr)
  -- the calls and the records of the new world
  have hcallers (i : ℕ) : (W.runtimes i).callers = if i = x.runtime then
      (w.runtimes i).callers.alloc (.new (w.reserved x)) else (w.runtimes i).callers := by
    rw [← hW, show ((w.setRuntime x.runtime _).setLedger x.inbox _).runtimes
      = (w.setRuntime x.runtime _).runtimes from rfl, runtimes_setRuntime]
    split_ifs with hi
    · rw [hi]
      rfl
    · rfl
  have hrecords (j : ℕ) : (W.inboxes j).records = if j = x.inbox then
      (w.inboxes j).records.alloc (.new x.request.evidenceBytes) else (w.inboxes j).records := by
    rw [← hW, records_setLedger]
    split_ifs with hj
    · rw [hj]
      rfl
    · rfl
  obtain ⟨⟨hlast, hnew⟩, hcall, hcases⟩ := Heap.alloc_family hcallers
  obtain ⟨⟨hroom, hrecord⟩, hgrow, hrest⟩ := Heap.alloc_family hrecords
  refine ⟨fun j => ?_, fun i c hc => ?_, fun i c hc i' c' hc' hj he => ?_, fun j e he => ?_,
    fun j e he => hw.unborn j e (not_lt.mp fun hlt => ?_)⟩
  · rw [← hW]
    exact ok_setLedger (w := w.setRuntime x.runtime _) hw.ledger hok j
  · obtain hc | ⟨rfl, rfl⟩ := hcases i c hc
    · obtain ⟨hlt, hold⟩ := hw.placed i c hc
      obtain ⟨-, hcell⟩ := hcall i c hc
      have hfate : (W.runtimes i).fate c = (w.runtimes i).fate c :=
        congrArg (fun y : Caller ε T => y.phase.fate) hcell
      rw [hcell, (hgrow _ _ hlt).2, hfate]
      exact ⟨(hgrow _ _ hlt).1, hold⟩
    · have hfate : (W.runtimes x.runtime).fate (w.runtimes x.runtime).callers.next = none := by
        unfold fate phase
        rw [hnew]
        exact Runtime.fate_new _
      rw [hnew, hfate]
      show (w.inboxes x.inbox).records.next < (W.inboxes x.inbox).records.next
        ∧ Settled x.runtime ((W.inboxes x.inbox).records.cell (w.inboxes x.inbox).records.next)
          (acks h x.inbox (w.inboxes x.inbox).records.next) none
      rw [hrecord]
      exact ⟨hroom, rfl, hw.unborn x.inbox _ le_rfl⟩
  · -- a record that was there before has a call that was there before
    obtain hc | ⟨rfl, rfl⟩ := hcases i c hc
    · rw [(hcall i c hc).2] at hj he
      obtain hc' | ⟨rfl, rfl⟩ := hcases i' c' hc'
      · rw [(hcall i' c' hc').2] at hj he
        exact hw.apart i c hc i' c' hc' hj he
      · rw [hnew] at hj he
        have hlt := (hw.placed i c hc).1
        rw [hj, he] at hlt
        exact absurd hlt (lt_irrefl _)
    · rw [hnew] at hj he
      obtain hc' | ⟨rfl, rfl⟩ := hcases i' c' hc'
      · rw [(hcall i' c' hc').2] at hj he
        have hlt := (hw.placed i' c' hc').1
        rw [← hj, ← he] at hlt
        exact absurd hlt (lt_irrefl _)
      · exact ⟨rfl, rfl⟩
  · obtain hlt | ⟨rfl, rfl⟩ := hrest j e he
    · obtain ⟨i, c, hc, hj, he⟩ := hw.owned j e hlt
      obtain ⟨hc', hcell⟩ := hcall i c hc
      exact ⟨i, c, hc', by rw [hcell, hj], by rw [hcell, he]⟩
    · refine ⟨x.runtime, _, hlast, ?_, ?_⟩
      all_goals
        rw [hnew]
        rfl
  · exact absurd (hgrow j e hlt).1 (not_lt.mpr he)

end World

end Adapter
