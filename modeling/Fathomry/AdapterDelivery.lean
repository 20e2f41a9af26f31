import Fathomry.AdapterEvidence
import Fathomry.AdapterGuarantees

/-!
# What an inbox guarantees

The invariant of the world, over all its runs, and what it says about an
inbox: the record of an accepted call is in the queue or in the hands of one
consumer until it is acknowledged, the counters are the records in custody,
and a claim is ended once.

What it takes to acknowledge a record is not a matter of the inbox. `Ack`
looks at the operation of its record before it takes the lock of the inbox,
and the operation may change in between – but an operation that has been
released stays released (`World.Acking`).
-/

namespace Adapter

namespace World

variable {ε T : Type} [Inhabited T] {z : ℕ → Options} {y : ℕ → EvidenceOptions}
  {w w' : World ε T} {h : List (ℕ × Inbox.End)} {tr : List (Label ε T)}

/-! ## Runs of the world -/

omit [Inhabited T] in
theorem quiet_iff {s : Runtime ε T} {e : Event ε T} (hq : quiet s e) :
    (∀ x, e ≠ .call x) ∧ (∀ c, e ≠ .admission (.abort c))
      ∧ ∀ c v, e = .begin c → s.phase c ≠ .begun v := by
  refine ⟨?_, ?_, ?_⟩
  · rintro x rfl
    exact hq
  · rintro c rfl
    exact hq
  · rintro c v rfl
    exact hq v

variable {l : Label ε T}

/-- **Every step of the world keeps what is true of it.** -/
theorem Sound.step (hw : Sound y h w) (hl : w.step z y l = some w') :
    Sound y (h ++ w.ends l) w' := by
  have hsilent {W : World ε T} (hW : Sound y h W) : Sound y (h ++ []) W := by
    rwa [List.append_nil]
  cases stepped hl with
  | refused => exact hsilent hw
  | call x s hr hs =>
    cases Runtime.stepped hs with
    | call => exact hsilent (hw.call hr)
  | begun i c v s hs hv =>
    obtain ⟨hc, ho, rfl, -, hf⟩ := Runtime.fate_of_begun hs hv
    have hk := Runtime.kept_of_step hs nofun
    obtain ⟨hlt, hold⟩ := hw.placed i c hc
    rw [ho] at hold
    refine hsilent ?_
    rw [show (s.callers.cell c).inbox = _ from congrArg Call.inbox (hk.call c),
      show (s.callers.cell c).entry = _ from congrArg Call.entry (hk.call c)]
    exact hw.decide (f := (·.commit ⟨i, _⟩)) hc rfl rfl hk hf rfl
      ((hw.ledger _).commit hlt hold.1 _) (.inl ⟨rfl, hold.2⟩)
  | aborted i c s hs =>
    have hk := Runtime.kept_of_step hs nofun
    obtain ⟨a, ha, rfl⟩ := Option.map_eq_some_iff.mp hs
    obtain ⟨hc, ho, hf⟩ := Admission.fate_of_abort ha
    obtain ⟨hlt, hold⟩ := hw.placed i c hc
    rw [ho] at hold
    refine hsilent ?_
    rw [show (((w.runtimes i).setAdmission a).callers.cell c).inbox = _ from
        congrArg Call.inbox (hk.call c),
      show (((w.runtimes i).setAdmission a).callers.cell c).entry = _ from
        congrArg Call.entry (hk.call c)]
    refine hw.decide (f := Entry.abort) hc rfl rfl hk hf ?_ ((hw.ledger _).abort hlt) ⟨?_, hold.2⟩
    · unfold Ledger.abort
      rw [if_pos hold.1]
      rfl
    · show (false || ((w.inboxes _).records.cell _).result.isSome) = false
      rw [((hw.ledger _).entry _ hlt).unused hold.1]
      rfl
  | notified i v s hs =>
    have hk := Runtime.kept_of_step hs nofun
    have hf := Runtime.fate_of_step hs nofun nofun
      nofun
    exact hsilent ((hw.quiet hk hf.1).notify _)
  | runtime i e s hq hs =>
    obtain ⟨hcall, habort, hbegun⟩ := quiet_iff hq
    exact hsilent (hw.quiet (Runtime.kept_of_step hs hcall)
      (Runtime.fate_of_step hs hcall habort hbegun).1)
  | inbox j e b hb => exact hw.consume hb

def history (z : ℕ → Options) (y : ℕ → EvidenceOptions) (tr : List (Label ε T)) :
    List (ℕ × Inbox.End) :=
  (machine z y).outputs ends (machine z y).start tr

theorem history_concat (hr : (machine z y).Run tr w) :
    history z y (tr ++ [l]) = history z y tr ++ w.ends l := by
  unfold history
  rw [Machine.outputs_append hr, Machine.outputs_singleton]

theorem sound_of_run (hr : (machine z y).Run tr w) : Sound y (history z y tr) w := by
  refine hr.invariant (I := fun tr w => Sound y (history z y tr) w) ?_ (fun hrun hw hl => ?_)
  · exact ⟨fun _ => Ledger.ok_init, nofun, nofun, nofun, fun _ _ _ => rfl⟩
  · rw [history_concat hrun]
    exact hw.step hl

variable {j e : ℕ}

omit [Inhabited T] in
/-- **A record with an outcome is the record of an accepted call.** -/
theorem Sound.call_of_result (hw : Sound y h w) {v : Result} (he : e < (w.inboxes j).records.next)
    (hv : ((w.inboxes j).records.cell e).result = some v) :
    ∃ c < (w.runtimes v.runtime).callers.next,
      (w.runtimes v.runtime).fate c = some (some v.node)
      ∧ ((w.runtimes v.runtime).callers.cell c).inbox = j
      ∧ ((w.runtimes v.runtime).callers.cell c).entry = e := by
  obtain ⟨i, c, hc, hj, hce⟩ := hw.owned j e he
  obtain ⟨-, hset⟩ := hw.placed i c hc
  rw [hj, hce] at hset
  have hlive := Entry.live_of_result hv
  cases hf : (w.runtimes i).fate c with
  | none =>
    rw [hf] at hset
    exact nomatch hv.symm.trans (((hw.ledger j).entry e he).unused hset.1)
  | some o =>
    rw [hf] at hset
    cases o with
    | none => exact nomatch hlive.symm.trans hset.1
    | some u =>
      obtain ⟨hu, -⟩ | ⟨hn, -⟩ := hset
      · obtain rfl : v = ⟨i, u⟩ := Option.some.inj (hv.symm.trans hu)
        exact ⟨c, hc, hf, hj, hce⟩
      · exact nomatch hlive.symm.trans hn

/-! ## Ending a claim -/

/-- Only consumers touch claims. -/
theorem deliveries_of_step (hl : w.step z y l = some w') (hi : ∀ j e, l ≠ .inbox j e) (j : ℕ) :
    (w'.inboxes j).deliveries = (w.inboxes j).deliveries := by
  have hset {W : World ε T} {j' : ℕ} {b : Ledger} (hW : W.inboxes = w.inboxes)
      (hb : b.deliveries = (w.inboxes j').deliveries) :
      ((W.setLedger j' b).inboxes j).deliveries = (w.inboxes j).deliveries := by
    rw [show ((W.setLedger j' b).inboxes j).deliveries = _ from
      congrArg Ledger.deliveries (ledger_setLedger j' j b), hW]
    split_ifs with hj
    · rw [hb, hj]
    · rfl
  cases stepped hl with
  | refused | runtime => rfl
  | call | begun | notified => exact hset rfl rfl
  | aborted =>
    refine hset rfl ?_
    unfold Ledger.abort
    split_ifs
    · rfl
    · rfl
  | inbox j e => exact absurd rfl (hi j e)

omit [Inhabited T] in
theorem ends_eq_nil (hi : ∀ j e, l ≠ .inbox j e) : w.ends l = [] := by
  cases l with
  | inbox j e => exact absurd rfl (hi j e)
  | _ => rfl

variable {d : ℕ}

theorem closes_ended_of_not {j' : ℕ} {out : Option Inbox.End}
    (hd : j = j' → ∀ e retry, out ≠ some ⟨d, e, retry⟩) :
    closes (out.toList.map (fun x => (j, x))) j' d = 0 := by
  cases out with
  | none => rfl
  | some x =>
    refine List.countP_eq_zero.mpr (fun y hy => ?_)
    obtain rfl := List.mem_singleton.mp hy
    rw [decide_eq_true_eq]
    rintro ⟨hj, rfl⟩
    exact hd hj x.entry x.retry rfl

section

variable (hr : (machine z y).Run tr w)
include hr

/-- **A claim that can be ended has not been**, and one that cannot has been
ended once. -/
theorem closes_of_run (j d : ℕ) :
    closes (history z y tr) j d = if d < (w.inboxes j).deliveries.next
      ∧ ((w.inboxes j).deliveries.cell d).valid = none then 1 else 0 := by
  refine hr.invariant (I := fun tr w => ∀ j d, closes (history z y tr) j d
    = if d < (w.inboxes j).deliveries.next
      ∧ ((w.inboxes j).deliveries.cell d).valid = none then 1 else 0) ?_ ?_ j d
  · exact fun _ _ => (if_neg (fun hn => Nat.not_lt_zero _ hn.1)).symm
  · intro tr w l w' hrun ih hl j d
    rw [history_concat hrun, show closes (_ ++ _) j d = _ from List.countP_append]
    show closes _ j d + closes _ j d = _
    by_cases hi : ∃ j e, l = .inbox j e
    · obtain ⟨j', e, rfl⟩ := hi
      obtain ⟨b, hb, rfl⟩ := Option.map_eq_some_iff.mp hl
      have heff := Inbox.effect_of_step ((sound_of_run hrun).ledger j') hb
      show _ + closes (((w.inboxes j').ended e).toList.map (fun x => (j', x))) j d = _
      rw [inboxes_setInbox, ih]
      by_cases hj : j' = j
      · subst hj
        rw [if_pos rfl]
        by_cases hd : ∃ e' retry, (w.inboxes j').ended e = some ⟨d, e', retry⟩
        · obtain ⟨e', retry, hd⟩ := hd
          obtain ⟨hlt, hval, hnone⟩ := heff.spent d e' retry hd
          rw [hd, if_neg (fun hn => hval hn.2), if_pos ⟨hlt.trans_le heff.grows, hnone⟩]
          simp [closes]
        · rw [closes_ended_of_not (fun _ e' r hn => hd ⟨e', r, hn⟩), Nat.add_zero]
          refine if_congr ⟨fun hn => ⟨hn.1.trans_le heff.grows, ?_⟩, fun hn => ?_⟩ rfl rfl
          · exact (heff.valid d hn.1 (fun e' r he => hd ⟨e', r, he⟩)).mpr hn.2
          · have hlt : d < (w.inboxes j').deliveries.next := by
              by_contra hge
              exact heff.fresh d hn.1 (not_lt.mp hge) hn.2
            exact ⟨hlt, (heff.valid d hlt (fun e' r he => hd ⟨e', r, he⟩)).mp hn.2⟩
      · rw [if_neg (Ne.symm hj), closes_ended_of_not (fun hn => absurd hn hj), Nat.add_zero]
    · have hi' : ∀ j e, l ≠ .inbox j e := fun j e hn => hi ⟨j, e, hn⟩
      rw [ends_eq_nil hi', deliveries_of_step hl hi', ih]
      rfl

theorem gone_of_step (hl : w.step z y l = some w') (i : ℕ) {v : ℕ}
    (hv : (w.runtimes i).toTree.gone v = true) : (w'.runtimes i).toTree.gone v = true := by
  refine Machine.Run.exec_rel
    (R := fun s s' : Runtime ε T => s.toTree.gone v = true → s'.toTree.gone v = true)
    (fun _ hg => hg) (fun h₁ h₂ hg => h₂ (h₁ hg)) (fun hrun hstep hg => ?_)
    (run_runtime hr i) (exec_events hl i) hv
  have hcount := Runtime.gone_of_step (Runtime.sound_of_run hrun) hstep v
  rw [hg] at hcount
  by_contra hn
  rw [eq_false_of_ne_true hn, Bool.toNat_true, Bool.toNat_false] at hcount
  omega

/-- **Whoever is about to acknowledge a record has seen its operation
released.** -/
def Acking (w : World ε T) : Prop :=
  ∀ j, ∀ d < (w.inboxes j).deliveries.next, ∀ r,
    ((w.inboxes j).deliveries.cell d).lock = .holding r false →
    ∃ v, ((w.inboxes j).deliveries.cell d).result = some v
      ∧ (w.runtimes v.runtime).toTree.gone v.node = true

/-- What `Ack` reads of an operation is that it has been released. -/
theorem gone_of_ready (hd : d < (w.inboxes j).deliveries.next)
    (hv : ((w.inboxes j).deliveries.cell d).valid = some e)
    (hready : Inbox.ready (w.read z) ((w.inboxes j).deliveries.cell d).result = true) :
    ∃ v, ((w.inboxes j).deliveries.cell d).result = some v
      ∧ (w.runtimes v.runtime).toTree.gone v.node = true := by
  have hw := sound_of_run hr
  obtain ⟨v, hres, hdone⟩ : ∃ v, ((w.inboxes j).deliveries.cell d).result = some v
      ∧ (w.read z v).done = true := by
    cases hv' : ((w.inboxes j).deliveries.cell d).result with
    | none => exact nomatch (hv' ▸ hready)
    | some v => exact ⟨v, rfl, by rw [hv'] at hready; exact hready⟩
  have he := ((hw.ledger j).claim e d).mpr ⟨hd, hv⟩
  have hrec := ((hw.ledger j).result d hd e hv).symm.trans hres
  obtain ⟨c, hc, hf, -, -⟩ := hw.call_of_result he.1 hrec
  have hrun := run_runtime hr v.runtime
  have hlt := (Runtime.origins_of_run hrun).lt c hc v.node hf
  refine ⟨v, hres, (Tree.marked_of_lt hlt).trans ?_⟩
  have hcount := ((Runtime.sound_of_run hrun).tree.node v.node hlt).done
  by_contra hn
  rw [if_neg hn] at hcount
  have hpos : 0 < ((w.runtimes v.runtime).nodes.cell v.node).done := of_decide_eq_true hdone
  omega

theorem acking_of_run : Acking w := by
  refine hr.invariant (I := fun _ w => Acking w)
    (fun j d hd => absurd hd (Nat.not_lt_zero d)) ?_
  intro tr w l w' hrun ih hl j d hd r hlock
  -- what has been seen of an operation stays true of it
  have hkeep : (∃ v, ((w.inboxes j).deliveries.cell d).result = some v
      ∧ (w.runtimes v.runtime).toTree.gone v.node = true) →
      ∃ v, ((w.inboxes j).deliveries.cell d).result = some v
        ∧ (w'.runtimes v.runtime).toTree.gone v.node = true :=
    fun ⟨v, hv, hg⟩ => ⟨v, hv, gone_of_step hrun hl v.runtime hg⟩
  by_cases hi : ∃ j e, l = .inbox j e
  · obtain ⟨j', e, rfl⟩ := hi
    obtain ⟨b, hb, rfl⟩ := Option.map_eq_some_iff.mp hl
    rw [inboxes_setInbox] at hd hlock ⊢
    split_ifs at hd hlock ⊢ with hj
    · subst hj
      obtain ⟨hd₀, hres, hold | ⟨e', hv, hready⟩⟩ := Inbox.holding_of_step hb hd hlock
      · rw [hres]
        exact hkeep (ih j d hd₀ r hold)
      · rw [hres]
        exact hkeep (gone_of_ready hrun hd₀ hv hready)
    · exact hkeep (ih j d hd r hlock)
  · have hi' : ∀ j e, l ≠ .inbox j e := fun j e hn => hi ⟨j, e, hn⟩
    rw [deliveries_of_step hl hi'] at hd hlock ⊢
    exact hkeep (ih j d hd r hlock)

/-- **A record that is acknowledged belongs to a released operation.** -/
theorem released_of_ended (hl : w.step z y l = some w') (hm : (j, ⟨d, e, false⟩) ∈ w.ends l) :
    ∃ v, ((w.inboxes j).records.cell e).result = some v
      ∧ v.node < (w.runtimes v.runtime).nodes.next
      ∧ ((w.runtimes v.runtime).nodes.cell v.node).released = true := by
  have hw := sound_of_run hr
  cases l with
  | inbox j' ev =>
    obtain ⟨x, hx, heq⟩ := List.mem_map.mp hm
    obtain ⟨rfl, rfl⟩ := Prod.mk.inj heq
    replace hx : (w.inboxes j').ended ev = some ⟨d, e, false⟩ := Option.mem_toList.mp hx
    obtain ⟨b, hb, rfl⟩ := Option.map_eq_some_iff.mp hl
    obtain ⟨he, hc, -⟩ := (Inbox.effect_of_step (hw.ledger j') hb).dropped d e hx
    obtain ⟨hd, hv⟩ := ((hw.ledger j').claim e d).mp ⟨he, hc⟩
    obtain ⟨r, hlock⟩ := Inbox.holding_of_ended hx
    obtain ⟨v, hres, hgone⟩ := acking_of_run hr j' d hd r hlock
    have hrec := ((hw.ledger j').result d hd e hv).symm.trans hres
    obtain ⟨hlt, hrel⟩ := Bool.and_eq_true_iff.mp hgone
    exact ⟨v, hrec, of_decide_eq_true hlt, hrel⟩
  | _ => cases hm

end

/-! ## The custody of records -/

/-- **Evidence is conserved.** The record of an accepted call is about its
operation and in one place – once in the queue or in the hands of one claim
– until it is acknowledged, and in none afterwards. A failed call leaves no
record. Calls do not share records, and whatever is in custody is the record
of a call. The counters of an inbox are the records in custody, within its
limits. A claim is ended with success at most once, by `Ack` only when the
operation of its record has been released. -/
theorem evidence_conserved (hr : (machine z y).Run tr w) :
    (∀ i, ∀ c < (w.runtimes i).callers.next, ∀ v, (w.runtimes i).phase c = .begun v →
      ∀ j e, ((w.runtimes i).callers.cell c).inbox = j →
        ((w.runtimes i).callers.cell c).entry = e →
        (acks (history z y tr) j e = 0 ∧ (w.inboxes j).Keeps e
            ∧ ((w.inboxes j).records.cell e).result = some ⟨i, v⟩)
          ∨ (acks (history z y tr) j e = 1 ∧ (w.inboxes j).Lacks e))
    ∧ (∀ i, ∀ c < (w.runtimes i).callers.next, ∀ err, (w.runtimes i).phase c = .failed err →
      (w.inboxes ((w.runtimes i).callers.cell c).inbox).Lacks ((w.runtimes i).callers.cell c).entry)
    ∧ (∀ i, ∀ c < (w.runtimes i).callers.next, ∀ i', ∀ c' < (w.runtimes i').callers.next,
      ((w.runtimes i).callers.cell c).inbox = ((w.runtimes i').callers.cell c').inbox →
      ((w.runtimes i).callers.cell c).entry = ((w.runtimes i').callers.cell c').entry →
      i = i' ∧ c = c')
    ∧ (∀ j, ∀ e ∈ (w.inboxes j).entries, (w.inboxes j).Keeps e →
      ∃ i c v, c < (w.runtimes i).callers.next ∧ (w.runtimes i).phase c = .begun v
        ∧ ((w.runtimes i).callers.cell c).inbox = j
        ∧ ((w.runtimes i).callers.cell c).entry = e)
    ∧ (∀ j, (w.inboxes j).outstanding
          = (w.inboxes j).pending + (w.inboxes j).queue.length + (w.inboxes j).claimed.card
        ∧ (w.inboxes j).pending = (w.inboxes j).reservations.card
        ∧ (w.inboxes j).outstanding ≤ (y j).capacity
        ∧ (w.inboxes j).bytes = ∑ e ∈ (w.inboxes j).entries, ((w.inboxes j).records.cell e).bytes
        ∧ (w.inboxes j).bytes ≤ (y j).maxBytes)
    ∧ (∀ j d, closes (history z y tr) j d ≤ 1)
    ∧ ∀ l w' j d e, w.step z y l = some w' → (j, ⟨d, e, false⟩) ∈ w.ends l →
      ∃ v, ((w.inboxes j).records.cell e).result = some v
        ∧ v.node < (w.runtimes v.runtime).nodes.next
        ∧ ((w.runtimes v.runtime).nodes.cell v.node).released = true := by
  have hw := sound_of_run hr
  refine ⟨?_, ?_, hw.apart, ?_, fun j => ?_, fun j d => ?_,
    fun l w' j d e hl hm => released_of_ended hr hl hm⟩
  · rintro i c hc v hv j e rfl rfl
    obtain ⟨hlt, hset⟩ := hw.placed i c hc
    rw [show (w.runtimes i).fate c = _ from Phase.fate_eq_begun.mpr hv] at hset
    obtain ⟨hres, hk⟩ | ⟨hl, hk⟩ := hset
    · have hne := Option.ne_none_iff_exists'.mpr ⟨_, hres⟩
      exact .inl ⟨hk, (hw.ledger _).keeps hlt hne, hres⟩
    · exact .inr ⟨hk, (hw.ledger _).lacks hl⟩
  · intro i c hc err hf
    obtain ⟨-, hset⟩ := hw.placed i c hc
    rw [show (w.runtimes i).fate c = some none from congrArg Phase.fate hf] at hset
    exact (hw.ledger _).lacks hset.1
  · intro j e he hk
    obtain ⟨hlt, -⟩ := ((hw.ledger j).entries e).mp he
    obtain ⟨v, hv⟩ := Option.ne_none_iff_exists'.mp ((hw.ledger j).result_of_keeps hk)
    obtain ⟨c, hc, hf, hj, hce⟩ := hw.call_of_result hlt hv
    exact ⟨v.runtime, c, v.node, hc, Phase.fate_eq_begun.mp hf, hj, hce⟩
  · obtain ⟨hout, hpending, hbytes⟩ := (hw.ledger j).counted
    exact ⟨hout, hpending, (hw.ledger j).capacity, hbytes, (hw.ledger j).maxBytes⟩
  · rw [closes_of_run hr]
    split_ifs
    · exact le_rfl
    · exact Nat.zero_le 1

namespace Sample

def limits : EvidenceOptions := ⟨⟨2, 16⟩, by decide, by decide⟩

abbrev world : Machine (World Unit Unit) (Label Unit Unit) :=
  machine (fun _ => Runtime.Sample.limits) (fun _ => limits)

abbrev ended (tr : List (Label Unit Unit)) : List (ℕ × Inbox.End) :=
  history (fun _ => Runtime.Sample.limits) (fun _ => limits) tr

def taken : List (Label Unit Unit) :=
  [.call ⟨0, 0, id, some none, true, ⟨"load", "", 4, 8⟩, none⟩,
    .runtime 0 (.admission (.acquire 0)), .runtime 0 (.begin 0),
    .inbox 0 (.enter .next (some none) true), .inbox 0 (.look 0)]

def acknowledged : List (Label Unit Unit) :=
  taken ++ [.runtime 0 (.tree (.producerReturned 0)), .runtime 0 (.tree (.skipSource 0)),
    .runtime 0 (.finish 0), .runtime 0 (.tree (.notify 0)),
    .inbox 0 (.enterEnd (some 0) false), .inbox 0 (.hold 1), .inbox 0 (.move 0)]

end Sample

/-- A record that has been acknowledged is in no place any more. -/
theorem evidence_conserved_acknowledged :
    ∃ w, Sample.world.Run Sample.acknowledged w
      ∧ (w.runtimes 0).phase 0 = .begun 0
      ∧ acks (Sample.ended Sample.acknowledged) 0 0 = 1
      ∧ (w.inboxes 0).Lacks 0 ∧ (w.inboxes 0).outstanding = (w.inboxes 0).queue.length :=
  have hr := Sample.world.run_reached Sample.acknowledged rfl
  have hall := evidence_conserved hr
  have hacks : acks (Sample.ended Sample.acknowledged) 0 0 = 1 := by decide
  ⟨_, hr, rfl, hacks, ((hall.1 0 0 (by decide) 0 rfl 0 0 rfl rfl).resolve_left
    (fun hn => absurd (hacks.symm.trans hn.1) Nat.one_ne_zero)).2, rfl⟩

end World

end Adapter
