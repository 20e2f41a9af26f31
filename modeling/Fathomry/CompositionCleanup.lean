import Fathomry.CompositionTitles

/-!
# Closing an assembly

`Close` goes through the entries from the last to the first, and stops at the
first one it cannot settle. What lets it go on from an entry is something
that stays: a borrowed record that has been returned, a record that belongs
to somebody else by now, or a cleanup that is complete. So when a callback is
called everything after its entry is settled, also if the settling was done
by an earlier call and a long time ago.
-/

namespace Composition

variable {ε : Type}

namespace Core

variable (spec : ℕ → Spec) (k : Core ε)

/-- **An entry that is settled** as far as its assembly is concerned. -/
def Settled (a e : ℕ) : Prop :=
  (k.Borrows spec e ∧ (k.entries.cell e).lease = false) ∨
    (¬ k.Borrows spec e ∧
      (k.owner (k.recordOf e) ≠ a ∨ (k.records.cell (k.recordOf e)).complete = true))

/-- Nobody is admitted to the record of an entry by its assembly. -/
def SealedAt (a e : ℕ) : Prop :=
  k.owner (k.recordOf e) = a → (k.records.cell (k.recordOf e)).admitting = false

/-- An entry of an assembly that has been built. -/
def Known (a e : ℕ) : Prop :=
  a < k.assemblies.next ∧ (k.assemblies.cell a).building = false ∧ e ∈ k.entriesOf a

variable {spec k} {k' : Core ε} {a e : ℕ}

theorem Known.grows (h : Known k a e) (hg : Grows k k') : Known k' a e := by
  obtain ⟨ha, hb, he⟩ := h
  obtain ⟨hb', he', -⟩ := hg.built a ha hb
  exact ⟨ha.trans_le hg.assemblies, hb', he' ▸ he⟩

theorem Settled.grows (h : Settled spec k a e) (hg : Grows k k') (hl : Leases k)
    (ha : a < k.assemblies.next) (hb : (k.assemblies.cell a).building = false)
    (he : e < k.entries.next) : Settled spec k' a e := by
  obtain ⟨hspec, hrec, hlease⟩ := hg.entry e he
  have hborrows : k'.Borrows spec e ↔ k.Borrows spec e := by
    unfold Borrows
    rw [hspec]
  have hrec' : k'.recordOf e = k.recordOf e := hrec
  have hr := hl.record e he
  unfold Settled
  rw [hborrows, hrec']
  refine h.imp (And.imp_right fun hf => ?_) (And.imp_right (Or.imp (fun hne hx => ?_) ?_))
  · exact eq_false_of_ne_true (mt hlease (ne_true_of_eq_false hf))
  · exact hne (hg.owner _ hr a ha hb hx)
  · exact hg.complete _ hr

theorem SealedAt.grows (h : SealedAt k a e) (hg : Grows k k') (hl : Leases k)
    (ha : a < k.assemblies.next) (hb : (k.assemblies.cell a).building = false)
    (he : e < k.entries.next) : SealedAt k' a e := by
  have hrec : k'.recordOf e = k.recordOf e := (hg.entry e he).2.1
  have hr := hl.record e he
  unfold SealedAt
  rw [hrec]
  intro hx
  have hs := h (hg.owner _ hr a ha hb hx)
  exact eq_false_of_ne_true (mt (hg.admitting _ hr) (ne_true_of_eq_false hs))

end Core

/-! ## Calls -/

namespace Closing.Stage

/-- The assembly is not ready any more. -/
def begun : Stage → Bool
  | .entered | .returned => false
  | _ => true

def sealed : Stage → Bool
  | .waiting | .visiting _ | .calling _ | .leaving => true
  | _ => false

/-- The call is in the gate. -/
def inside : Stage → Bool
  | .visiting _ | .calling _ | .leaving => true
  | _ => false

def passed : Stage → Option ℕ
  | .visiting i => some i
  | .calling i => some (i + 1)
  | _ => none

end Closing.Stage

def Build.Stage.active : Build.Stage → Bool
  | .building | .constructing | .checking | .probing => true
  | _ => false

/-- **Where a call of `Assemble` is.** -/
structure BuildOk (spec : ℕ → Spec) (k : Core ε) (b : ℕ) (x : Build ε) : Prop where
  builder : x.stage.active = true →
    x.assembly < k.assemblies.next ∧ (k.assemblies.cell x.assembly).builder = some b
  owned : x.stage = .constructing →
    ∀ p, x.selected[x.index]? = some (some p) → (spec p).mode = .owned

/-- **Where a call of `Close` is**, for an assembly and at a stage. -/
structure CloseOk (spec : ℕ → Spec) (k : Core ε) (c a : ℕ) (stage : Closing.Stage) : Prop where
  known : a < k.assemblies.next
  built : (k.assemblies.cell a).building = false
  ready : stage.begun = true → (k.assemblies.cell a).ready = false
  sealing : ∀ i, stage = .sealing i → ∀ e ∈ (k.entriesOf a).take i, k.SealedAt a e
  sealed : stage.sealed = true → ∀ e ∈ k.entriesOf a, k.SealedAt a e
  gate : stage.inside = true → (k.assemblies.cell a).gate = some c
  passed : ∀ i, stage.passed = some i → ∀ e ∈ (k.entriesOf a).drop i, k.Settled spec a e
  calling : ∀ i, stage = .calling i → ∃ e, (k.entriesOf a)[i]? = some e ∧ ¬ k.Borrows spec e
    ∧ k.owner (k.recordOf e) = a ∧ (k.records.cell (k.recordOf e)).next = none
    ∧ k.Closed (k.recordOf e)

variable {spec : ℕ → Spec} {k k' : Core ε} {a b c e i : ℕ} {stage : Closing.Stage}

theorem BuildOk.of_inactive {x : Build ε} (h : x.stage.active = false) : BuildOk spec k b x where
  builder hx := nomatch h.symm.trans hx
  owned hx := by
    rw [hx] at h
    exact nomatch h

namespace CloseOk

/-- **A call of `Close` that a change does not concern.** -/
theorem frame (h : CloseOk spec k c a stage) (hk : k.Books) (ht : k.Titles spec none)
    (hm : Core.Move spec k k')
    (hgate : stage.inside = true → (k.assemblies.cell a).gate = some c →
      (k'.assemblies.cell a).gate = some c)
    (hnext : ∀ i e, stage = .calling i → k.owner (k.recordOf e) = a → e < k.entries.next →
      (k.records.cell (k.recordOf e)).next = none →
      (k'.records.cell (k.recordOf e)).next = none) : CloseOk spec k' c a stage := by
  have hg := hm.grows
  obtain ⟨hbuilt, hentries, hready⟩ := hg.built _ h.known h.built
  have hlt : ∀ e ∈ k.entriesOf a, e < k.entries.next := ht.listed _
  refine ⟨h.known.trans_le hg.assemblies, hbuilt, fun hx => ?_, fun i hi e he => ?_,
    fun hx e he => ?_, fun hx => hgate hx (h.gate hx), fun i hi e he => ?_, fun i hi => ?_⟩
  · exact eq_false_of_ne_true (mt hready (ne_true_of_eq_false (h.ready hx)))
  · rw [hentries] at he
    exact (h.sealing i hi e he).grows hg hk.toLeases h.known h.built
      (hlt e (List.mem_of_mem_take he))
  · rw [hentries] at he
    exact (h.sealed hx e he).grows hg hk.toLeases h.known h.built (hlt e he)
  · rw [hentries] at he
    exact (h.passed i hi e he).grows hg hk.toLeases h.known h.built
      (hlt e (List.mem_of_mem_drop he))
  · obtain ⟨e, he, hnb, hown, hnone, hclosed⟩ := h.calling i hi
    have hel := hlt e (List.mem_of_getElem? he)
    have hrec : k'.recordOf e = k.recordOf e := (hg.entry e hel).2.1
    obtain ⟨hclosed', hown'⟩ := hm.closed hk ht (hk.record e hel) hclosed
    rw [hentries]
    refine ⟨e, he, ?_, ?_, ?_, ?_⟩
    · unfold Core.Borrows
      rw [(hg.entry e hel).1]
      exact hnb
    · rw [hrec, hown', hown]
    · rw [hrec]
      exact hnext i e hi hown hel hnone
    · rw [hrec]
      exact hclosed'

/-! The stages of a call, one after the other. -/

theorem returned (h : CloseOk spec k c a stage) : CloseOk spec k c a .returned :=
  ⟨h.known, h.built, nofun, nofun, nofun, nofun, nofun, nofun⟩

theorem lock (h : CloseOk spec k c a .entered) (hr : (k.assemblies.cell a).ready = false) :
    CloseOk spec k c a (.sealing 0) := by
  refine ⟨h.known, h.built, fun _ => hr, fun i hi e he => ?_, nofun, nofun, nofun, nofun⟩
  obtain rfl : (0 : ℕ) = i := by injection hi
  cases he

theorem sealNext (h : CloseOk spec k c a (.sealing i)) (he : (k.entriesOf a)[i]? = some e)
    (hs : k.SealedAt a e) : CloseOk spec k c a (.sealing (i + 1)) := by
  refine ⟨h.known, h.built, fun _ => h.ready rfl, fun j hj e' he' => ?_, nofun, nofun, nofun, nofun⟩
  obtain rfl : i + 1 = j := by injection hj
  rw [List.take_add_one, he] at he'
  obtain he' | he' := List.mem_append.mp he'
  · exact h.sealing i rfl e' he'
  · rw [List.mem_singleton.mp he']
    exact hs

theorem unlock (h : CloseOk spec k c a (.sealing i)) (he : (k.entriesOf a)[i]? = none) :
    CloseOk spec k c a .waiting := by
  refine ⟨h.known, h.built, fun _ => h.ready rfl, nofun, fun _ e he' => ?_, nofun, nofun, nofun⟩
  refine h.sealing i rfl e ?_
  rwa [List.take_of_length_le (List.getElem?_eq_none_iff.mp he)]

theorem enter (h : CloseOk spec k c a .waiting) (hg : (k.assemblies.cell a).gate = some c) :
    CloseOk spec k c a (.visiting (k.entriesOf a).length) := by
  refine ⟨h.known, h.built, fun _ => h.ready rfl, nofun, fun _ => h.sealed rfl, fun _ => hg,
    fun j hj e he => ?_, nofun⟩
  obtain rfl : (k.entriesOf a).length = j := by injection hj
  rw [List.drop_length] at he
  cases he

theorem leaving (h : CloseOk spec k c a (.visiting i)) : CloseOk spec k c a .leaving :=
  ⟨h.known, h.built, fun _ => h.ready rfl, nofun, fun _ => h.sealed rfl, fun _ => h.gate rfl,
    nofun, nofun⟩

theorem pass (h : CloseOk spec k c a (.visiting (i + 1))) (he : (k.entriesOf a)[i]? = some e)
    (hs : k.Settled spec a e) : CloseOk spec k c a (.visiting i) := by
  refine ⟨h.known, h.built, fun _ => h.ready rfl, nofun, fun _ => h.sealed rfl,
    fun _ => h.gate rfl, fun j hj e' he' => ?_, nofun⟩
  obtain rfl : i = j := by injection hj
  obtain ⟨hlt, rfl⟩ := List.getElem?_eq_some_iff.mp he
  rw [List.drop_eq_getElem_cons hlt] at he'
  obtain rfl | he' := List.mem_cons.mp he'
  · exact hs
  · exact h.passed (i + 1) rfl e' he'

/-- **A record that is next is closed**, when it has no borrowers. -/
theorem closed (h : CloseOk spec k c a (.visiting (i + 1))) (he : (k.entriesOf a)[i]? = some e)
    (hown : k.owner (k.recordOf e) = a) (hb : (k.records.cell (k.recordOf e)).borrowers = 0) :
    k.Closed (k.recordOf e) where
  admitting := h.sealed rfl e (List.mem_of_getElem? he) hown
  borrowers := hb
  ready := hown ▸ h.ready rfl
  building := hown ▸ h.built

theorem call (h : CloseOk spec k c a (.visiting (i + 1))) (he : (k.entriesOf a)[i]? = some e)
    (hnb : ¬ k.Borrows spec e) (hown : k.owner (k.recordOf e) = a)
    (hnext : (k.records.cell (k.recordOf e)).next = none)
    (hclosed : k.Closed (k.recordOf e)) : CloseOk spec k c a (.calling i) := by
  refine ⟨h.known, h.built, fun _ => h.ready rfl, nofun, fun _ => h.sealed rfl,
    fun _ => h.gate rfl, h.passed, fun j hj => ?_⟩
  obtain rfl : i = j := by injection hj
  exact ⟨e, he, hnb, hown, hnext, hclosed⟩

theorem back (h : CloseOk spec k c a (.calling i)) : CloseOk spec k c a (.visiting (i + 1)) :=
  ⟨h.known, h.built, fun _ => h.ready rfl, nofun, fun _ => h.sealed rfl, fun _ => h.gate rfl,
    h.passed, nofun⟩

end CloseOk

/-! ## Whom a change concerns -/

/-- **A change that concerns no call but those named**: it takes no assembly
from another call of `Assemble`, no gate from another call of `Close`, and
gives no callback to a record another call is cleaning up. -/
structure Apart (o o' : Option ℕ) (k k' : Core ε) : Prop where
  builder : ∀ a < k.assemblies.next, ∀ b, o ≠ some b → (k.assemblies.cell a).builder = some b →
    (k'.assemblies.cell a).builder = some b
  gate : ∀ a < k.assemblies.next, ∀ c, o' ≠ some c → (k.assemblies.cell a).gate = some c →
    (k'.assemblies.cell a).gate = some c
  next : ∀ r < k.records.next, (∀ c, o' = some c →
    (k.assemblies.cell (k.owner r)).gate ≠ some c) → (k.records.cell r).next = none →
    (k'.records.cell r).next = none

/-- A change that concerns no call at all. -/
structure Quiet (k k' : Core ε) : Prop where
  builder : ∀ a < k.assemblies.next,
    (k'.assemblies.cell a).builder = (k.assemblies.cell a).builder
  gate : ∀ a < k.assemblies.next, (k'.assemblies.cell a).gate = (k.assemblies.cell a).gate
  next : ∀ r < k.records.next, (k'.records.cell r).next = (k.records.cell r).next

namespace Quiet

theorem refl (k : Core ε) : Quiet k k := ⟨fun _ _ => rfl, fun _ _ => rfl, fun _ _ => rfl⟩

theorem apart (h : Quiet k k') (o o' : Option ℕ) : Apart o o' k k' where
  builder a ha _ _ hx := (h.builder a ha).trans hx
  gate a ha _ _ hx := (h.gate a ha).trans hx
  next r hr _ hx := (h.next r hr).trans hx

theorem assembly (a : ℕ) {f : Assembly ε → Assembly ε} (hb : ∀ x, (f x).builder = x.builder)
    (hg : ∀ x, (f x).gate = x.gate) : Quiet k (k.assembly a f) where
  builder a' _ := k.assemblies.cell_modify_proj a a' hb
  gate a' _ := k.assemblies.cell_modify_proj a a' hg
  next _ _ := rfl

theorem record (r : ℕ) {f : Record ε → Record ε} (hf : ∀ x, (f x).next = x.next) :
    Quiet k (k.record r f) :=
  ⟨fun _ _ => rfl, fun _ _ => rfl,
    fun r' _ => k.records.cell_modify_proj r r' hf⟩

theorem append (h : Quiet k k') (a : ℕ) (e : Entry) : Quiet k (k'.append a e) where
  builder a' ha := (k'.assemblies.cell_modify_proj a a'
    (f := fun x => { x with entries := x.entries ++ [k'.entries.next] })
    (fun _ => rfl)).trans (h.builder a' ha)
  gate a' ha := (k'.assemblies.cell_modify_proj a a'
    (f := fun x => { x with entries := x.entries ++ [k'.entries.next] })
    (fun _ => rfl)).trans (h.gate a' ha)
  next := h.next

theorem found (scope : String) (b : ℕ) : Quiet k (k.found scope b) where
  builder _ ha := congrArg Assembly.builder (k.assemblies.cell_alloc_of_lt _ ha)
  gate _ ha := congrArg Assembly.gate (k.assemblies.cell_alloc_of_lt _ ha)
  next _ _ := rfl

theorem own (a p : ℕ) (check : Bool) (x : Record ε) : Quiet k (k.own a p check x) := by
  have halloc : Quiet k { k with records := k.records.alloc x } :=
    ⟨fun _ _ => rfl, fun _ _ => rfl,
      fun _ hr => congrArg Record.next (k.records.cell_alloc_of_lt x hr)⟩
  exact halloc.append a _

end Quiet

namespace State

variable (spec) (s : State ε)

/-- An entry that somebody has access to, or is acquiring. -/
def Reaches (a e : ℕ) : Prop :=
  (a, e) ∈ s.accesses ∨ ∃ q < s.acquires.next,
    (s.acquires.cell q).assembly = a ∧ (s.acquires.cell q).entry = e

/-- **What holds of the assemblies at any time.** -/
structure Inv : Prop where
  books : s.toCore.Books
  titles : s.toCore.Titles spec none
  builds : ∀ b < s.builds.next, BuildOk spec s.toCore b (s.builds.cell b)
  reach : ∀ a e, s.Reaches a e → s.toCore.Known a e
  closes : ∀ c < s.closes.next,
    CloseOk spec s.toCore c (s.closes.cell c).assembly (s.closes.cell c).stage
  numbered : ∀ r < s.records.next, ∀ j, (s.records.cell r).next = some j → j < s.callbacks
  distinct : ∀ r < s.records.next, ∀ r' < s.records.next, ∀ j,
    (s.records.cell r).next = some j → (s.records.cell r').next = some j → r = r'

/-- **Callbacks are handed over once.** A callback that a record has after a
step is the one it had, or a new one that no other record has. -/
structure Handed (s s' : State ε) : Prop where
  callbacks : s.callbacks ≤ s'.callbacks
  next : ∀ r < s'.records.next, ∀ j, (s'.records.cell r).next = some j →
    (r < s.records.next ∧ (s.records.cell r).next = some j) ∨
      (s.callbacks ≤ j ∧ j < s'.callbacks ∧
        ∀ r' < s'.records.next, (s'.records.cell r').next = some j → r' = r)

/-- **What a step does**: the invariant is kept, closed records stay closed,
and callbacks are handed over once. -/
structure Follows (s' : State ε) : Prop extends Inv spec s' where
  records : s.records.next ≤ s'.records.next
  closed : ∀ r < s.records.next, s.toCore.Closed r → s'.toCore.Closed r
  handed : Handed s s'

variable {spec s} {s' u : State ε} {m : Core ε} {o o' : Option ℕ}

theorem Handed.of_next (hn : s'.records.next = s.records.next)
    (h : ∀ r < s.records.next, ∀ j, (s'.records.cell r).next = some j →
      (s.records.cell r).next = some j) (hc : s'.callbacks = s.callbacks) : Handed s s' := by
  refine ⟨hc.ge, fun r hr j hj => .inl ?_⟩
  rw [hn] at hr
  exact ⟨hr, h r hr j hj⟩

theorem Handed.of_quiet (hq : Quiet s.toCore s'.toCore) (hn : s'.records.next = s.records.next)
    (hc : s'.callbacks = s.callbacks) : Handed s s' :=
  .of_next hn (fun r hr _ hj => (hq.next r hr).symm.trans hj) hc

theorem Handed.trans (h : Handed s s') (h' : Handed s' u) : Handed s u := by
  refine ⟨h.callbacks.trans h'.callbacks, fun r hr j hj => ?_⟩
  obtain ⟨hr', hj'⟩ | ⟨hle, hlt, honly⟩ := h'.next r hr j hj
  · refine (h.next r hr' j hj').imp_right (fun ⟨hle, hlt, honly⟩ => ?_)
    refine ⟨hle, hlt.trans_le h'.callbacks, fun r₁ hr₁ hj₁ => ?_⟩
    obtain ⟨hr₁', hj₁'⟩ | ⟨hle', -, -⟩ := h'.next r₁ hr₁ j hj₁
    · exact honly r₁ hr₁' hj₁'
    · exact absurd hlt (Nat.not_lt.mpr hle')
  · exact .inr ⟨h.callbacks.trans hle, hlt, honly⟩

theorem Follows.trans (h : Follows spec s s') (h' : Follows spec s' u) : Follows spec s u where
  toInv := h'.toInv
  records := h.records.trans h'.records
  closed r hr hc := h'.closed r (hr.trans_le h.records) (h.closed r hr hc)
  handed := h.handed.trans h'.handed

variable (h : Inv spec s)
include h

theorem Follows.refl : Follows spec s s :=
  ⟨h, le_rfl, fun _ _ => id, .of_quiet (.refl _) rfl rfl⟩

/-- **The calls of `Close` that a change does not concern.** Two calls that
clean up records of one assembly would both be in its gate. -/
theorem Inv.others (hm : Core.Move spec s.toCore k') (ha : Apart o o' s.toCore k')
    (hc : c < s.closes.next) (hne : o' ≠ some c) :
    CloseOk spec k' c (s.closes.cell c).assembly (s.closes.cell c).stage := by
  have hok := h.closes c hc
  refine hok.frame h.books h.titles hm (fun _ => ha.gate _ hok.known c hne)
    (fun i e hi hown he hnone => ?_)
  refine ha.next _ (h.books.record e he) (fun c' hc' hgate => hne ?_) hnone
  have hin : (s.closes.cell c).stage.inside = true := by
    rw [hi]
    rfl
  rw [hown] at hgate
  rw [hc', ← hgate, hok.gate hin]

/-- **The step rule**: only the calls a change concerns have to be looked at
again. -/
theorem Inv.change (hm : Core.Move spec s.toCore s'.toCore) (ha : Apart o o' s.toCore s'.toCore)
    (hh : Handed s s')
    (hb : ∀ b < s'.builds.next,
      (b < s.builds.next ∧ o ≠ some b ∧ s'.builds.cell b = s.builds.cell b)
      ∨ BuildOk spec s'.toCore b (s'.builds.cell b))
    (hr : ∀ a e, s'.Reaches a e → s.Reaches a e ∨ s'.toCore.Known a e)
    (hc : ∀ c < s'.closes.next,
      (c < s.closes.next ∧ o' ≠ some c ∧ s'.closes.cell c = s.closes.cell c)
      ∨ CloseOk spec s'.toCore c (s'.closes.cell c).assembly (s'.closes.cell c).stage) :
    Follows spec s s' where
  books := hm.books h.books
  titles := hm.titles h.books.toLeases h.titles
  builds b hlt := by
    obtain ⟨hlt', hne, heq⟩ | hok := hb b hlt
    · rw [heq]
      have hok := h.builds b hlt'
      refine { hok with builder := fun hx => ?_ }
      obtain ⟨hx, hbuilder⟩ := hok.builder hx
      exact ⟨hx.trans_le hm.grows.assemblies, ha.builder _ hx b hne hbuilder⟩
    · exact hok
  reach a e hx := (hr a e hx).elim (fun hy => (h.reach a e hy).grows hm.grows) id
  closes c hlt := by
    obtain ⟨hlt', hne, heq⟩ | hok := hc c hlt
    · rw [heq]
      exact h.others hm ha hlt' hne
    · exact hok
  numbered r hr j hj := by
    obtain ⟨hr', hj'⟩ | ⟨-, hlt, -⟩ := hh.next r hr j hj
    · exact (h.numbered r hr' j hj').trans_le hh.callbacks
    · exact hlt
  distinct r hr r' hr' j hj hj' := by
    obtain ⟨hlt, hold⟩ | ⟨-, -, honly⟩ := hh.next r hr j hj
    · obtain ⟨hlt', hold'⟩ | ⟨-, -, honly⟩ := hh.next r' hr' j hj'
      · exact h.distinct r hlt r' hlt' j hold hold'
      · exact honly r hr hj
    · exact (honly r' hr' hj').symm
  records := hm.grows.records
  closed r hr hc := (hm.closed h.books h.titles hr hc).1
  handed := hh

/-- A change that concerns no call of `Assemble` and no call of `Close`. -/
theorem Inv.quiet (hm : Core.Move spec s.toCore s'.toCore) (hq : Quiet s.toCore s'.toCore)
    (hh : Handed s s') (hb : s'.builds = s.builds) (hc : s'.closes = s.closes)
    (hr : ∀ a e, s'.Reaches a e → s.Reaches a e ∨ s.toCore.Known a e) : Follows spec s s' := by
  refine h.change hm (hq.apart none none) hh (fun b hlt => .inl ?_)
    (fun a e hx => (hr a e hx).imp_right (·.grows hm.grows)) (fun c hlt => .inl ?_)
  · rw [hb] at hlt ⊢
    exact ⟨hlt, nofun, rfl⟩
  · rw [hc] at hlt ⊢
    exact ⟨hlt, nofun, rfl⟩

theorem Inv.build (hm : Core.Move spec s.toCore m) (ha : Apart (some b) none s.toCore m)
    {f : Build ε → Build ε} (hh : Handed s (s.core m))
    (hok : BuildOk spec m b (f (s.builds.cell b))) : Follows spec s ((s.core m).build b f) := by
  refine h.change hm ha { hh with } (fun b' hb' => ?_) (fun _ _ => .inl)
    (fun _ hc => .inl ⟨hc, nofun, rfl⟩)
  refine s.builds.forall_modify (Q := fun b' x => (b' < s.builds.next ∧ some b ≠ some b'
    ∧ x = s.builds.cell b') ∨ BuildOk spec m b' x) b' (fun hne => ?_) (.inr hok)
  exact .inl ⟨hb', fun hx => hne (Option.some.inj hx).symm, rfl⟩

theorem Inv.closing (hm : Core.Move spec s.toCore s'.toCore)
    (ha : Apart none (some c) s.toCore s'.toCore) (hh : Handed s s') {f : Closing ε → Closing ε}
    (hb : s'.builds = s.builds) (hc : s'.closes = s.closes.modify c f)
    (hr : ∀ a e, s'.Reaches a e → s.Reaches a e)
    (hf : (f (s.closes.cell c)).assembly = (s.closes.cell c).assembly)
    (hok : CloseOk spec s'.toCore c (s.closes.cell c).assembly (f (s.closes.cell c)).stage) :
    Follows spec s s' := by
  refine h.change hm ha hh (fun b hlt => .inl ?_) (fun a e hx => .inl (hr a e hx))
    (fun c' hc' => ?_)
  · rw [hb] at hlt ⊢
    exact ⟨hlt, nofun, rfl⟩
  · rw [hc] at hc' ⊢
    refine s.closes.forall_modify (Q := fun c' x => (c' < s.closes.next ∧ some c ≠ some c'
      ∧ x = s.closes.cell c') ∨ CloseOk spec s'.toCore c' x.assembly x.stage) c' (fun hne => ?_)
      (.inr (hf ▸ hok))
    exact .inl ⟨hc', fun hx => hne (Option.some.inj hx).symm, rfl⟩

theorem Inv.close (ha : a < s.assemblies.next) (hb : (s.assemblies.cell a).building = false)
    (ctx : Ctx ε) (err : Option (Err ε)) :
    Follows spec s { s with closes := s.closes.alloc ⟨a, ctx, .entered, err⟩ } := by
  refine h.change .idle ((Quiet.refl _).apart none none) (.of_quiet (.refl _) rfl rfl)
    (fun _ hb => .inl ⟨hb, nofun, rfl⟩) (fun _ _ => .inl) ?_
  exact s.closes.forall_alloc (Q := fun c x => (c < s.closes.next ∧ none ≠ some c
    ∧ x = s.closes.cell c) ∨ CloseOk spec s.toCore c x.assembly x.stage)
    (fun _ hlt => .inl ⟨hlt, nofun, rfl⟩) (.inr ⟨ha, hb, nofun, nofun, nofun, nofun, nofun, nofun⟩)

/-- **A callback that is handed over is new**, and the record that gets it is
the only one that has it. -/
theorem Inv.hands (given : Bool) (r₀ : ℕ)
    (hc : s'.callbacks = if given then s.callbacks + 1 else s.callbacks)
    (hnext : ∀ r < s'.records.next, ∀ j, (s'.records.cell r).next = some j →
      (r < s.records.next ∧ (s.records.cell r).next = some j) ∨
        (r = r₀ ∧ given = true ∧ s.callbacks = j)) : Handed s s' := by
  refine ⟨?_, fun r hr j hj => ?_⟩
  · rw [hc]
    split
    · exact Nat.le_succ _
    · exact le_rfl
  · refine (hnext r hr j hj).imp_right ?_
    rintro ⟨rfl, hgiven, rfl⟩
    rw [hc, if_pos hgiven]
    refine ⟨le_rfl, Nat.lt_add_one _, fun r' hr' hj' => ?_⟩
    obtain ⟨hlt, hj'⟩ | ⟨rfl, -⟩ := hnext r' hr' _ hj'
    · exact absurd (h.numbered r' hlt _ hj') (lt_irrefl _)
    · rfl

/-! ## Assembling -/

omit h in
theorem existing_eq_some {x : Spec} {r : ℕ} (h : s.existing spec x = some r) :
    ∃ a, ∃ e ∈ s.entriesOf a, s.recordOf e = r ∧ (s.assemblies.cell a).ready = true
      ∧ (s.records.cell r).admitting = true ∧ (x.mode = .delegated → s.owner r = a) := by
  unfold existing at h
  repeat' split at h
  any_goals cases h
  next a p _ _ hready _ e he hshare =>
  simp only [shareable, Bool.and_eq_true, Bool.or_eq_true, decide_eq_true_eq] at hshare
  refine ⟨a, e, List.mem_of_find?_eq_some he, rfl, hready.1, hshare.1.1.1, fun hmode => ?_⟩
  exact (hshare.2.resolve_left (fun hx => hx hmode)).1.1

section

variable (hb : b < s.builds.next) (hx : (s.builds.cell b).stage.active = true)
include hb hx

/-- A call of `Assemble` that gives up its assembly. -/
theorem Inv.apart_of_builder {f : Assembly ε → Assembly ε} (hg : ∀ x, (f x).gate = x.gate) :
    Apart (some b) none s.toCore (s.toCore.assembly (s.builds.cell b).assembly f) := by
  refine ⟨fun a _ b' hne hb' => ?_, fun a _ c _ hc => ?_, fun _ _ _ hn => hn⟩
  · have ha : a ≠ (s.builds.cell b).assembly := by
      rintro rfl
      exact hne (((h.builds b hb).builder hx).2.symm.trans hb')
    rw [show (s.toCore.assembly _ f).assemblies.cell a = _ from
      s.assemblies.cell_modify_of_ne f ha]
    exact hb'
  · exact (s.assemblies.cell_modify_proj _ a hg).trans hc

theorem Inv.fail (err : Err ε) : Follows spec s (s.fail b err) := by
  have hlt := ((h.builds b hb).builder hx).1
  have hm : Core.Move spec s.toCore (s.toCore.assembly (s.builds.cell b).assembly
      (·.abandon err)) := by
    refine .assembly _ _ (fun _ => rfl) (fun _ => nofun) (fun hr => ⟨.inl hr, rfl⟩)
  have hdone := h.build (f := fun x => { x with
    stage := .returned
    err := some (scopeFailure .assembly "assemble" x.scope [some err]) }) hm
    (h.apart_of_builder hb hx (fun _ => rfl)) (.of_next rfl (fun _ _ _ => id) rfl)
      (.of_inactive rfl)
  refine hdone.trans (hdone.toInv.close hlt ?_ (s.builds.cell b).cleanup none)
  exact congrArg Assembly.building (s.assemblies.cell_modify_self (s.builds.cell b).assembly
    (·.abandon err))

theorem Inv.building :
    (s.builds.cell b).assembly < s.assemblies.next
      ∧ (s.assemblies.cell (s.builds.cell b).assembly).building = true := by
  obtain ⟨hlt, hsome⟩ := (h.builds b hb).builder hx
  refine ⟨hlt, ?_⟩
  unfold Assembly.building
  rw [hsome]
  rfl

theorem Inv.goOn (hm : Core.Move spec s.toCore m) (hq : Quiet s.toCore m)
    (hn : m.records.next = s.records.next)
    {f : Build ε → Build ε} (ha : (f (s.builds.cell b)).assembly = (s.builds.cell b).assembly)
    (hf : (f (s.builds.cell b)).stage = .constructing → ∀ p,
      (f (s.builds.cell b)).selected[(f (s.builds.cell b)).index]? = some (some p) →
      (spec p).mode = .owned) :
    Follows spec s ((s.core m).build b f) := by
  obtain ⟨hlt, hsome⟩ := (h.builds b hb).builder hx
  refine h.build hm (hq.apart _ _) (.of_quiet hq hn rfl) ⟨fun _ => ?_, hf⟩
  rw [ha, hq.builder _ hlt]
  exact ⟨hlt.trans_le hm.grows.assemblies, hsome⟩

theorem Inv.finish : Follows spec s (s.finish b) := by
  unfold State.finish
  split
  · exact h.fail hb hx _
  · have hm : Core.Move spec s.toCore (s.toCore.assembly (s.builds.cell b).assembly
        Assembly.publish) :=
      .assembly _ _ (fun _ => rfl) nofun
        (fun _ => ⟨.inr (h.building hb hx).2, rfl⟩)
    exact h.build hm
      (h.apart_of_builder hb hx (fun _ => rfl)) (.of_next rfl (fun _ _ _ => id) rfl)
      (.of_inactive rfl)

theorem Inv.probed (e : ℕ) (err : Option (Err ε)) : Follows spec s (s.probed spec b e err) := by
  unfold State.probed
  split
  · exact h.fail hb hx _
  · exact h.goOn hb hx .idle (.refl _) rfl rfl nofun

end

theorem Inv.go {f : Build ε → Build ε} (hok : BuildOk spec s.toCore b (f (s.builds.cell b))) :
    Follows spec s (s.build b f) :=
  h.build .idle ((Quiet.refl _).apart _ _) (.of_quiet (.refl _) rfl rfl) hok

theorem Inv.reject (b : ℕ) (err : Err ε) : Follows spec s (s.reject b err) :=
  h.go (.of_inactive rfl)

theorem Inv.preflight (hst : (s.builds.cell b).stage = .preflight) (p : ℕ) :
    Follows spec s (s.preflight spec b p) := by
  have hgo : ∀ {f : Build ε → Build ε}, (∀ x, (f x).stage = x.stage) →
      Follows spec s (s.build b f) := by
    intro f hf
    refine h.go (.of_inactive ?_)
    rw [hf, hst]
    rfl
  unfold State.preflight
  split
  · exact h.reject b _
  · split
    · exact hgo (fun _ => rfl)
    · split
      · exact h.reject b _
      · split
        · exact h.reject b _
        · exact hgo (fun _ => rfl)

theorem Inv.start (b : ℕ) : Follows spec s (s.start b) := by
  refine h.build (.found _ b) ((Quiet.found _ b).apart _ _) (.of_quiet (.found _ b) rfl rfl)
    ⟨fun _ => ⟨Nat.lt_add_one _, ?_⟩, nofun⟩
  exact congrArg Assembly.builder (s.assemblies.cell_alloc_self _)

theorem Inv.take (hb : b < s.builds.next) (hst : (s.builds.cell b).stage = .building) {p : ℕ}
    (hp : s.current b = some (some p)) : Follows spec s (s.take spec b p) := by
  have hx : (s.builds.cell b).stage.active = true := by
    rw [hst]
    rfl
  obtain ⟨hlt, hbuilding⟩ := h.building hb hx
  unfold State.take
  split
  · exact h.fail hb hx _
  · split
    · next hmode =>
      refine h.goOn hb hx .idle (.refl _) rfl rfl (fun _ p' hp' => ?_)
      obtain rfl : p = p' := Option.some.inj (Option.some.inj (hp.symm.trans hp'))
      exact hmode
    · next hmode =>
      split
      · exact h.fail hb hx _
      · next r hr =>
        obtain ⟨a, e, he, rfl, hready, hadm, hdel⟩ := existing_eq_some hr
        have hrec := h.books.record e (h.titles.listed a e he)
        have hnc : (s.builds.cell b).stage ≠ .constructing := by
          rw [hst]
          simp
        split
        · next hbor =>
          exact h.goOn hb hx (.borrow _ p _ hlt hbuilding hbor hrec hadm)
            ((Quiet.record _ (f := Record.lend) (fun _ => rfl)).append _ _) rfl rfl
              (fun hc => absurd hc hnc)
        · next hbor =>
          have hmode' : (spec p).mode = .delegated := by
            cases hc : (spec p).mode with
            | owned => exact absurd hc hmode
            | borrowed => exact absurd hc hbor
            | delegated => rfl
          refine h.goOn hb hx (.delegate _ p _ hlt hbuilding hbor hrec hadm ?_)
            ((Quiet.record _ (f := (·.passTo (s.builds.cell b).assembly))
              (fun _ => rfl)).append _ _)
            rfl rfl (fun hc => absurd hc hnc)
          rw [hdel hmode']
          exact h.titles.ready a hready

theorem Inv.constructed (hb : b < s.builds.next) (hst : (s.builds.cell b).stage = .constructing)
    {p : ℕ} (hp : s.current b = some (some p)) (value : Constructed) :
    Follows spec s (s.constructed spec b p value) := by
  have hx : (s.builds.cell b).stage.active = true := by
    rw [hst]
    rfl
  obtain ⟨hlt, hbuilding⟩ := h.building hb hx
  have hmode : (spec p).mode ≠ .borrowed := by
    rw [(h.builds b hb).owned hst p hp]
    exact nofun
  refine h.quiet (.own _ p value.check (s.newRecord spec b p value) hlt hbuilding hmode rfl rfl)
    (.own _ p _ _) (h.hands value.release s.records.next rfl (fun r hr j => ?_))
    rfl rfl (fun _ _ => .inl)
  exact s.records.forall_alloc (Q := fun r x => x.next = some j →
    (r < s.records.next ∧ (s.records.cell r).next = some j) ∨
      (r = s.records.next ∧ value.release = true ∧ s.callbacks = j))
    (fun _ hr hj => .inl ⟨hr, hj⟩) (fun hj => .inr ⟨rfl, of_guard hj⟩) r hr

theorem Inv.construct (hb : b < s.builds.next) (hst : (s.builds.cell b).stage = .constructing)
    {p : ℕ} (hp : s.current b = some (some p)) (value : Constructed) (err : Option (Err ε)) :
    Follows spec s (s.construct spec b p value err) := by
  have hnew := h.constructed hb hst hp value
  have hx : ((s.constructed spec b p value).builds.cell b).stage.active = true := by
    show (s.builds.cell b).stage.active = true
    rw [hst]
    rfl
  unfold State.construct
  split
  · exact hnew.trans (hnew.toInv.fail hb hx _)
  · split
    · exact hnew.trans (hnew.toInv.goOn hb hx .idle
        (.refl _) rfl rfl nofun)
    · exact hnew.trans (hnew.toInv.fail hb hx _)

theorem Inv.check (hb : b < s.builds.next) (hst : (s.builds.cell b).stage = .checking) (e : ℕ) :
    Follows spec s (s.check spec b e) := by
  have hx : (s.builds.cell b).stage.active = true := by
    rw [hst]
    rfl
  unfold State.check
  split
  · exact h.fail hb hx _
  · split
    · exact h.goOn hb hx .idle (.refl _) rfl rfl nofun
    · refine h.goOn hb hx .idle (.refl _) rfl rfl (fun hc => ?_)
      exact nomatch hst.symm.trans hc

end State

end Composition
