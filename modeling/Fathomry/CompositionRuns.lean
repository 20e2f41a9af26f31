import Fathomry.CompositionCleanup

/-!
# Every step of the assemblies

The invariant of the previous module is kept by whatever happens: by the
stages of `Close`, by what integrations do with their leases, and so by every
step of the machine.
-/

namespace Composition

variable {ε : Type} {spec : ℕ → Spec} {k m : Core ε} {a b c e i : ℕ}

namespace State

variable {s s' : State ε}

/-! ## Closing -/

variable {f : Closing ε → Closing ε} {stage : Closing.Stage}

section

variable (h : Inv spec s)
include h

theorem Inv.closing_quiet (hc : c < s.closes.next) (hm : Core.Move spec s.toCore m)
    (hq : Quiet s.toCore m) (hn : m.records.next = s.records.next)
    (hst : (s.closes.cell c).stage = stage)
    (hf : (f (s.closes.cell c)).assembly = (s.closes.cell c).assembly)
    (hok : CloseOk spec m c (s.closes.cell c).assembly stage →
      CloseOk spec m c (s.closes.cell c).assembly (f (s.closes.cell c)).stage) :
    Follows spec s ((s.core m).closing c f) := by
  refine h.closing hm (hq.apart none (some c)) (.of_quiet hq hn rfl) rfl rfl (fun _ _ => id) hf
    (hok ?_)
  rw [← hst]
  exact h.others hm (hq.apart none none) hc nofun

theorem Inv.proceed (hc : c < s.closes.next) (hst : (s.closes.cell c).stage = stage)
    (hf : (f (s.closes.cell c)).assembly = (s.closes.cell c).assembly)
    (hok : CloseOk spec s.toCore c (s.closes.cell c).assembly stage →
      CloseOk spec s.toCore c (s.closes.cell c).assembly (f (s.closes.cell c)).stage) :
    Follows spec s (s.closing c f) :=
  h.closing_quiet hc .idle (.refl _) rfl hst hf hok

theorem Inv.lock (hc : c < s.closes.next) (hst : (s.closes.cell c).stage = .entered) :
    Follows spec s ((s.core (s.toCore.assembly (s.closes.cell c).assembly Assembly.lock)).closing c
      (fun x => { x with stage := .sealing 0 })) := by
  have hm : Core.Move spec s.toCore (s.toCore.assembly (s.closes.cell c).assembly Assembly.lock) :=
    .assembly _ _ (fun _ => rfl) (fun _ => id) nofun
  refine h.closing_quiet hc hm (.assembly _ (fun _ => rfl) (fun _ => rfl)) rfl hst rfl
    (fun hok => hok.lock ?_)
  exact congrArg Assembly.ready (s.assemblies.cell_modify_self _ Assembly.lock)

theorem Inv.sealNext (hc : c < s.closes.next) (hst : (s.closes.cell c).stage = .sealing i) :
    Follows spec s (s.sealNext c i) := by
  unfold State.sealNext
  split
  · next e he =>
    have hq : Quiet s.toCore (s.toCore.record (s.recordOf e) (·.shut (s.closes.cell c).assembly)) :=
      .record _ (fun _ => rfl)
    have hm : Core.Move spec s.toCore
        (s.toCore.record (s.recordOf e) (·.shut (s.closes.cell c).assembly)) :=
      .record _ _ (fun x => ⟨rfl, rfl, fun hx => (Bool.and_eq_true_iff.mp hx).1, id⟩)
    have hsealed : (s.toCore.record (s.recordOf e) (·.shut (s.closes.cell c).assembly)).SealedAt
        (s.closes.cell c).assembly e := by
      have hcell := s.records.cell_modify_self (s.recordOf e) (·.shut (s.closes.cell c).assembly)
      intro hown
      have hown' : (s.records.cell (s.recordOf e)).owner = (s.closes.cell c).assembly :=
        (congrArg Record.owner hcell).symm.trans hown
      refine (congrArg Record.admitting hcell).trans ?_
      simp [Record.shut, hown']
    refine h.closing (f := fun x => { x with stage := .sealing (i + 1) }) hm (hq.apart _ _)
      (.of_quiet hq rfl rfl) rfl rfl (fun _ _ => id) rfl ?_
    have hok := h.others hm (hq.apart none none) hc nofun
    rw [hst] at hok
    exact hok.sealNext he hsealed
  · next he =>
    have hm : Core.Move spec s.toCore
        (s.toCore.assembly (s.closes.cell c).assembly Assembly.unlock) :=
      .assembly _ _ (fun _ => rfl) (fun _ => id) (fun hx => ⟨.inl hx, h.titles.ready _ hx⟩)
    refine h.closing_quiet hc hm (.assembly _ (fun _ => rfl) (fun _ => rfl)) rfl hst rfl
      (fun hok => hok.unlock ?_)
    rw [Core.entriesOf_assembly (f := Assembly.unlock) (fun _ => rfl)]
    exact he

/-- **A call passes the gate** of its assembly, in either direction, when no
other call is in it. -/
theorem Inv.pass {o : Option ℕ} (hg : ∀ c', c' ≠ c → (s.target c).gate ≠ some c')
    (hst : CloseOk spec s.toCore c (s.closes.cell c).assembly stage) (hin : stage.inside = false)
    (hf : (f (s.closes.cell c)).assembly = (s.closes.cell c).assembly)
    (hok : CloseOk spec (s.toCore.assembly (s.closes.cell c).assembly (·.pass o)) c
        (s.closes.cell c).assembly stage →
      CloseOk spec (s.toCore.assembly (s.closes.cell c).assembly (·.pass o)) c
        (s.closes.cell c).assembly (f (s.closes.cell c)).stage) :
    Follows spec s
      ((s.core (s.toCore.assembly (s.closes.cell c).assembly (·.pass o))).closing c f) := by
  have hm : Core.Move spec s.toCore
      (s.toCore.assembly (s.closes.cell c).assembly (·.pass o)) :=
    .assembly _ _ (fun _ => rfl) (fun _ => id) (fun hx => ⟨.inl hx, h.titles.ready _ hx⟩)
  refine h.closing hm ⟨fun a' _ b' _ hb => ?_, fun a' _ c' hc' hg' => ?_, fun _ _ _ => id⟩
    (.of_next rfl (fun _ _ _ => id) rfl) rfl rfl (fun _ _ => id) hf (hok ?_)
  · exact (s.assemblies.cell_modify_proj _ a' (f := (·.pass o))
      (fun _ => rfl)).trans hb
  · have hne : a' ≠ (s.closes.cell c).assembly := by
      rintro rfl
      exact hg c' (fun hx => hc' (hx ▸ rfl)) hg'
    exact (congrArg Assembly.gate (s.assemblies.cell_modify_of_ne (·.pass o) hne)).trans hg'
  · refine hst.frame h.books h.titles hm (fun hx => ?_) (fun i e hi => ?_)
    · exact nomatch hin.symm.trans hx
    · rw [hi] at hin
      exact nomatch hin

theorem Inv.enter (hc : c < s.closes.next) (hst : (s.closes.cell c).stage = .waiting)
    (hg : (s.target c).gate = none) :
    Follows spec s ((s.core (s.toCore.assembly (s.closes.cell c).assembly
      (·.pass (some c)))).closing c
        (fun x => { x with stage := .visiting (s.target c).entries.length })) := by
  have hok := h.closes c hc
  rw [hst] at hok
  have hcell := s.assemblies.cell_modify_self (s.closes.cell c).assembly (·.pass (some c))
  refine h.pass (fun c' _ hx => ?_) hok rfl rfl (fun hok' => ?_)
  · exact nomatch hg.symm.trans hx
  · have hin := hok'.enter (congrArg Assembly.gate hcell)
    rwa [Core.entriesOf_assembly (f := (·.pass (some c))) (fun _ => rfl)] at hin

theorem Inv.leave (hc : c < s.closes.next) (hst : (s.closes.cell c).stage = .leaving) :
    Follows spec s ((s.core (s.toCore.assembly (s.closes.cell c).assembly (·.pass none))).closing c
      (fun x => { x with stage := .returned })) := by
  have hok := h.closes c hc
  rw [hst] at hok
  refine h.pass (fun c' hne hx => hne ?_) hok.returned rfl rfl id
  exact Option.some.inj (hx.symm.trans (hok.gate rfl))

theorem Inv.call (hc : c < s.closes.next) (hst : (s.closes.cell c).stage = .visiting (i + 1))
    (he : (s.target c).entries[i]? = some e) (hnb : ¬ s.toCore.Borrows spec e)
    (hown : s.owner (s.recordOf e) = (s.closes.cell c).assembly)
    (hb : (s.records.cell (s.recordOf e)).borrowers = 0) :
    Follows spec s ((s.core (s.toCore.record (s.recordOf e) Record.call)).closing c
      (fun x => { x with stage := .calling i })) := by
  have hm : Core.Move spec s.toCore (s.toCore.record (s.recordOf e) Record.call) :=
    .record _ _ (fun _ => ⟨rfl, rfl, id, id⟩)
  refine h.closing (f := fun x => { x with stage := .calling i }) hm
    ⟨fun _ _ _ _ => id, fun _ _ _ _ => id, fun r _ _ hn => ?_⟩ (.of_next rfl (fun r _ j => ?_) rfl)
    rfl rfl (fun _ _ => id) rfl ?_
  · exact s.records.forall_modify (Q := fun _ x => x.next = none) r (fun _ => hn) rfl
  · exact s.records.forall_modify (Q := fun r x => x.next = some j →
      (s.records.cell r).next = some j) r (fun _ => id) nofun
  · have hok := h.closes c hc
    rw [hst] at hok
    have hrec := h.books.record e (h.titles.listed _ e (List.mem_of_getElem? he))
    obtain ⟨hclosed, hown'⟩ := hm.closed h.books h.titles hrec (hok.closed he hown hb)
    refine (hok.frame h.books h.titles hm (fun _ => id) nofun).call he hnb (hown'.trans hown) ?_
      hclosed
    exact congrArg Record.next (s.records.cell_modify_self _ Record.call)

theorem Inv.visit (hc : c < s.closes.next) (hst : (s.closes.cell c).stage = .visiting (i + 1))
    (he : (s.target c).entries[i]? = some e) :
    Follows spec s (s.visit spec c (s.closes.cell c).assembly e i) := by
  have helt := h.titles.listed _ e (List.mem_of_getElem? he)
  fun_cases State.visit
  · exact h.proceed hc hst rfl CloseOk.leaving
  · next hmode hl =>
    -- What was borrowed is returned, and the entry is settled.
    refine h.closing_quiet hc (.giveBack e helt hl) ?_ rfl hst rfl (fun hok => ?_)
    · exact { Quiet.record _ (f := Record.unlend) (fun _ => rfl) with }
    · refine hok.pass he (.inl ⟨?_, ?_⟩)
      · exact (congrArg (fun p => (spec p).mode) (s.entries.cell_modify_proj e e
          (f := Entry.giveBack) (fun _ => rfl))).trans hmode
      · exact congrArg Entry.lease (s.entries.cell_modify_self e Entry.giveBack)
  · next hmode hl => exact h.proceed hc hst rfl (fun hok =>
      hok.pass he (.inl ⟨hmode, eq_false_of_ne_true hl⟩))
  · next hmode hdone =>
    exact h.proceed hc hst rfl (fun hok => hok.pass he (.inr ⟨hmode, hdone⟩))
  iterate 2 exact h.proceed hc hst rfl CloseOk.leaving
  · next hmode hdone _ hfree =>
    rw [not_or, not_not] at hdone hfree
    exact h.call hc hst he hmode hdone.1 hfree.1

theorem Inv.visitNext (hc : c < s.closes.next) (hst : (s.closes.cell c).stage = .visiting i) :
    Follows spec s (s.visitNext spec c i) := by
  unfold State.visitNext
  split
  · exact h.proceed hc hst rfl CloseOk.leaving
  · split
    · next e he => exact h.visit hc hst he
    · exact .refl h

omit h in
theorem complete_confirm (x : Record ε) (result : ReleaseResult ε) (j : ℕ)
    (h : x.complete = true) : (confirm x result j).complete = true := by
  unfold Record.complete at h ⊢
  obtain ⟨hq, hr⟩ := Bool.and_eq_true_iff.mp h
  simp [confirm, hq, hr]

theorem Inv.handed_cleaned (c i : ℕ) (he : s.recordOf e < s.records.next)
    (result : ReleaseResult ε) : Handed s (s.cleaned c e i result) := by
  refine h.hands result.continues (s.recordOf e) rfl (fun r hr j => ?_)
  refine s.records.forall_modify (f := (confirm · result s.callbacks)) (Q := fun r x =>
    x.next = some j → (r < s.records.next ∧ (s.records.cell r).next = some j) ∨
      (r = s.recordOf e ∧ result.continues = true ∧ s.callbacks = j)) r
    (fun _ hj => .inl ⟨hr, hj⟩) (fun hj => ?_)
  unfold confirm at hj
  split at hj
  · exact .inl ⟨he, hj⟩
  · exact .inr ⟨rfl, of_guard hj⟩

theorem Inv.cleaned (hc : c < s.closes.next) (hst : (s.closes.cell c).stage = .calling i)
    (he : (s.target c).entries[i]? = some e) (result : ReleaseResult ε) :
    Follows spec s (s.cleaned c e i result) := by
  have hok := h.closes c hc
  rw [hst] at hok
  obtain ⟨e', he', hnb, hown, -, -⟩ := hok.calling i rfl
  obtain rfl : e = e' := Option.some.inj (he.symm.trans he')
  have hrec := h.books.record e (h.titles.listed _ e (List.mem_of_getElem? he))
  have hm : Core.Move spec s.toCore
      (s.toCore.record (s.recordOf e) (confirm · result s.callbacks)) :=
    .record _ _ (fun x => ⟨rfl, rfl, id, complete_confirm x result _⟩)
  have hback := hok.back.frame h.books h.titles hm (fun _ => id) nofun
  have hapart : Apart none (some c) s.toCore
      (s.toCore.record (s.recordOf e) (confirm · result s.callbacks)) := by
    refine ⟨fun _ _ _ _ => id, fun _ _ _ _ => id, fun r _ hg hn => ?_⟩
    -- The record is ours, and we are in the gate.
    have hne : r ≠ s.recordOf e := by
      rintro rfl
      refine hg c rfl ?_
      rw [hown]
      exact hok.gate rfl
    exact (congrArg Record.next
      (s.records.cell_modify_of_ne (confirm · result s.callbacks) hne)).trans
      hn
  refine h.closing (f := fun x => { x with
    stage := if (confirm (s.records.cell (s.recordOf e)) result s.callbacks).complete then
      .visiting i else .leaving }) hm hapart (h.handed_cleaned c i hrec result) rfl rfl
        (fun _ _ => id) rfl ?_
  split
  · next hcomplete =>
    refine hback.pass he (.inr ⟨hnb, .inr ?_⟩)
    exact (congrArg Record.complete (s.records.cell_modify_self (s.recordOf e)
      (confirm · result s.callbacks))).trans hcomplete
  · exact hback.leaving

end

/-! ## Leases -/

variable {q : ℕ}

theorem reaches_acquiring {f : Acquiring ε → Acquiring ε} (h : (s.acquiring q f).Reaches a e)
    (hf : ∀ x, (f x).assembly = x.assembly ∧ (f x).entry = x.entry) : s.Reaches a e := by
  refine h.imp_right (fun ⟨q', hq', ha, he⟩ => ⟨q', hq', ?_, ?_⟩)
  · rw [← ha]
    exact (s.acquires.cell_modify_proj q q' (fun x => (hf x).1)).symm
  · rw [← he]
    exact (s.acquires.cell_modify_proj q q' (fun x => (hf x).2)).symm

/-- **What lets a call of `Acquire` through.** -/
theorem reason_eq_none (h : s.reason spec q = none) :
    (s.assemblies.cell (s.acquires.cell q).assembly).ready = true
      ∧ s.holds spec (s.acquires.cell q).assembly (s.acquires.cell q).entry = true := by
  unfold reason at h
  split at h
  · next hctx =>
    obtain ⟨x, hx⟩ := Option.isSome_iff_exists.mp hctx
    rw [hx] at h
    cases h
  · split at h
    · cases h
    · next hx =>
      simp only [Bool.or_eq_true, Bool.not_eq_true', not_or, Bool.not_eq_false] at hx
      exact ⟨hx.1.1, hx.2⟩

theorem Inv.attempt (h : Inv spec s) (hq : q < s.acquires.next) :
    Follows spec s (s.attempt spec q (s.recordOf (s.acquires.cell q).entry)) := by
  unfold State.attempt
  have hkeep : ∀ {f : Acquiring ε → Acquiring ε} {g : Admission → Admission} {r : ℕ},
      (∀ x, (f x).assembly = x.assembly ∧ (f x).entry = x.entry) →
      Follows spec s ((s.admission r g).acquiring q f) := fun hf =>
    h.quiet .idle (.refl _) (.of_quiet (.refl _) rfl rfl) rfl rfl
      (fun _ _ hx => .inl (reaches_acquiring hx hf))
  split
  · exact hkeep (fun _ => ⟨rfl, rfl⟩)
  · next hnone =>
    split
    · obtain ⟨hready, hholds⟩ := reason_eq_none hnone
      obtain ⟨-, -, he⟩ := h.reach _ _ (.inr ⟨q, hq, rfl, rfl⟩)
      have hheld : (s.entries.cell (s.acquires.cell q).entry).lease = true ∨
          s.owner (s.recordOf (s.acquires.cell q).entry) = (s.acquires.cell q).assembly := by
        unfold holds at hholds
        split at hholds
        · exact .inl hholds
        · exact .inr (of_decide_eq_true hholds)
      have hlend := Quiet.record (k := s.toCore) (s.recordOf (s.acquires.cell q).entry)
        (f := Record.lend) (fun _ => rfl)
      refine h.quiet (.grant _ _ _ _ (h.titles.listed _ _ he) hready hheld) { hlend with }
        (.of_quiet { hlend with } rfl rfl) rfl rfl
        (fun _ _ hx => .inl (reaches_acquiring
          hx
          (fun _ => ⟨rfl, rfl⟩)))
    · split
      iterate 2 exact hkeep (fun _ => ⟨rfl, rfl⟩)

variable {n : ℕ}

theorem Inv.retain (h : Inv spec s) (hn : n < s.nodes.next) : Follows spec s (s.retain n) := by
  unfold State.retain
  split
  · exact .refl h
  · next hx =>
    rw [not_or] at hx
    have hq : Quiet s.toCore (s.toCore.retain n) :=
      ⟨fun _ _ => rfl, fun _ _ => rfl, fun _ _ => rfl⟩
    exact h.quiet (.retain n hn (eq_false_of_ne_true hx.1)) hq (.of_quiet hq rfl rfl)
      rfl rfl (fun _ _ => .inl)

theorem release_of_released (h : (k.nodes.cell n).released = true) : k.release n = k := by
  have hr : Refcount.release k.nodes n = (k.nodes, 0, none) := if_pos h
  unfold Core.release
  rw [hr]
  have hf : (fun x : Family => { x with nodes := x.nodes - ((0 : ℕ) : ℤ) }) = id := by
    funext x
    simp
  rw [hf, Heap.modify_id]

theorem Inv.release (h : Inv spec s) (hn : n < s.nodes.next) : Follows spec s (s.release n) := by
  unfold State.release
  cases hr : (s.nodes.cell n).released with
  | true =>
    have hx : Refcount.release s.nodes n = (s.nodes, 0, none) := if_pos hr
    rw [hx]
    show Follows spec s (s.core (s.toCore.release n))
    rw [release_of_released hr]
    exact .refl h
  | false =>
    split
    · next hnone =>
      have hq : Quiet s.toCore (s.toCore.release n) :=
        ⟨fun _ _ => rfl, fun _ _ => rfl, fun _ _ => rfl⟩
      exact h.quiet (.release n hn hr hnone) hq (.of_quiet hq rfl rfl) rfl rfl (fun _ _ => .inl)
    · next m hm =>
      have hun := Quiet.record (k := s.toCore) (s.recordOf (s.familyOf n).entry)
        (f := Record.unlend) (fun _ => rfl)
      exact h.quiet (.free n m hn hr hm) { hun with } (.of_quiet { hun with } rfl rfl) rfl rfl
        (fun _ _ => .inl)

/-! ## Steps -/

theorem atBuild_eq_some {stage : Build.Stage} {t : State ε} (h : s.atBuild b stage t = some s') :
    b < s.builds.next ∧ (s.builds.cell b).stage = stage ∧ t = s' := by
  obtain ⟨hst, h⟩ := Option.ite_none_right_eq_some.mp h
  exact ⟨hst.1, hst.2, Option.some.inj h⟩

theorem atClose_eq_some {t : State ε} (h : s.atClose c stage t = some s') :
    c < s.closes.next ∧ (s.closes.cell c).stage = stage ∧ t = s' := by
  obtain ⟨hst, h⟩ := Option.ite_none_right_eq_some.mp h
  exact ⟨hst.1, hst.2, Option.some.inj h⟩

theorem Inv.step (h : Inv spec s) {l : Event ε} (hl : s.step spec l = some s') :
    Follows spec s s' := by
  revert hl
  fun_cases State.step
  all_goals intro hl
  any_goals cases hl
  any_goals obtain ⟨hb, hst, rfl⟩ := atBuild_eq_some hl
  any_goals obtain ⟨hc, hst, rfl⟩ := atClose_eq_some hl
  · next scope _ _ _ =>
    refine h.change .idle ((Quiet.refl _).apart none none) (.of_quiet (.refl _) rfl rfl)
      (fun b hb => ?_) (fun _ _ => .inl) (fun _ hc => .inl ⟨hc, nofun, rfl⟩)
    obtain hlt | rfl := Nat.lt_succ_iff_lt_or_eq.mp hb
    · exact .inl ⟨hlt, nofun, s.builds.cell_alloc_of_lt _ hlt⟩
    · refine .inr (.of_inactive ?_)
      refine (congrArg (fun x => (Build.stage x).active) (s.builds.cell_alloc_self _)).trans ?_
      cases validID scope with
      | true => rfl
      | false => rfl
  -- preflight
  · exact h.start _
  · exact h.reject _ _
  · exact h.preflight hst _
  -- take and construct
  · exact h.goOn hb (hst ▸ rfl) .idle (.refl _) rfl rfl nofun
  · next p hp _ => exact h.take hb hst hp
  · next hp => exact h.construct hb hst hp _ _
  -- check
  · exact h.finish hb (hst ▸ rfl)
  · exact h.check hb hst _
  · exact h.probed hb (hst ▸ rfl) _ _
  · next b _ hb => exact h.go { h.builds b hb with }
  -- `Close`
  · next ha => exact h.close ha.1 ha.2 _ none
  · exact h.lock hc hst
  · exact h.sealNext hc hst
  · next hg => exact h.enter hc hst hg
  · exact h.proceed hc hst rfl CloseOk.returned
  · exact h.visitNext hc hst
  · next hst hc =>
    unfold cleanedNext at hl
    split at hl
    · next e he =>
      cases hl
      exact h.cleaned hc hst he _
    · cases hl
  · exact h.leave hc hst
  · next hc => exact h.proceed hc rfl rfl id
  -- acquisitions
  · exact .refl h
  · next e he ha =>
    split
    · next hok =>
      refine h.quiet .idle (.refl _) (.of_quiet (.refl _) rfl rfl) rfl rfl (fun a' e' hx => ?_)
      obtain hx | hx := hx
      · obtain hx | hx := List.mem_cons.mp hx
        · cases hx
          refine .inr ⟨ha.1, h.titles.ready _ (Bool.and_eq_true_iff.mp hok).1, ?_⟩
          exact List.mem_of_find?_eq_some he
        · exact .inl (.inl hx)
      · exact .inl (.inr hx)
    · exact .refl h
  · next ha =>
    refine h.quiet .idle (.refl _) (.of_quiet (.refl _) rfl rfl) rfl rfl (fun a' e' hx => .inl ?_)
    obtain hx | ⟨q, hq, ha', he'⟩ := hx
    · exact .inl hx
    · obtain hlt | rfl := Nat.lt_succ_iff_lt_or_eq.mp hq
      · rw [s.acquires.cell_alloc_of_lt _ hlt] at ha' he'
        exact .inr ⟨q, hlt, ha', he'⟩
      · rw [Heap.cell_alloc_self] at ha' he'
        exact .inl (ha' ▸ he' ▸ ha.1)
  · next hq => exact h.attempt hq.1
  iterate 2
    exact h.quiet .idle (.refl _) (.of_quiet (.refl _) rfl rfl) rfl rfl
      (fun _ _ hx => .inl (reaches_acquiring hx (fun _ => ⟨rfl, rfl⟩)))
  · next hn => exact h.retain hn
  · next hn => exact h.release hn.1

end State

end Composition
