import Fathomry.AdapterRuntime
import Fathomry.Forest
import Mathlib.Data.Finset.Basic

/-!
# The tree of operations

An operation is kept by its producer's stack, a `Resolve` that is copying, its
guards, and its children. The code counts the first three in `refs` and the last
in `children`, each from its own entry point, and when both are zero the
operation is finished – by whoever happened to bring them there. This module
proves that the counters are what they stand for, at every operation and between
any two sections.

**The counters are counts.** `Tree.kids`, `Tree.held` and `Tree.kin` count
the unreleased children, the held guards and the unreleased family of an
operation over the heap. `Node.Ok` says what is true of one operation given
its three counts, so that a section has to be looked at only at the
operations it changes; `Tree.Ok` says it of all of them, with the links.

**Nothing above is gone before what is below.** An operation that is being
finished has no unreleased children and can get no more, so it stays at
zero until it is released. That is a statement about parents and children;
`Tree.Ok.released_of_below` is the statement about descendants.
-/

namespace Adapter

variable {ε T : Type} {z : Options}

def Finish.started : Finish ε → Bool
  | .idle => false
  | _ => true

def Finish.ended : Finish ε → Bool
  | .closed _ | .over => true
  | _ => false

namespace Node

/-- **What is true of an operation**, given how many unreleased children it
has, how many guards, and how many unreleased operations its family has. -/
structure Ok (z : Options) (n : Node ε T) (kids held kin : ℕ) : Prop where
  children : n.children = kids
  guards : n.guards = held
  refs : n.refs = held + n.producing.toNat + n.resolving.isSome.toNat
  resolving : n.resolved = true → n.resolving = none
  concluded : n.finishing = true → n.refs = 0 ∧ n.children = 0 ∧ n.resolved = true
  started : n.finishing = n.finish.started
  ended : n.released = n.finish.ended
  ready : n.ready = if n.resolved then 1 else 0
  done : n.done = if n.released then 1 else 0
  depth : n.depth ≤ z.maxDepth
  family : n.parent = none → n.released = false → n.family = kin ∧ (kin : ℤ) ≤ z.maxTasks
  bytes : n.parent = none → 0 < n.request.workBytes

/-- Where an operation stands and what it was asked for. Neither ever
changes. -/
def place (n : Node ε T) : Option ℕ × ℕ × ℤ × Request := (n.parent, n.root, n.depth, n.request)

variable {n : Node ε T} {kids held kin : ℕ}

variable (h : n.Ok z kids held kin)
include h

theorem Ok.finishing_of_released (hr : n.released = true) : n.finishing = true := by
  have he := h.ended.symm.trans hr
  rw [h.started]
  cases hf : n.finish with
  | idle => exact nomatch (hf ▸ he)
  | _ => rfl

theorem Ok.not_finishing (hk : 0 < n.refs ∨ 0 < n.children) : n.finishing = false := by
  refine eq_false_of_ne_true (fun hf => ?_)
  obtain ⟨hr, hc, -⟩ := h.concluded hf
  omega

/-! ## What the sections do to one operation -/

theorem Ok.move {f : Finish ε} (hs : f.started = n.finish.started) (he : f.ended = n.finish.ended) :
    (n.move f).Ok z kids held kin :=
  { h with started := h.started.trans hs.symm, ended := h.ended.trans he.symm }

omit h in
theorem place_enter (n : Node ε T) : n.enter.place = n.place := by
  unfold Node.enter
  split
  · rfl
  · rfl

omit h in
theorem released_enter (n : Node ε T) : n.enter.released = n.released := by
  unfold Node.enter
  split
  · rfl
  · rfl

theorem Ok.enter : n.enter.Ok z kids held kin := by
  unfold Node.enter
  split
  · next hf => exact h.move (by rw [hf]; rfl) (by rw [hf]; rfl)
  · exact h

theorem Ok.settle (hf : n.finish = .entered) (cleanup : Option (Err ε)) :
    (n.settle cleanup).Ok z kids held kin :=
  { h with
    started := h.started.trans (by rw [hf]; rfl)
    ended := h.ended.trans (by rw [hf]; rfl) }

theorem Ok.retain (hf : n.finishing = false) : n.retain.Ok z kids (held + 1) kin := by
  have hg := h.guards
  have hr := h.refs
  refine { h with
    guards := ?_
    refs := ?_
    concluded := fun ht => nomatch hf.symm.trans ht }
  · show n.guards + 1 = ((held + 1 : ℕ) : ℤ)
    omega
  · show n.refs + 1 = (held + 1 : ℕ) + n.producing.toNat + n.resolving.isSome.toNat
    omega

omit h in
theorem Ok.unretain (h : n.Ok z kids (held + 1) kin) : n.unretain.Ok z kids held kin := by
  have hg := h.guards
  have hr := h.refs
  have hf : n.finishing = false := h.not_finishing (.inl (by omega))
  refine { h with
    guards := ?_
    refs := ?_
    concluded := fun ht => nomatch hf.symm.trans ht }
  · show n.guards - 1 = (held : ℤ)
    omega
  · show n.refs - 1 = held + n.producing.toNat + n.resolving.isSome.toNat
    omega

theorem Ok.produced (hp : n.producing = true) : n.produced.Ok z kids held kin := by
  have hr := h.refs
  rw [hp, Bool.toNat_true] at hr
  have hf : n.finishing = false := h.not_finishing (.inl (by omega))
  refine { h with refs := ?_, concluded := fun ht => nomatch hf.symm.trans ht }
  show n.refs - 1 = held + (0 : ℕ) + n.resolving.isSome.toNat
  omega

theorem Ok.resolve (hr : n.resolved = false) (hs : n.resolving = none) (hf : n.finishing = false)
    (outcome : Outcome ε T) : (n.resolve outcome).Ok z kids held kin := by
  have hrefs := h.refs
  rw [hs, Option.isSome_none, Bool.toNat_false] at hrefs
  refine { h with
    refs := ?_
    resolving := fun ht => nomatch hr.symm.trans ht
    concluded := fun ht => nomatch hf.symm.trans ht }
  show n.refs + 1 = held + n.producing.toNat + (1 : ℕ)
  omega

theorem Ok.publish {o : Outcome ε T} (hs : n.resolving = some o) (outcome : Outcome ε T) :
    (n.publish outcome).Ok z kids held kin := by
  have hrefs := h.refs
  rw [hs, Option.isSome_some, Bool.toNat_true] at hrefs
  have hf : n.finishing = false := h.not_finishing (.inl (by omega))
  have hn : n.resolved = false :=
    eq_false_of_ne_true (fun ht => nomatch hs.symm.trans (h.resolving ht))
  have hready := h.ready
  rw [hn] at hready
  refine { h with
    refs := ?_
    resolving := fun _ => rfl
    concluded := fun ht => nomatch hf.symm.trans ht
    ready := ?_ }
  · show n.refs - 1 = held + n.producing.toNat + (0 : ℕ)
    omega
  · show n.ready + 1 = 1
    rw [hready]
    rfl

omit h in
theorem place_conclude [Inhabited T] (n : Node ε T) (missing : Err ε) (f : Finish ε) :
    (n.conclude missing f).place = n.place := by
  unfold Node.conclude
  split_ifs
  · rfl
  · rfl

omit h in
theorem released_conclude [Inhabited T] (n : Node ε T) (missing : Err ε) (f : Finish ε) :
    (n.conclude missing f).released = n.released := by
  unfold Node.conclude
  split_ifs
  · rfl
  · rfl

/-- **The last reference has gone**: the operation is handed to `finish`,
with an outcome. -/
theorem Ok.conclude [Inhabited T] (hf : n.canFinish = true) {f : Finish ε} (hs : f.started = true)
    (he : f.ended = false) (missing : Err ε) : (n.conclude missing f).Ok z kids held kin := by
  obtain ⟨hzero, hnot⟩ := Bool.and_eq_true_iff.mp hf
  obtain ⟨hr, hc⟩ := Bool.and_eq_true_iff.mp hzero
  have hrefs : n.refs = 0 := of_decide_eq_true hr
  have hchildren : n.children = 0 := of_decide_eq_true hc
  have hidle : n.finishing = false := Bool.not_eq_true' _ ▸ hnot
  have hnone : n.resolving = none := by
    have hsum := h.refs.symm.trans hrefs
    by_contra hn
    rw [Option.isSome_iff_ne_none.mpr hn, Bool.toNat_true] at hsum
    omega
  have hlive : n.released = false := by
    refine eq_false_of_ne_true (fun ht => ?_)
    exact nomatch hidle.symm.trans (h.finishing_of_released ht)
  unfold Node.conclude
  split
  · next hres =>
    exact { h with
      concluded := fun _ => ⟨hrefs, hchildren, hres⟩
      started := hs.symm
      ended := hlive.trans he.symm }
  · next hres =>
    have hready := h.ready
    rw [if_neg hres] at hready
    exact { h with
      resolving := fun _ => hnone
      concluded := fun _ => ⟨hrefs, hchildren, rfl⟩
      started := hs.symm
      ended := hlive.trans he.symm
      ready := by rw [hready]; rfl }

theorem Ok.retire {cleanup : Option (Err ε)} (hf : n.finish = .settled cleanup) (next : Bool)
    (kin' : ℕ) : (n.retire cleanup next).Ok z kids held kin' := by
  have hlive : n.released = false := h.ended.trans (by rw [hf]; rfl)
  have hdone := h.done
  rw [hlive] at hdone
  exact { h with
    started := h.started.trans (by rw [hf]; rfl)
    ended := rfl
    done := by
      show n.done + 1 = 1
      rw [hdone]
      rfl
    family := fun _ hr => nomatch hr }

/-- **A child comes or goes**, and the family with it. -/
theorem Ok.adjust {kids' kin' : ℕ} {i j : ℤ} (hk : (kids' : ℤ) = kids + i)
    (hq : (kin' : ℤ) = kin + j) (hi : i ≠ 0 → n.finishing = false)
    (hle : n.parent = none → n.released = false → (kin' : ℤ) ≤ z.maxTasks) :
    ((n.addChild i).addFamily j).Ok z kids' held kin' := by
  refine { h with
    children := ?_
    concluded := fun hf => ?_
    family := fun hp hr => ⟨?_, hle hp hr⟩ }
  · show n.children + i = kids'
    rw [hk, h.children]
  · obtain ⟨hr, hc, hres⟩ := h.concluded hf
    have hi0 : i = 0 := by
      by_contra hne
      exact nomatch (hi hne).symm.trans hf
    refine ⟨hr, ?_, hres⟩
    show n.children + i = 0
    rw [hi0, hc, add_zero]
  · show n.family + j = kin'
    rw [hq, (h.family hp hr).1]

end Node

namespace Tree

variable {t : Tree ε T} {v p r : ℕ}

/-! ## All operations -/

def parent (t : Tree ε T) (v : ℕ) : Option ℕ :=
  if v < t.nodes.next then (t.nodes.cell v).parent else none

def kids (t : Tree ε T) (v : ℕ) : ℕ :=
  t.nodes.count (fun n => n.parent = some v ∧ n.released = false)

def held (t : Tree ε T) (v : ℕ) : ℕ := t.guards.count (fun g => g.node = v ∧ g.held = true)

def kin (t : Tree ε T) (r : ℕ) : ℕ := t.nodes.count (fun n => n.root = r ∧ n.released = false)

/-- **How an operation is linked.** Parents are older, and root and depth
are inherited. -/
structure Linked (t : Tree ε T) (v : ℕ) : Prop where
  child : ∀ p, (t.nodes.cell v).parent = some p →
    p < v ∧ (t.nodes.cell v).root = (t.nodes.cell p).root
      ∧ (t.nodes.cell v).depth = (t.nodes.cell p).depth + 1
  top : (t.nodes.cell v).parent = none → (t.nodes.cell v).root = v ∧ (t.nodes.cell v).depth = 1
  root_le : (t.nodes.cell v).root ≤ v
  root_top : (t.nodes.cell (t.nodes.cell v).root).parent = none

/-- **What is true of all operations and guards.** -/
structure Ok (z : Options) (t : Tree ε T) : Prop where
  node : ∀ v < t.nodes.next, (t.nodes.cell v).Ok z (t.kids v) (t.held v) (t.kin v)
  link : ∀ v < t.nodes.next, Linked t v
  guard : ∀ g < t.guards.next, (t.guards.cell g).node < t.nodes.next
  roots : ∀ v, v ∈ t.roots ↔ v < t.nodes.next ∧ (t.nodes.cell v).parent = none
    ∧ (t.nodes.cell v).released = false

/-- Links depend on where the operations stand, and on nothing else. -/
theorem Linked.congr {t' : Tree ε T} (h : Linked t v)
    (hp : ∀ u ≤ v, (t'.nodes.cell u).place = (t.nodes.cell u).place) : Linked t' v := by
  have hparent {u : ℕ} (hu : u ≤ v) : (t'.nodes.cell u).parent = (t.nodes.cell u).parent :=
    congrArg Prod.fst (hp u hu)
  have hroot {u : ℕ} (hu : u ≤ v) : (t'.nodes.cell u).root = (t.nodes.cell u).root :=
    congrArg (fun x => x.2.1) (hp u hu)
  have hdepth {u : ℕ} (hu : u ≤ v) : (t'.nodes.cell u).depth = (t.nodes.cell u).depth :=
    congrArg (fun x => x.2.2.1) (hp u hu)
  refine ⟨fun p hq => ?_, fun hq => ?_, ?_, ?_⟩
  · have hc := h.child p ((hparent le_rfl).symm.trans hq)
    rw [hroot le_rfl, hdepth le_rfl, hroot hc.1.le, hdepth hc.1.le]
    exact hc
  · rw [hroot le_rfl, hdepth le_rfl]
    exact h.top ((hparent le_rfl).symm.trans hq)
  · rw [hroot le_rfl]
    exact h.root_le
  · rw [hroot le_rfl, hparent h.root_le]
    exact h.root_top

/-- **A section that neither moves nor releases an operation.** -/
structure Still (t t' : Tree ε T) : Prop where
  next : t'.nodes.next = t.nodes.next
  place : ∀ u, (t'.nodes.cell u).place = (t.nodes.cell u).place
  released : ∀ u, (t'.nodes.cell u).released = (t.nodes.cell u).released
  roots : t'.roots = t.roots

theorem Still.refl (t : Tree ε T) : Still t t := ⟨rfl, fun _ => rfl, fun _ => rfl, rfl⟩

theorem Still.trans {t' t'' : Tree ε T} (h : Still t t') (h' : Still t' t'') : Still t t'' :=
  ⟨h'.next.trans h.next, fun u => (h'.place u).trans (h.place u),
    fun u => (h'.released u).trans (h.released u), h'.roots.trans h.roots⟩

/-- Such a section keeps the links and the counts, so it has to be looked
at only where it changes something. -/
theorem Ok.of_still {t' : Tree ε T} (h : Ok z t) (hs : Still t t')
    (hguard : ∀ g < t'.guards.next, (t'.guards.cell g).node < t.nodes.next)
    (hn : ∀ u < t.nodes.next, (t'.nodes.cell u).Ok z (t.kids u) (t'.held u) (t.kin u)) :
    Ok z t' := by
  have hparent (u : ℕ) : (t'.nodes.cell u).parent = (t.nodes.cell u).parent :=
    congrArg Prod.fst (hs.place u)
  have hkids (u : ℕ) : t'.kids u = t.kids u :=
    Heap.count_congr _ hs.next (fun w _ => by rw [hparent, hs.released])
  have hkin (u : ℕ) : t'.kin u = t.kin u :=
    Heap.count_congr _ hs.next (fun w _ => by
      rw [show (t'.nodes.cell w).root = _ from congrArg (fun x => x.2.1) (hs.place w),
        hs.released]
      rfl)
  refine ⟨fun u hu => ?_, fun u hu => ?_, fun g hg => ?_, fun u => ?_⟩
  · rw [hkids, hkin]
    exact hn u (hs.next ▸ hu)
  · exact (h.link u (hs.next ▸ hu)).congr (fun w _ => hs.place w)
  · rw [hs.next]
    exact hguard g hg
  · rw [hs.roots, hs.next, hparent, hs.released]
    exact h.roots u

section Change

variable {f : Node ε T → Node ε T}

theorem place_change (hf : (f (t.nodes.cell v)).place = (t.nodes.cell v).place) (u : ℕ) :
    ((t.change v f).nodes.cell u).place = (t.nodes.cell u).place :=
  t.nodes.cell_modify_congr hf u

theorem still_change (hf : (f (t.nodes.cell v)).place = (t.nodes.cell v).place)
    (hr : (f (t.nodes.cell v)).released = (t.nodes.cell v).released) : Still t (t.change v f) :=
  ⟨rfl, place_change hf, t.nodes.cell_modify_congr hr, rfl⟩

/-- A section that changes one operation, and perhaps its guards. -/
theorem Ok.changeWith (h : Ok z t) {gs : Heap Guard}
    (hf : (f (t.nodes.cell v)).place = (t.nodes.cell v).place)
    (hr : (f (t.nodes.cell v)).released = (t.nodes.cell v).released)
    (hguard : ∀ g < gs.next, (gs.cell g).node < t.nodes.next)
    (hheld : ∀ u ≠ v, gs.count (fun g => g.node = u ∧ g.held = true) = t.held u)
    (hn : v < t.nodes.next → (f (t.nodes.cell v)).Ok z (t.kids v)
      (gs.count (fun g => g.node = v ∧ g.held = true)) (t.kin v)) :
    Ok z { t.change v f with guards := gs } := by
  have hs := still_change hf hr
  refine h.of_still ⟨rfl, hs.place, hs.released, rfl⟩ hguard (fun u hu => ?_)
  show ((t.nodes.modify v f).cell u).Ok z (t.kids u)
    (gs.count (fun g => g.node = u ∧ g.held = true)) (t.kin u)
  rw [Heap.cell_modify]
  split_ifs with huv
  · exact huv ▸ hn (huv ▸ hu)
  · rw [hheld u huv]
    exact h.node u hu

theorem Ok.change (h : Ok z t) (hf : (f (t.nodes.cell v)).place = (t.nodes.cell v).place)
    (hr : (f (t.nodes.cell v)).released = (t.nodes.cell v).released)
    (hn : v < t.nodes.next → (f (t.nodes.cell v)).Ok z (t.kids v) (t.held v) (t.kin v)) :
    Ok z (t.change v f) :=
  h.changeWith hf hr h.guard (fun _ _ => rfl) hn

end Change

theorem Ok.hold (h : Ok z t) (hv : v < t.nodes.next)
    (hf : (t.nodes.cell v).finishing = false) :
    Ok z { t.change v Node.retain with guards := t.guards.alloc ⟨v, true, true⟩ } := by
  refine h.changeWith rfl rfl 
    (t.guards.forall_alloc (Q := fun _ x => x.node < t.nodes.next) h.guard hv) (fun u hu => ?_)
    (fun hv => ?_)
  · rw [Heap.count_alloc, if_neg (fun hn => hu hn.1.symm), Nat.add_zero]
    rfl
  · rw [Heap.count_alloc, if_pos ⟨rfl, rfl⟩]
    exact (h.node v hv).retain hf

theorem Ok.unguard (h : Ok z t) (g : ℕ) :
    Ok z { t with guards := t.guards.modify g Guard.disarm } := by
  refine h.of_still ⟨rfl, fun _ => rfl, fun _ => rfl, rfl⟩ (fun g' hg' => ?_) (fun u hu => ?_)
  · show ((t.guards.modify g Guard.disarm).cell g').node < t.nodes.next
    rw [Heap.cell_modify_proj t.guards g g' (f := Guard.disarm) (π := Guard.node) (fun _ => rfl)]
    exact h.guard g' hg'
  · have hheld : (t.guards.modify g Guard.disarm).count (fun x => x.node = u ∧ x.held = true)
        = t.held u := Heap.count_modify_of_iff _ t.guards g Iff.rfl
    exact (congrArg (fun k => (t.nodes.cell u).Ok z (t.kids u) k (t.kin u)) hheld).mpr
      (h.node u hu)

section

variable [Inhabited T]

theorem still_canFinishLocked {f : Finish ε} : Still t (t.canFinishLocked z v f) := by
  unfold canFinishLocked
  split_ifs
  · exact still_change (Node.place_conclude _ _ _) (Node.released_conclude _ _ _)
  · exact Still.refl t

theorem Ok.canFinishLocked (h : Ok z t) {f : Finish ε} (hs : f.started = true)
    (he : f.ended = false) : Ok z (t.canFinishLocked z v f) := by
  unfold Tree.canFinishLocked
  split_ifs with hc
  · exact h.change (Node.place_conclude _ _ _) (Node.released_conclude _ _ _)
      (fun hv => (h.node v hv).conclude hc hs he _)
  · exact h

theorem Ok.returnGuard (h : Ok z t) {g : ℕ} (hg : g < t.guards.next)
    (hh : (t.guards.cell g).held = true) : Ok z (t.returnGuard z g) := by
  refine Ok.canFinishLocked ?_ rfl rfl
  refine h.changeWith rfl rfl (fun g' hg' => ?_) (fun u hu => ?_) (fun hv => ?_)
  · rw [Heap.cell_modify_proj t.guards g g' (f := Guard.drop) (π := Guard.node) (fun _ => rfl)]
    exact h.guard g' hg'
  · refine Heap.count_modify_of_iff _ t.guards g ?_
    exact ⟨fun hn => absurd hn.1.symm hu, fun hn => absurd hn.1.symm hu⟩
  · have hloss := Heap.count_modify_loss
      (fun x : Guard => x.node = (t.guards.cell g).node ∧ x.held = true) t.guards hg
      (g := Guard.drop) ⟨rfl, hh⟩ (fun hn => nomatch hn.2)
    have hn := h.node _ hv
    rw [show t.held (t.guards.cell g).node = _ from hloss.symm] at hn
    exact hn.unretain

/-- No step of the owning part moves or releases an operation. That takes
the locked section of `finish`. -/
theorem still_of_step {e : Event ε T} {t' : Tree ε T} (hstep : t.step z e = some t') :
    Still t t' := by
  cases stepped hstep with
  | cancel | capture | resolve | releaseSource | skipSource => exact still_change rfl rfl
  | holdRefused | unguardRefused | resolveRefused => exact Still.refl t
  | hold v =>
    have hs := still_change (t := t) (v := v) (f := Node.retain) rfl rfl
    exact ⟨rfl, hs.place, hs.released, rfl⟩
  | unguard => exact ⟨rfl, fun _ => rfl, fun _ => rfl, rfl⟩
  | returnGuard g =>
    have hs := still_change (t := t) (v := (t.guards.cell g).node) (f := Node.unretain) rfl rfl
    have hdrop : Still t { t.change (t.guards.cell g).node Node.unretain with
      guards := t.guards.modify g Guard.drop } := ⟨rfl, hs.place, hs.released, rfl⟩
    exact hdrop.trans still_canFinishLocked
  | producerReturned =>
    exact (still_change rfl rfl).trans still_canFinishLocked
  | resolved v outcome =>
    exact (still_change rfl rfl).trans
      still_canFinishLocked
  | notify v =>
    have hover : Still t (t.change v (·.move .over)) := still_change rfl rfl
    unfold notify
    split
    · exact hover.trans (still_change (Node.place_enter _) (Node.released_enter _))
    · exact hover

/-- **Every step of the owning part keeps what is true.** -/
theorem Ok.step (h : Ok z t) {e : Event ε T} {t' : Tree ε T} (hstep : t.step z e = some t') :
    Ok z t' := by
  cases stepped hstep with
  | cancel v how => exact h.change rfl rfl (fun hv => { h.node v hv with })
  | holdRefused | unguardRefused | resolveRefused => exact h
  | hold v hv hf => exact h.hold hv hf
  | unguard g => exact h.unguard g
  | returnGuard g hg hh => exact h.returnGuard hg hh
  | producerReturned v _ hp =>
    exact (h.change rfl rfl (fun hv => (h.node v hv).produced hp)).canFinishLocked rfl rfl
  | capture v source => exact h.change rfl rfl (fun hv => { h.node v hv with })
  | resolve v outcome _ hr hs hf =>
    exact h.change rfl rfl (fun hv => (h.node v hv).resolve hr hs hf outcome)
  | resolved v outcome _ hs =>
    exact (h.change rfl rfl (fun hv => (h.node v hv).publish hs _)).canFinishLocked rfl rfl
  | releaseSource v cleanup _ _ hf =>
    exact h.change rfl rfl (fun hv => (h.node v hv).settle hf cleanup)
  | skipSource v _ hf => exact h.change rfl rfl (fun hv => (h.node v hv).settle hf none)
  | notify v next _ hf =>
    have hover : Ok z (t.change v (·.move .over)) :=
      h.change rfl rfl (fun hv => (h.node v hv).move (by rw [hf]; rfl) (by rw [hf]; rfl))
    unfold notify
    split
    · exact hover.change (Node.place_enter _) (Node.released_enter _)
        (fun hp => (hover.node _ hp).enter)
    · exact hover

end

/-! ## Families change -/

theorem cell_adjust (t : Tree ε T) (p r u : ℕ) (k : ℤ) :
    (t.adjust p r k).nodes.cell u
      = ((t.nodes.cell u).addChild (if u = p then k else 0)).addFamily
          (if u = r then k else 0) := by
  have hchild (n : Node ε T) : n.addChild 0 = n := by
    unfold Node.addChild
    rw [add_zero]
  have hfamily (n : Node ε T) : n.addFamily 0 = n := by
    unfold Node.addFamily
    rw [add_zero]
  show ((t.nodes.modify p (·.addChild k)).modify r (·.addFamily k)).cell u = _
  rw [Heap.cell_modify, Heap.cell_modify]
  split_ifs
  · rfl
  · rw [hchild]
  · rw [hfamily]
  · rw [hfamily, hchild]

theorem place_adjust (u : ℕ) (k : ℤ) :
    ((t.adjust p r k).nodes.cell u).place = (t.nodes.cell u).place := by
  rw [cell_adjust]
  rfl

theorem kids_adjust (k : ℤ) : (t.adjust p r k).kids = t.kids := by
  funext u
  exact Heap.count_congr _ rfl (fun w _ => by rw [cell_adjust]; rfl)

theorem kin_adjust (k : ℤ) : (t.adjust p r k).kin = t.kin := by
  funext u
  exact Heap.count_congr _ rfl (fun w _ => by rw [cell_adjust]; rfl)

namespace Ok

theorem kids_fresh (h : Ok z t) : t.kids t.nodes.next = 0 := by
  refine (Heap.count_eq_zero_iff _ _).mpr (fun u hu hn => ?_)
  have := ((h.link u hu).child _ hn.1).1
  omega

theorem kin_fresh (h : Ok z t) : t.kin t.nodes.next = 0 := by
  refine (Heap.count_eq_zero_iff _ _).mpr (fun u hu hn => ?_)
  have hle := (h.link u hu).root_le
  omega

theorem held_fresh (h : Ok z t) : t.held t.nodes.next = 0 := by
  refine (Heap.count_eq_zero_iff _ _).mpr (fun g hg hn => ?_)
  have hlt := h.guard g hg
  omega

end Ok

section Grow

variable {n : Node ε T} {u : ℕ}

theorem cell_grow_self : (t.grow n).nodes.cell t.nodes.next = n := Heap.cell_alloc_self _ _

theorem cell_grow (hu : u < t.nodes.next) : (t.grow n).nodes.cell u = t.nodes.cell u :=
  Heap.cell_alloc_of_lt _ _ hu

theorem lt_of_grow (hu : u < (t.grow n).nodes.next) : u < t.nodes.next ∨ u = t.nodes.next :=
  Nat.lt_succ_iff_lt_or_eq.mp hu

theorem kids_grow (hr : n.released = false) (u : ℕ) :
    (t.grow n).kids u = t.kids u + if n.parent = some u then 1 else 0 := by
  unfold kids
  rw [show (t.grow n).nodes = t.nodes.alloc n from rfl, Heap.count_alloc]
  simp only [hr, and_true]

theorem kin_grow (hr : n.released = false) (u : ℕ) :
    (t.grow n).kin u = t.kin u + if n.root = u then 1 else 0 := by
  unfold kin
  rw [show (t.grow n).nodes = t.nodes.alloc n from rfl, Heap.count_alloc]
  simp only [hr, and_true]

theorem Ok.linked_grow (h : Ok z t)
    (hchild : ∀ p, n.parent = some p → p < t.nodes.next ∧ n.root = (t.nodes.cell p).root
      ∧ n.depth = (t.nodes.cell p).depth + 1)
    (htop : n.parent = none → n.root = t.nodes.next ∧ n.depth = 1)
    (hu : u < (t.grow n).nodes.next) : Linked (t.grow n) u := by
  obtain hlt | rfl := lt_of_grow hu
  · exact (h.link u hlt).congr (fun w hw => congrArg Node.place (cell_grow (hw.trans_lt hlt)))
  refine ⟨fun p hp => ?_, fun hp => ?_, ?_, ?_⟩
  · rw [cell_grow_self] at hp ⊢
    rw [cell_grow (hchild p hp).1]
    exact hchild p hp
  · rw [cell_grow_self] at hp ⊢
    exact htop hp
  · rw [cell_grow_self]
    cases hp : n.parent with
    | none => exact (htop hp).1.le
    | some p =>
      rw [(hchild p hp).2.1]
      exact ((h.link p (hchild p hp).1).root_le).trans (hchild p hp).1.le
  · rw [cell_grow_self]
    cases hp : n.parent with
    | none => rw [(htop hp).1, cell_grow_self, hp]
    | some p =>
      have hl := h.link p (hchild p hp).1
      rw [(hchild p hp).2.1, cell_grow (hl.root_le.trans_lt (hchild p hp).1)]
      exact hl.root_top

end Grow

/-! ### Operations are released -/

section Retire

variable (cleanup : Option (Err ε)) (next : Bool)

theorem count_retire (Q : Node ε T → Prop) [DecidablePred Q] (hv : v < t.nodes.next)
    (hr : (t.nodes.cell v).released = false) :
    (t.nodes.modify v (·.retire cleanup next)).count (fun n => Q n ∧ n.released = false)
      + (if Q (t.nodes.cell v) then 1 else 0)
        = t.nodes.count (fun n => Q n ∧ n.released = false) := by
  have hgone : ¬ (Q ((t.nodes.cell v).retire cleanup next)
      ∧ ((t.nodes.cell v).retire cleanup next).released = false) := fun hn => nomatch hn.2
  split_ifs with hu
  · exact Heap.count_modify_loss _ t.nodes hv ⟨hu, hr⟩ hgone
  · exact Heap.count_modify_of_iff (fun n => Q n ∧ n.released = false) t.nodes v
      ⟨fun hn => absurd hn hgone, fun hn => absurd hn.1 hu⟩

theorem kids_retire (hv : v < t.nodes.next) (hr : (t.nodes.cell v).released = false) (u : ℕ) :
    (t.change v (·.retire cleanup next)).kids u
      + (if (t.nodes.cell v).parent = some u then 1 else 0) = t.kids u :=
  count_retire cleanup next (fun n => n.parent = some u) hv hr

theorem kin_retire (hv : v < t.nodes.next) (hr : (t.nodes.cell v).released = false) (u : ℕ) :
    (t.change v (·.retire cleanup next)).kin u
      + (if (t.nodes.cell v).root = u then 1 else 0) = t.kin u :=
  count_retire cleanup next (fun n => n.root = u) hv hr

variable {cleanup next}

theorem cell_retire (u : ℕ) : (t.change v (·.retire cleanup next)).nodes.cell u
    = if u = v then (t.nodes.cell u).retire cleanup next else t.nodes.cell u :=
  Heap.cell_modify t.nodes v u (·.retire cleanup next)

theorem place_retire (u : ℕ) :
    ((t.change v (·.retire cleanup next)).nodes.cell u).place = (t.nodes.cell u).place :=
  place_change rfl u

theorem Ok.finishRoot (h : Ok z t) (hv : v < t.nodes.next)
    (hp : (t.nodes.cell v).parent = none)
    (hf : (t.nodes.cell v).finish = .settled cleanup) : Ok z (t.finishRoot v cleanup) := by
  have hr : (t.nodes.cell v).released = false := (h.node v hv).ended.trans (by rw [hf]; rfl)
  refine ⟨fun u hu => ?_, fun u hu => (h.link u hu).congr (fun w _ => place_retire w), h.guard,
    fun u => ?_⟩
  · have hk := kids_retire cleanup false hv hr u
    have hq := kin_retire cleanup false hv hr u
    rw [hp, if_neg nofun, Nat.add_zero] at hk
    rw [((h.link v hv).top hp).1] at hq
    show ((t.change v (·.retire cleanup false)).nodes.cell u).Ok z
      ((t.change v (·.retire cleanup false)).kids u) (t.held u)
      ((t.change v (·.retire cleanup false)).kin u)
    rw [hk, cell_retire]
    split_ifs with huv
    · subst huv
      exact (h.node u hu).retire hf false _
    · rw [if_neg (fun hn => huv hn.symm), Nat.add_zero] at hq
      rw [hq]
      exact h.node u hu
  · show u ∈ t.roots.erase v ↔ u < t.nodes.next
      ∧ ((t.change v (·.retire cleanup false)).nodes.cell u).parent = none
      ∧ ((t.change v (·.retire cleanup false)).nodes.cell u).released = false
    rw [cell_retire, Finset.mem_erase, h.roots u]
    split_ifs with huv
    · exact ⟨fun hn => absurd huv hn.1, fun hn => (nomatch hn.2.2)⟩
    · exact and_iff_right huv

/-- **A child is released**, and let go of. -/
theorem Ok.detach (h : Ok z t) (hv : v < t.nodes.next)
    (hp : (t.nodes.cell v).parent = some p)
    (hf : (t.nodes.cell v).finish = .settled cleanup) : Ok z (t.detach v p cleanup next) := by
  have hr : (t.nodes.cell v).released = false := (h.node v hv).ended.trans (by rw [hf]; rfl)
  obtain ⟨hpv, hroot, -⟩ := (h.link v hv).child p hp
  have hplt : p < t.nodes.next := hpv.trans hv
  have hrv : (t.nodes.cell v).root < v := hroot ▸ (h.link p hplt).root_le.trans_lt hpv
  -- a child that is not released keeps its parent from being finished
  have hopen : (t.nodes.cell p).finishing = false := by
    refine (h.node p hplt).not_finishing (.inr ?_)
    rw [(h.node p hplt).children]
    exact Int.natCast_pos.mpr (Heap.count_pos_of _ _ hv ⟨hp, hr⟩)
  refine ⟨fun u hu => ?_, fun u hu => (h.link u hu).congr (fun w _ =>
    (place_adjust w (-1)).trans (place_retire w)), h.guard, fun u => ?_⟩
  · have hk := kids_retire cleanup next hv hr u
    have hq := kin_retire cleanup next hv hr u
    rw [hp] at hk
    unfold Tree.detach
    rw [kids_adjust, kin_adjust, cell_adjust, cell_retire]
    show Node.Ok z _ _ (t.held u) _
    by_cases huv : u = v
    · subst huv
      rw [if_pos rfl, if_neg hpv.ne', if_neg hrv.ne']
      rw [if_neg (fun hn => hpv.ne (Option.some.inj hn))] at hk
      exact ((h.node u hu).retire hf next _).adjust (by omega) (add_zero _).symm
        (absurd rfl) (fun hn => nomatch hp.symm.trans hn)
    · rw [if_neg huv]
      refine (h.node u hu).adjust ?_ ?_ (fun hi => ?_) (fun hn hlive => ?_)
      · by_cases hup : u = p
        · rw [if_pos (congrArg some hup.symm)] at hk
          omega
        · rw [if_neg (fun hn => hup (Option.some.inj hn).symm)] at hk
          omega
      · by_cases hur : u = (t.nodes.cell v).root
        · rw [if_pos hur.symm] at hq
          omega
        · rw [if_neg (fun hn => hur hn.symm)] at hq
          omega
      · have hup : u = p := by
          by_contra hn
          exact hi (if_neg hn)
        exact hup ▸ hopen
      · have hle := ((h.node u hu).family hn hlive).2
        omega
  · show u ∈ t.roots ↔ u < t.nodes.next ∧ _
    unfold Tree.detach
    rw [cell_adjust, cell_retire, h.roots u]
    by_cases huv : u = v
    · subst huv
      rw [if_pos rfl]
      exact ⟨fun hn => (nomatch hp.symm.trans hn.2.1), fun hn => (nomatch hp.symm.trans hn.2.1)⟩
    · rw [if_neg huv]
      rfl

end Retire

section

variable [Inhabited T] {x : Call T}

theorem Ok.spawnRoot (h : Ok z t) (hx : x.parent = none) (hb : 0 < x.request.workBytes) :
    Ok z (t.spawn x) := by
  unfold spawn
  rw [hx]
  refine ⟨fun u hu => ?_, fun u hu => ?_, fun g hg => (h.guard g hg).trans (Nat.lt_add_one _),
    fun u => ?_⟩
  · show ((t.grow (t.rootNode x)).nodes.cell u).Ok z ((t.grow (t.rootNode x)).kids u) (t.held u)
      ((t.grow (t.rootNode x)).kin u)
    rw [kids_grow rfl, kin_grow rfl,
      if_neg (show (t.rootNode x).parent ≠ some u from fun hn => nomatch hx.symm.trans hn)]
    obtain hlt | rfl := lt_of_grow hu
    · rw [cell_grow hlt, if_neg (show (t.rootNode x).root ≠ u from hlt.ne')]
      exact h.node u hlt
    · rw [cell_grow_self, h.kids_fresh, h.held_fresh, h.kin_fresh]
      rw [if_pos (show (t.rootNode x).root = t.nodes.next from rfl)]
      exact ⟨rfl, rfl, rfl, nofun, nofun, rfl, rfl, rfl, rfl,
        z.depth_bound.1, fun _ _ => ⟨rfl, z.tasks_bound.1⟩, fun _ => hb⟩
  · exact (h.linked_grow (n := t.rootNode x) (fun p hp => nomatch hx.symm.trans hp)
      (fun _ => ⟨rfl, rfl⟩) hu).congr (fun _ _ => rfl)
  · show u ∈ insert t.nodes.next t.roots ↔ u < (t.grow (t.rootNode x)).nodes.next
      ∧ ((t.grow (t.rootNode x)).nodes.cell u).parent = none
      ∧ ((t.grow (t.rootNode x)).nodes.cell u).released = false
    rw [Finset.mem_insert, h.roots u]
    constructor
    · rintro (rfl | ⟨hlt, hp, hr⟩)
      · rw [cell_grow_self]
        exact ⟨Nat.lt_add_one _, hx, rfl⟩
      · rw [cell_grow hlt]
        exact ⟨hlt.trans (Nat.lt_add_one _), hp, hr⟩
    · rintro ⟨hu, hp, hr⟩
      obtain hlt | rfl := lt_of_grow hu
      · rw [cell_grow hlt] at hp hr
        exact .inr ⟨hlt, hp, hr⟩
      · exact .inl rfl

/-- **A child begins**, under a parent that is not being finished, in a
family with room for it. -/
theorem Ok.spawnChild (h : Ok z t) (hx : x.parent = some p) (hp : p < t.nodes.next)
    (hf : (t.nodes.cell p).finishing = false)
    (hfam : (t.nodes.cell (t.nodes.cell p).root).family < z.maxTasks)
    (hdep : (t.nodes.cell p).depth < z.maxDepth) : Ok z (t.spawn x) := by
  unfold spawn
  rw [hx]
  show Ok z ((t.grow (t.childNode x p)).adjust p (t.nodes.cell p).root 1)
  have hroot : (t.nodes.cell p).root < t.nodes.next := (h.link p hp).root_le.trans_lt hp
  have hkids (u : ℕ) : (t.grow (t.childNode x p)).kids u = t.kids u + if u = p then 1 else 0 := by
    rw [kids_grow rfl, show (t.childNode x p).parent = some p from hx]
    simp only [Option.some.injEq, eq_comm]
  have hkin (u : ℕ) : (t.grow (t.childNode x p)).kin u
      = t.kin u + if u = (t.nodes.cell p).root then 1 else 0 := by
    rw [kin_grow rfl, show (t.childNode x p).root = (t.nodes.cell p).root from rfl]
    simp only [eq_comm]
  refine ⟨fun u hu => ?_, fun u hu => ?_, fun g hg => (h.guard g hg).trans (Nat.lt_add_one _),
    fun u => ?_⟩
  · rw [kids_adjust, kin_adjust, hkids, hkin, cell_adjust]
    show Node.Ok z _ _ (t.held u) _
    obtain hlt | rfl := lt_of_grow (n := t.childNode x p) hu
    · rw [cell_grow hlt]
      refine (h.node u hlt).adjust (by push_cast; rfl) (by push_cast; rfl) (fun hi => ?_)
        (fun hq hr => ?_)
      · have hup : u = p := by
          by_contra hn
          exact hi (if_neg hn)
        exact hup ▸ hf
      · obtain ⟨hkin, hle⟩ := (h.node u hlt).family hq hr
        split_ifs with hur
        · rw [← hur, hkin] at hfam
          omega
        · exact hle
    · rw [cell_grow_self, if_neg hp.ne', if_neg hp.ne', if_neg hroot.ne', if_neg hroot.ne',
        h.kids_fresh, h.held_fresh, h.kin_fresh]
      exact ⟨rfl, rfl, rfl, nofun, nofun, rfl, rfl, rfl, rfl,
        hdep, fun hn => (nomatch hx.symm.trans hn), fun hn => (nomatch hx.symm.trans hn)⟩
  · exact (h.linked_grow (n := t.childNode x p) (fun q hq => by
        obtain rfl : p = q := Option.some.inj (hx.symm.trans hq)
        exact ⟨hp, rfl, rfl⟩)
      (fun hn => nomatch hx.symm.trans hn) hu).congr (fun w _ => place_adjust w 1)
  · show u ∈ t.roots ↔ u < (t.grow (t.childNode x p)).nodes.next ∧ _
    rw [cell_adjust, h.roots u]
    show _ ↔ _ ∧ ((t.grow (t.childNode x p)).nodes.cell u).parent = none
      ∧ ((t.grow (t.childNode x p)).nodes.cell u).released = false
    constructor
    · rintro ⟨hlt, hq, hr⟩
      rw [cell_grow hlt]
      exact ⟨hlt.trans (Nat.lt_add_one _), hq, hr⟩
    · rintro ⟨hu, hq, hr⟩
      obtain hlt | rfl := lt_of_grow hu
      · rw [cell_grow hlt] at hq hr
        exact ⟨hlt, hq, hr⟩
      · rw [cell_grow_self] at hq
        exact nomatch hx.symm.trans hq

end

theorem still_cancelRoots (cause : Option (Err ε)) : Still t (t.cancelRoots cause) := by
  refine ⟨rfl, fun u => ?_, fun u => ?_, rfl⟩
  · show Node.place (if u ∈ t.roots then _ else _) = _
    split_ifs
    · rfl
    · rfl
  · show Node.released (if u ∈ t.roots then _ else _) = _
    split_ifs
    · rfl
    · rfl

theorem Ok.cancelRoots (h : Ok z t) (cause : Option (Err ε)) : Ok z (t.cancelRoots cause) := by
  refine h.of_still (still_cancelRoots cause) h.guard (fun u hu => ?_)
  show Node.Ok z (if u ∈ t.roots then _ else _) _ _ _
  split_ifs
  · exact { h.node u hu with }
  · exact h.node u hu

/-! ## What follows -/

section

variable (h : Ok z t)

include h

/-- **An operation that is being finished has no unreleased child.** -/
theorem Ok.released_of_finishing {u : ℕ} (hv : v < t.nodes.next)
    (hf : (t.nodes.cell v).finishing = true) (hu : t.parent u = some v) :
    (t.nodes.cell u).released = true := by
  have hlt : u < t.nodes.next ∧ (t.nodes.cell u).parent = some v :=
    Option.ite_none_right_eq_some.mp hu
  have hzero : t.kids v = 0 := by
    have hc := (h.node v hv).children
    rw [((h.node v hv).concluded hf).2.1] at hc
    omega
  by_contra hn
  exact (Heap.count_eq_zero_iff _ _).mp hzero u hlt.1 ⟨hlt.2, eq_false_of_ne_true hn⟩

/-- **Everything below an operation that is being finished is released.** -/
theorem Ok.released_of_below {u : ℕ} (hv : v < t.nodes.next)
    (hf : (t.nodes.cell v).finishing = true) (hb : Forest.Below t.parent u v) :
    u < t.nodes.next ∧ (t.nodes.cell u).released = true := by
  refine hb.inherit (P := fun w => w < t.nodes.next ∧ (t.nodes.cell w).finishing = true)
    (Q := fun w => w < t.nodes.next ∧ (t.nodes.cell w).released = true)
    (fun {w q} hq hrest => ?_) (fun {w} hw => ?_) ⟨hv, hf⟩
  · exact ⟨(Option.ite_none_right_eq_some.mp hq).1, h.released_of_finishing hrest.1 hrest.2 hq⟩
  · exact ⟨hw.1, (h.node w hw.1).finishing_of_released hw.2⟩

end

end Tree

end Adapter
