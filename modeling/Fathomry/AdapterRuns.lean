import Fathomry.AdapterAdmission
import Fathomry.AdapterTree

/-!
# Runs of a runtime

The books of admission are kept over a parameter, what the operations hold;
the tree of operations is kept without a look at permits. Here the two are
put together. **What the operations hold is one permit for each unreleased
root**, so a call that begins as a root moves its permit from the calls to
the operations, and the locked section of `finish` gives it back in the
step that releases the root.

Sections of the tree leave permits alone because they neither move nor
release an operation (`Tree.Still`). That is all the two halves have to
know of each other.
-/

namespace Adapter

open Node

variable {ε T : Type} {z : Options}

/-- **What an operation holds of the allowance**: an unreleased root its
permit, everything else nothing. -/
def Node.permit (n : Node ε T) : ℤ × ℤ :=
  if n.parent = none ∧ n.released = false then (1, n.request.workBytes) else 0

namespace Node

variable {n n' : Node ε T}

theorem permit_of_root (hp : n.parent = none) (hr : n.released = false) :
    n.permit = (1, n.request.workBytes) :=
  if_pos ⟨hp, hr⟩

theorem permit_of_child {p : ℕ} (hp : n.parent = some p) : n.permit = 0 := by
  have hn : ¬ (n.parent = none ∧ n.released = false) := fun h => nomatch hp.symm.trans h.1
  exact if_neg hn

theorem permit_of_released (hr : n.released = true) : n.permit = 0 := by
  have hn : ¬ (n.parent = none ∧ n.released = false) := fun h => nomatch hr.symm.trans h.2
  exact if_neg hn

theorem permit_congr (hp : n'.place = n.place) (hr : n'.released = n.released) :
    n'.permit = n.permit := by
  unfold permit
  rw [show n'.parent = n.parent from congrArg Prod.fst hp, hr,
    show n'.request = n.request from congrArg (fun x => x.2.2.2) hp]

end Node

namespace Tree

variable {t t' : Tree ε T} {v p : ℕ}

theorem Still.permits (h : Still t t') : t'.nodes.total permit = t.nodes.total permit :=
  Heap.total_eq_of_cells h.next (fun u _ => permit_congr (h.place u) (h.released u))

theorem Ok.permits_nonneg (h : Ok z t) : 0 ≤ t.nodes.total permit := by
  refine Finset.sum_nonneg (fun u hu => ?_)
  unfold permit
  split_ifs with hn
  · exact ⟨zero_le_one, ((h.node u (Finset.mem_range.mp hu)).bytes hn.1).le⟩
  · exact le_rfl

/-- Linking a child to its parent moves no permit. -/
theorem permits_adjust (r : ℕ) (k : ℤ) :
    (t.adjust p r k).nodes.total permit = t.nodes.total permit :=
  Heap.total_eq_of_cells rfl (fun u _ => by
    rw [cell_adjust]
    exact permit_congr rfl rfl)

/-- Releasing an operation takes its permit from the operations. -/
theorem permits_retire (cleanup : Option (Err ε)) (next : Bool) (hv : v < t.nodes.next) :
    (t.change v (·.retire cleanup next)).nodes.total permit
      = t.nodes.total permit - (t.nodes.cell v).permit := by
  have hgone : ((t.nodes.cell v).retire cleanup next).permit = 0 := permit_of_released rfl
  show (t.nodes.modify v _).total permit = _
  rw [Heap.total_modify_sub _ hv, hgone, zero_sub, ← sub_eq_add_neg]

/-- **A root that is released has no permit any more.** -/
theorem permits_finishRoot (cleanup : Option (Err ε)) (hv : v < t.nodes.next)
    (hp : (t.nodes.cell v).parent = none) (hr : (t.nodes.cell v).released = false) :
    t.nodes.total permit = (t.finishRoot v cleanup).nodes.total permit
      + (1, (t.nodes.cell v).request.workBytes) := by
  have ht := permits_retire cleanup false hv
  rw [permit_of_root hp hr] at ht
  exact eq_add_of_sub_eq ht.symm

variable [Inhabited T] {x : Call T}

/-- **A root brings its permit.** -/
theorem permits_spawnRoot (hx : x.parent = none) :
    (t.spawn x).nodes.total permit = t.nodes.total permit + (1, x.request.workBytes) := by
  unfold spawn
  rw [hx]
  show (t.nodes.alloc (t.rootNode x)).total permit = _
  rw [Heap.total_alloc, permit_of_root hx rfl]
  rfl

theorem next_spawn : (t.spawn x).nodes.next = t.nodes.next + 1 := by
  unfold spawn
  split
  · rfl
  · rfl

theorem permits_spawnChild (hx : x.parent = some p) :
    (t.spawn x).nodes.total permit = t.nodes.total permit := by
  unfold spawn
  rw [hx]
  show ((t.grow (t.childNode x p)).adjust p _ 1).nodes.total permit = _
  rw [permits_adjust]
  show (t.nodes.alloc (t.childNode x p)).total permit = _
  rw [Heap.total_alloc, permit_of_child hx, add_zero]

theorem next_finishChild (v p : ℕ) (cleanup : Option (Err ε)) :
    (t.finishChild z v p cleanup).nodes.next = t.nodes.next :=
  still_canFinishLocked.next

theorem permits_finishChild {cleanup : Option (Err ε)} (hv : v < t.nodes.next)
    (hp : (t.nodes.cell v).parent = some p) :
    (t.finishChild z v p cleanup).nodes.total permit = t.nodes.total permit := by
  unfold finishChild
  rw [still_canFinishLocked.permits]
  unfold detach
  rw [permits_adjust, permits_retire _ _ hv, permit_of_child hp, sub_zero]

end Tree

namespace Runtime

variable {s s' : Runtime ε T}

/-- **What is true of a runtime** between sections. -/
structure Sound (z : Options) (s : Runtime ε T) : Prop where
  tree : s.toTree.Ok z
  books : s.toAdmission.Ok z (s.nodes.total Node.permit)
  parents : ∀ c < s.callers.next, ∀ p, (s.callers.cell c).parent = some p → p < s.nodes.next

theorem Sound.parents_of_kept (h : Sound z s) {a : Admission ε T}
    (hk : Admission.Kept s.toAdmission a) {n : ℕ} (hn : s.nodes.next ≤ n) :
    ∀ c < a.callers.next, ∀ p, (a.callers.cell c).parent = some p → p < n := by
  intro c hc p hp
  rw [show (a.callers.cell c).parent = _ from congrArg Call.parent (hk.call c)] at hp
  exact (h.parents c (hk.next ▸ hc) p hp).trans_le hn

theorem bytes_of_valid {x : Call T} (hx : validRequest x.request x.parent.isSome = true)
    (hp : x.parent = none) : 0 < x.request.workBytes := by
  rw [hp] at hx
  have hw := (Bool.and_eq_true_iff.mp hx).2
  exact of_decide_eq_true (Bool.and_eq_true_iff.mp hw).1

variable [Inhabited T]

theorem sound_init : Sound z (init : Runtime ε T) where
  tree := ⟨nofun, nofun, nofun,
    fun v => ⟨fun hm => absurd hm (Finset.notMem_empty v),
      fun hm => absurd hm.1 (Nat.not_lt_zero v)⟩⟩
  books := Admission.ok_init
  parents := nofun

theorem Sound.step (h : Sound z s) {e : Event ε T} (hstep : s.step z e = some s') : Sound z s' := by
  have hlive := h.tree.permits_nonneg
  have hnext {x : Call T} : (s.toTree.spawn x).nodes.next = s.nodes.next + 1 := Tree.next_spawn
  cases stepped hstep with
  | call x hx hp =>
    refine ⟨h.tree, h.books.invoke (bytes_of_valid hx), fun c hc p hq => ?_⟩
    exact s.callers.forall_alloc (Q := fun _ x => x.parent = some p → p < s.nodes.next)
      (fun c hc => h.parents c hc p) (hp p) c hc hq
  | admission e a ha =>
    exact ⟨h.tree, h.books.step hlive ha, h.parents_of_kept (Admission.kept_step ha) le_rfl⟩
  | refuseRoot c err hc hp hr =>
    exact ⟨h.tree, h.books.giveBack hlive hc (Caller.charged_of_admitted hp hr)
      (Caller.waits_of_early (by rw [hp]; rfl)) hr,
      h.parents_of_kept
        ((Admission.kept_releasePermitLocked _).trans (Admission.kept_goto _)) le_rfl⟩
  | refuseChild c p err hc hp hr =>
    exact ⟨h.tree, h.books.goto_left hc rfl rfl (Caller.waits_of_early (by rw [hp]; rfl))
      (Caller.charged_of_parent hr), h.parents_of_kept (Admission.kept_goto _) le_rfl⟩
  | beginRoot c hc hp hr =>
    have hbytes := (h.books.callers c hc).positive hr
    have hfree : ((s.callers.cell c).goto (.begun s.nodes.next)).charged = false :=
      Caller.charged_of_left rfl
    refine ⟨h.tree.spawnRoot hr hbytes, ?_, ?_⟩
    · -- the permit of the call becomes the permit of the operation
      show Admission.Ok z (s.toAdmission.goto c (.begun s.nodes.next)) (Heap.total _ permit)
      rw [Tree.permits_spawnRoot hr]
      refine h.books.goto hc rfl (Caller.waits_of_early (by rw [hp]; rfl)) ?_
      rw [Caller.permit_of_charged (Caller.charged_of_admitted hp hr),
        Caller.permit_of_not hfree, zero_add]
    · exact h.parents_of_kept (Admission.kept_goto _) (Nat.le_succ _ |>.trans_eq hnext.symm)
  | beginChild c p hc hp hr hf hfam hdep =>
    refine ⟨h.tree.spawnChild hr (h.parents c hc p hr) hf hfam hdep, ?_, ?_⟩
    · show Admission.Ok z (s.toAdmission.goto c (.begun s.nodes.next)) (Heap.total _ permit)
      rw [Tree.permits_spawnChild hr]
      exact h.books.goto_left hc rfl rfl (Caller.waits_of_early (by rw [hp]; rfl))
        (Caller.charged_of_parent hr)
    · exact h.parents_of_kept (Admission.kept_goto _) (Nat.le_succ _ |>.trans_eq hnext.symm)
  | shutdownAgain => exact h
  | shutdown cause hcl =>
    refine ⟨h.tree.cancelRoots cause, ?_, h.parents_of_kept
      ((Admission.kept_shutdown cause).trans Admission.kept_closeDoneLocked) le_rfl⟩
    show Admission.Ok z _ (Heap.total _ permit)
    rw [(Tree.still_cancelRoots cause).permits]
    exact (h.books.toBooks.shutdown hcl cause).closeDone nofun
  | finishRoot v cleanup hv hf hp =>
    have hr : (s.nodes.cell v).released = false :=
      (h.tree.node v hv).ended.trans (by rw [hf]; rfl)
    have hsplit := Tree.permits_finishRoot cleanup hv hp hr
    have hB : Admission.Books z s.toAdmission _ := hsplit ▸ h.books.toBooks
    exact ⟨h.tree.finishRoot hv hp hf,
      hB.releasePermit (h.tree.finishRoot hv hp hf).permits_nonneg ((h.tree.node v hv).bytes hp).le,
      h.parents_of_kept (Admission.kept_releasePermitLocked _) le_rfl⟩
  | finishChild v p cleanup hv hf hp =>
    refine ⟨(h.tree.detach hv hp hf).canFinishLocked rfl rfl, ?_,
      h.parents_of_kept (Admission.Kept.of_eq rfl) (Tree.next_finishChild v p cleanup).ge⟩
    show Admission.Ok z s.toAdmission ((s.toTree.finishChild z v p cleanup).nodes.total permit)
    rw [Tree.permits_finishChild hv hp]
    exact h.books
  | tree e t ht =>
    have hstill := Tree.still_of_step ht
    refine ⟨h.tree.step ht, ?_, h.parents_of_kept (Admission.Kept.of_eq rfl) hstill.next.ge⟩
    show Admission.Ok z s.toAdmission (t.nodes.total permit)
    rw [hstill.permits]
    exact h.books

theorem sound_of_run {tr : List (Event ε T)} (hr : (machine z).Run tr s) : Sound z s :=
  hr.invariant (I := fun _ s => Sound z s) sound_init (fun _ h => h.step)

end Runtime

/-! ## Histories -/

def Finish.past : Finish ε → Bool
  | .settled _ | .closed _ | .over => true
  | _ => false

def Tree.Event.releases (v : ℕ) : Tree.Event ε T → Bool
  | .releaseSource u _ => u == v
  | _ => false

def Event.releases (v : ℕ) : Event ε T → Bool
  | .tree e => e.releases v
  | _ => false

def Event.finishes (v : ℕ) : Event ε T → Bool
  | .finish u => u == v
  | _ => false

namespace Tree

variable {t t' : Tree ε T} {v p u : ℕ}

def marked (t : Tree ε T) (π : Node ε T → Bool) (v : ℕ) : Bool :=
  v < t.nodes.next && π (t.nodes.cell v)

def gone (t : Tree ε T) (v : ℕ) : Bool := t.marked (·.released) v

def past (t : Tree ε T) (v : ℕ) : Bool := t.marked (·.finish.past) v

section Marked

variable {π : Node ε T → Bool}

theorem marked_of_lt (hv : v < t.nodes.next) : t.marked π v = π (t.nodes.cell v) := by
  unfold marked
  rw [decide_eq_true hv, Bool.true_and]

theorem marked_of_not_lt (hv : ¬ v < t.nodes.next) : t.marked π v = false := by
  unfold marked
  rw [decide_eq_false hv, Bool.false_and]

theorem marked_congr (hn : t'.nodes.next = t.nodes.next)
    (hπ : u < t.nodes.next → π (t'.nodes.cell u) = π (t.nodes.cell u)) :
    t'.marked π u = t.marked π u := by
  by_cases hu : u < t.nodes.next
  · rw [marked_of_lt hu, marked_of_lt (hn ▸ hu), hπ hu]
  · rw [marked_of_not_lt hu, marked_of_not_lt (hn ▸ hu)]

theorem marked_grow {n : Node ε T} (hn : π n = false) : (t.grow n).marked π u = t.marked π u := by
  by_cases hu : u < t.nodes.next
  · rw [marked_of_lt hu, marked_of_lt (Nat.lt_succ_of_lt hu), cell_grow hu]
  · rw [marked_of_not_lt hu]
    by_cases hun : u = t.nodes.next
    · rw [hun, marked_of_lt (Nat.lt_add_one _), cell_grow_self, hn]
    · exact marked_of_not_lt (fun hlt => (lt_of_grow hlt).elim hu hun)

theorem marked_change {f : Node ε T → Node ε T}
    (hf : v < t.nodes.next → π (f (t.nodes.cell v)) = π (t.nodes.cell v)) :
    (t.change v f).marked π u = t.marked π u := by
  refine marked_congr rfl (fun hu => ?_)
  show π ((t.nodes.modify v f).cell u) = _
  rw [Heap.cell_modify]
  split_ifs with huv
  · exact huv ▸ hf (huv ▸ hu)
  · rfl

theorem marked_change_self {f : Node ε T → Node ε T} (hv : v < t.nodes.next)
    (hf : π (f (t.nodes.cell v)) = true) :
    (t.change v f).marked π u = (t.marked π u || v == u) := by
  by_cases huv : v = u
  · subst huv
    rw [marked_of_lt (t := t.change v f) hv, beq_self_eq_true, Bool.or_true]
    show π ((t.nodes.modify v f).cell v) = true
    rw [Heap.cell_modify_self, hf]
  · rw [beq_false_of_ne huv, Bool.or_false]
    refine marked_congr rfl (fun _ => ?_)
    show π ((t.nodes.modify v f).cell u) = _
    rw [Heap.cell_modify_of_ne _ _ (fun hn => huv hn.symm)]

end Marked

theorem Still.gone (h : Still t t') : t'.gone u = t.gone u :=
  marked_congr h.next (fun _ => h.released u)

theorem gone_adjust (r : ℕ) (k : ℤ) : (t.adjust p r k).gone u = t.gone u :=
  marked_congr rfl (fun _ => by rw [cell_adjust]; rfl)

theorem past_adjust (r : ℕ) (k : ℤ) : (t.adjust p r k).past u = t.past u :=
  marked_congr rfl (fun _ => by rw [cell_adjust]; rfl)

theorem past_change {f : Node ε T → Node ε T}
    (hf : (f (t.nodes.cell v)).finish.past = (t.nodes.cell v).finish.past) :
    (t.change v f).past u = t.past u :=
  marked_change (fun _ => hf)

theorem past_cancelRoots (cause : Option (Err ε)) : (t.cancelRoots cause).past u = t.past u := by
  refine marked_congr rfl (fun _ => ?_)
  show Finish.past (finish (if u ∈ t.roots then _ else _)) = _
  split_ifs
  · rfl
  · rfl

theorem past_finishRoot {cleanup : Option (Err ε)}
    (hf : (t.nodes.cell v).finish = .settled cleanup) :
    (t.finishRoot v cleanup).past u = t.past u :=
  past_change (by rw [hf]; rfl)

variable [Inhabited T] {x : Call T}

theorem gone_spawn : (t.spawn x).gone u = t.gone u := by
  unfold spawn
  split
  · exact marked_grow rfl
  · rw [gone_adjust]
    exact marked_grow rfl

theorem past_spawn : (t.spawn x).past u = t.past u := by
  unfold spawn
  split
  · exact marked_grow (π := (·.finish.past)) rfl
  · rw [past_adjust]
    exact marked_grow rfl

theorem past_canFinishLocked {f : Finish ε} (hf : f.past = false)
    (hst : v < t.nodes.next → (t.nodes.cell v).finishing = (t.nodes.cell v).finish.started) :
    (t.canFinishLocked z v f).past u = t.past u := by
  unfold canFinishLocked
  split_ifs with hc
  · refine marked_change (fun hv => ?_)
    have hidle : (t.nodes.cell v).finish.started = false :=
      (hst hv).symm.trans (Bool.not_eq_true' _ ▸ (Bool.and_eq_true_iff.mp hc).2)
    have hold : (t.nodes.cell v).finish.past = false := by
      cases hfin : (t.nodes.cell v).finish with
      | idle => rfl
      | _ => exact nomatch (hfin ▸ hidle)
    rw [hold]
    unfold conclude
    split_ifs
    · exact hf
    · exact hf
  · rfl

theorem past_returned (h : Ok z t) {f : Node ε T → Node ε T} {gs : Heap Guard}
    (hfin : (f (t.nodes.cell v)).finish = (t.nodes.cell v).finish)
    (hfing : (f (t.nodes.cell v)).finishing = (t.nodes.cell v).finishing) :
    (({ t.change v f with guards := gs } : Tree ε T).canFinishLocked z v .entered).past u
      = t.past u := by
  rw [past_canFinishLocked rfl (fun hv => ?_)]
  · exact past_change (by rw [hfin])
  · show ((t.nodes.modify v f).cell v).finishing = ((t.nodes.modify v f).cell v).finish.started
    rw [Heap.cell_modify_self, hfin, hfing]
    exact (h.node v hv).started

theorem gone_finishChild (hv : v < t.nodes.next) (cleanup : Option (Err ε)) :
    (t.finishChild z v p cleanup).gone u = (t.gone u || v == u) := by
  unfold finishChild detach
  rw [still_canFinishLocked.gone, gone_adjust]
  exact marked_change_self hv rfl

theorem past_finishChild (h : Ok z t) (hv : v < t.nodes.next) {cleanup : Option (Err ε)}
    (hp : (t.nodes.cell v).parent = some p) (hf : (t.nodes.cell v).finish = .settled cleanup) :
    (t.finishChild z v p cleanup).past u = t.past u := by
  unfold finishChild
  rw [past_canFinishLocked rfl (fun hp' => ((h.detach hv hp hf).node p hp').started)]
  unfold detach
  rw [past_adjust]
  exact past_change (by rw [hf]; rfl)

/-- **`releaseSource` is called on the way past it.** -/
theorem past_of_step (h : Ok z t) {e : Event ε T} (hstep : t.step z e = some t') (u : ℕ) :
    (t.past u).toNat + (e.releases u).toNat ≤ (t'.past u).toNat := by
  have hstay (he : e.releases u = false) (hp : t'.past u = t.past u) :
      (t.past u).toNat + (e.releases u).toNat ≤ (t'.past u).toNat := by
    rw [he, hp]
    exact le_rfl
  have hpass {v : ℕ} (cleanup : Option (Err ε)) (hv : v < t.nodes.next)
      (hf : (t.nodes.cell v).finish = .entered) :
      (t.past u).toNat + (v == u).toNat ≤ ((t.change v (·.settle cleanup)).past u).toNat := by
    rw [show (t.change v (·.settle cleanup)).past u = _ from marked_change_self hv rfl]
    by_cases huv : v = u
    · subst huv
      have hnot : t.past v = false := (marked_of_lt hv).trans (by rw [hf]; rfl)
      simp [hnot, show t.marked (·.finish.past) v = false from hnot]
    · rw [beq_false_of_ne huv]
      simp [past]
  cases stepped hstep with
  | cancel | capture | resolve => exact hstay rfl (past_change rfl)
  | holdRefused | unguardRefused | resolveRefused | unguard => exact hstay rfl rfl
  | hold => exact hstay rfl (past_change rfl)
  | returnGuard => exact hstay rfl (past_returned h rfl rfl)
  | producerReturned => exact hstay rfl (past_returned h rfl rfl)
  | resolved v outcome =>
    exact hstay rfl (past_returned (f := (·.publish (t.copied v outcome))) h rfl rfl)
  | releaseSource v cleanup _ hv hf => exact hpass cleanup hv hf
  | skipSource v hv hf => exact (Nat.le_add_right _ _).trans (hpass none hv hf)
  | notify v next hv hf =>
    refine hstay rfl ?_
    have hover : (t.change v (·.move .over)).past u = t.past u := past_change (by rw [hf]; rfl)
    unfold notify
    split
    · refine Eq.trans (past_change ?_) hover
      unfold enter
      split
      · next hh => rw [hh]; rfl
      · rfl
    · exact hover

end Tree

namespace Runtime

variable {s s' : Runtime ε T} [Inhabited T]

/-- **An operation is released by the locked section of `finish`**, and by
nothing else. -/
theorem gone_of_step (h : Sound z s) {e : Event ε T} (hstep : s.step z e = some s') (u : ℕ) :
    (s'.toTree.gone u).toNat = (s.toTree.gone u).toNat + (e.finishes u).toNat := by
  have hrelease {v : ℕ} {cleanup : Option (Err ε)} (hv : v < s.nodes.next)
      (hf : (s.nodes.cell v).finish = .settled cleanup) :
      (s.toTree.gone u || v == u).toNat = (s.toTree.gone u).toNat + (v == u).toNat := by
    by_cases huv : v = u
    · subst huv
      have hlive : s.toTree.gone v = false :=
        (Tree.marked_of_lt hv).trans ((h.tree.node v hv).ended.trans (by rw [hf]; rfl))
      simp [hlive]
    · rw [beq_false_of_ne huv]
      simp
  cases stepped hstep with
  | call | admission | refuseRoot | refuseChild | shutdownAgain => rfl
  | beginRoot | beginChild => exact congrArg Bool.toNat Tree.gone_spawn
  | shutdown cause => exact congrArg Bool.toNat (Tree.still_cancelRoots cause).gone
  | finishRoot v cleanup hv hf =>
    exact (congrArg Bool.toNat (Tree.marked_change_self hv rfl)).trans (hrelease hv hf)
  | finishChild v p cleanup hv hf =>
    exact (congrArg Bool.toNat (Tree.gone_finishChild hv cleanup)).trans (hrelease hv hf)
  | tree e t ht => exact congrArg Bool.toNat (Tree.still_of_step ht).gone

theorem past_of_step (h : Sound z s) {e : Event ε T} (hstep : s.step z e = some s') (u : ℕ) :
    (s.toTree.past u).toNat + (e.releases u).toNat ≤ (s'.toTree.past u).toNat := by
  cases stepped hstep with
  | call | admission | refuseRoot | refuseChild | shutdownAgain => exact le_rfl
  | beginRoot | beginChild => exact (congrArg Bool.toNat Tree.past_spawn).ge
  | shutdown cause => exact (congrArg Bool.toNat (Tree.past_cancelRoots cause)).ge
  | finishRoot v cleanup hv hf => exact (congrArg Bool.toNat (Tree.past_finishRoot hf)).ge
  | finishChild v p cleanup hv hf hp =>
    exact (congrArg Bool.toNat (Tree.past_finishChild h.tree hv hp hf)).ge
  | tree e t ht => exact Tree.past_of_step h.tree ht u

/-- **Which sections have run how often.** -/
structure History (tr : List (Event ε T)) (s : Runtime ε T) : Prop where
  finishes : ∀ v, tr.countP (·.finishes v) = (s.toTree.gone v).toNat
  releases : ∀ v, tr.countP (·.releases v) ≤ (s.toTree.past v).toNat

theorem history_of_run {tr : List (Event ε T)} (hr : (machine z).Run tr s) : History tr s := by
  refine hr.invariant ⟨fun v => rfl, fun v => le_rfl⟩ ?_
  intro tr s e s' hrun ih hl
  have hsound := sound_of_run hrun
  refine ⟨fun v => ?_, fun v => ?_⟩
  · rw [List.countP_append, ih.finishes v, gone_of_step hsound hl v, List.countP_singleton]
    cases e.finishes v with
    | false | true => rfl
  · have hpast := past_of_step hsound hl v
    rw [List.countP_append, List.countP_singleton]
    refine le_trans (Nat.add_le_add (ih.releases v) ?_) hpast
    cases e.releases v with
    | false | true => exact le_rfl

end Runtime

end Adapter
