import Fathomry.Heap
import Mathlib.Algebra.Notation.Lemmas
import Mathlib.Algebra.Order.BigOperators.Group.Finset
import Mathlib.Tactic.Linarith

/-!
# Reference-counted trees

Something is in use as long as one of its users is, and a user can let
others in. Such users form a tree: each knows who let it in, and counts the
references to it, one of its own and one for each live user below it. When a
user leaves it gives up its own reference; whoever loses the last one is
done, and takes one from its parent.

The counts are exact (`Owes none`): a node's references are its own, if it
has not been released, and its live children. While a reference is being
given up there is one node that has one too many, and giving it up either
settles the account or moves the debt to the parent (`Owes.drop`). So the
debt always ends, and what ends it is known: a root is freed when it and
everything below it have been released, and never otherwise.
-/

namespace Refcount

/-- **A user.** `data` is what a whole tree shares. -/
structure Node (α : Type*) where
  parent : Option ℕ
  references : ℤ
  released : Bool
  done : Bool
  data : α

variable {α : Type*}

namespace Node

variable (x : Node α)

/-- The reference of the node itself. -/
def own : ℤ := if x.released then 0 else 1

/-- What a node counts for at `n`. -/
def childOf (n : ℕ) : ℤ := if x.parent = some n ∧ x.references ≠ 0 then 1 else 0

/-- One reference more. -/
def gain : Node α := { x with references := x.references + 1 }

/-- The node itself has no more use. -/
def leave : Node α := { x with released := true }

/-- One reference less. -/
def lose : Node α := { x with references := x.references - 1 }

/-- The last reference less. -/
def finish : Node α := { x with references := x.references - 1, done := true }

/-- A root that is in use. -/
def LiveRoot : Prop := x.parent = none ∧ x.references ≠ 0

instance : Decidable x.LiveRoot := inferInstanceAs (Decidable (_ ∧ _))

end Node

variable (h : Heap (Node α)) (n : ℕ)

/-- How many live nodes have `n` as their parent. -/
def children : ℤ := h.total (Node.childOf · n)

/-! ## Operations -/

/-- A tree of its own. -/
def root (data : α) : Heap (Node α) := h.alloc ⟨none, 1, false, false, data⟩

/-- Let one more user in below `n`. -/
def retain : Heap (Node α) :=
  (h.modify n Node.gain).alloc ⟨some n, 1, false, false, (h.cell n).data⟩

/-- Give up a reference to `n`, and if it was the last one, the reference to
its parent. Besides the heap this gives how many nodes are done, and the
root that is. -/
def drop : ℕ → Heap (Node α) → ℕ → Heap (Node α) × ℕ × Option ℕ
  | 0, h, _ => (h, 0, none)
  | fuel + 1, h, n =>
    if (h.cell n).references - 1 ≠ 0 then (h.modify n Node.lose, 0, none)
    else
      match (h.cell n).parent with
      | none => (h.modify n Node.finish, 1, some n)
      | some p =>
        ((drop fuel (h.modify n Node.finish) p).1, (drop fuel (h.modify n Node.finish) p).2.1 + 1,
          (drop fuel (h.modify n Node.finish) p).2.2)

/-- A user leaves. Parents are older than their children, so the way up is
shorter than the address of `n`. -/
def release : Heap (Node α) × ℕ × Option ℕ :=
  if (h.cell n).released then (h, 0, none)
  else drop (n + 1) (h.modify n Node.leave) n

/-! ## Exactness -/

/-- **The counts are exact**, but for one reference too many at the node in
debt. -/
structure Owes (debt : Option ℕ) (h : Heap (Node α)) : Prop where
  older : ∀ {n p}, n < h.next → (h.cell n).parent = some p → p < n
  count : ∀ {n}, n < h.next →
    (h.cell n).references = (h.cell n).own + children h n + if debt = some n then 1 else 0
  done : ∀ {n}, n < h.next → ((h.cell n).done = true ↔ (h.cell n).references = 0)

/-- A tree shares its data. -/
def Kin (h : Heap (Node α)) : Prop :=
  ∀ n p, n < h.next → (h.cell n).parent = some p → (h.cell n).data = (h.cell p).data

variable {h n} {debt : Option ℕ}

theorem Node.own_nonneg (x : Node α) : 0 ≤ x.own := ite_nonneg le_rfl zero_le_one

theorem Node.childOf_nonneg (x : Node α) (n : ℕ) : 0 ≤ x.childOf n :=
  ite_nonneg zero_le_one le_rfl

theorem Node.childOf_of_live {x : Node α} (hx : x.references ≠ 0) (m : ℕ) :
    x.childOf m = if x.parent = some m then 1 else 0 := by
  simp [Node.childOf, hx]

theorem Node.childOf_of_ne {x : Node α} {m : ℕ} (hx : x.parent ≠ some m) : x.childOf m = 0 :=
  if_neg (fun hp => hx hp.1)

theorem children_nonneg : 0 ≤ children h n := by
  unfold children Heap.total
  exact Finset.sum_nonneg (fun c _ => (h.cell c).childOf_nonneg n)

/-- No reference is missing. -/
theorem Owes.references_nonneg (ho : Owes debt h) (hn : n < h.next) :
    0 ≤ (h.cell n).references := by
  have hown := (h.cell n).own_nonneg
  have hchildren := children_nonneg (h := h) (n := n)
  rw [ho.count hn]
  split
  · linarith
  · linarith

/-- The node in debt is in use. -/
theorem Owes.pos_of_debt (ho : Owes (some n) h) (hn : n < h.next) : 0 < (h.cell n).references := by
  have hown := (h.cell n).own_nonneg
  have hchildren := children_nonneg (h := h) (n := n)
  rw [ho.count hn, if_pos rfl]
  linarith

/-- **Who has not been released is in use.** -/
theorem Owes.live_of_not_released (ho : Owes none h) (hn : n < h.next)
    (hr : (h.cell n).released = false) : (h.cell n).references ≠ 0 := by
  have hchildren := children_nonneg (h := h) (n := n)
  have hown : (h.cell n).own = 1 := by
    unfold Node.own
    rw [hr]
    rfl
  rw [ho.count hn, hown, if_neg (by simp)]
  linarith

/-- **The parent of a node in use is in use.** -/
theorem Owes.live_parent (ho : Owes none h) (hn : n < h.next)
    (hlive : (h.cell n).references ≠ 0) {p : ℕ} (hp : (h.cell n).parent = some p) :
    (h.cell p).references ≠ 0 := by
  have hone : (h.cell n).childOf p = 1 := if_pos ⟨hp, hlive⟩
  have hle : (h.cell n).childOf p ≤ children h p :=
    Finset.single_le_sum
      (fun c _ => Node.childOf_nonneg _ p) (Finset.mem_range.mpr hn)
  have hown := (h.cell p).own_nonneg
  rw [ho.count ((ho.older hn hp).trans hn), if_neg (by simp)]
  linarith

/-- **Above every node in use is a root in use.** -/
theorem Owes.exists_liveRoot (ho : Owes none h) (hkin : Kin h) (hn : n < h.next)
    (hlive : (h.cell n).references ≠ 0) :
    ∃ r < h.next, (h.cell r).LiveRoot ∧ (h.cell r).data = (h.cell n).data := by
  induction n using Nat.strong_induction_on with
  | _ n ih =>
    cases hp : (h.cell n).parent with
    | none => exact ⟨n, hn, ⟨hp, hlive⟩, rfl⟩
    | some p =>
      have hpn := ho.older hn hp
      obtain ⟨r, hr, hroot, hdata⟩ := ih p hpn (hpn.trans hn) (ho.live_parent hn hlive hp)
      exact ⟨r, hr, hroot, hdata.trans (hkin n p hn hp).symm⟩

/-- A node is another one, or was let in by way of it. -/
def Within (h : Heap (Node α)) : ℕ → ℕ → Prop :=
  Relation.ReflTransGen (fun v p => v < h.next ∧ (h.cell v).parent = some p)

/-- **A node is done when all within it have been released**, and not
before. -/
theorem Owes.done_iff (ho : Owes none h) (hn : n < h.next) : (h.cell n).done = true ↔
    ∀ m < h.next, Within h m n → (h.cell m).released = true := by
  rw [ho.done hn]
  constructor
  · intro hz m hm hb
    have hzero : (h.cell m).references = 0 := by
      clear hm
      induction hb using Relation.ReflTransGen.head_induction_on with
      | refl => exact hz
      | head hp _ ih => exact not_not.mp (fun hx => ho.live_parent hp.1 hx hp.2 ih)
    exact eq_true_of_ne_false (fun hr => ho.live_of_not_released hm hr hzero)
  · intro hall
    by_contra hlive
    -- down to a child in use, which is younger
    induction hk : h.next - n using Nat.strong_induction_on generalizing n with
    | _ k ih =>
      have hsum : children h n ≠ 0 := by
        simpa [ho.count hn, Node.own, hall n hn .refl] using hlive
      obtain ⟨c, hc, hone⟩ : ∃ c ∈ Finset.range h.next, (h.cell c).childOf n ≠ 0 :=
        Finset.exists_ne_zero_of_sum_ne_zero hsum
      have hc := Finset.mem_range.mp hc
      obtain ⟨hp, hlive⟩ := (ite_ne_right_iff.mp hone).1
      have hlt := ho.older hc hp
      exact ih (h.next - c) (by omega) hc (fun m hm hb => hall m hm (hb.tail ⟨hc, hp⟩)) hlive rfl

/-! ## A new user -/

theorem Owes.children_next (ho : Owes debt h) : children h h.next = 0 := by
  unfold children Heap.total
  refine Finset.sum_eq_zero (fun c hc => if_neg (fun hp => ?_))
  have hc' := Finset.mem_range.mp hc
  exact absurd (ho.older hc' hp.1) hc'.not_gt

/-- **A new node settles the debt** of the parent it is given. -/
theorem Owes.alloc (ho : Owes debt h) (hdebt : ∀ {p}, debt = some p → p < h.next) (data : α) :
    Owes none (h.alloc ⟨debt, 1, false, false, data⟩) := by
  have hchild : ∀ m, Node.childOf (⟨debt, 1, false, false, data⟩ : Node α) m
      = if debt = some m then 1 else 0 := by
    simp [Node.childOf]
  refine ⟨fun {m p} hm => ?_, fun {m} hm => ?_, fun {m} hm => ?_⟩
  · exact h.forall_alloc (Q := fun m x => x.parent = some p → p < m) (fun _ => ho.older) hdebt m hm
  · rw [show children _ m = children h m + _ from h.total_alloc _ _, hchild]
    obtain hlt | rfl := Nat.lt_succ_iff_lt_or_eq.mp hm
    · rw [Heap.cell_alloc_of_lt _ _ hlt, ho.count hlt, if_neg (by simp : ¬ none = some m), add_zero,
        add_assoc]
    · have hnot : debt ≠ some h.next := fun hd => lt_irrefl _ (hdebt hd)
      rw [Heap.cell_alloc_self, ho.children_next, if_neg hnot, if_neg (by simp)]
      rfl
  · exact h.forall_alloc (Q := fun _ x => x.done = true ↔ x.references = 0) (fun _ => ho.done)
      (by simp) m hm

/-- A change that leaves alone how a node stands to others. -/
def Plain (f : Node α → Node α) : Prop := ∀ x, (f x).parent = x.parent ∧ (f x).data = x.data

theorem plain_gain : Plain (@Node.gain α) := fun _ => ⟨rfl, rfl⟩

theorem plain_lose : Plain (@Node.lose α) := fun _ => ⟨rfl, rfl⟩

theorem plain_finish : Plain (@Node.finish α) := fun _ => ⟨rfl, rfl⟩

theorem Plain.parent {f : Node α → Node α} (hf : Plain f) (m : ℕ) :
    ((h.modify n f).cell m).parent = (h.cell m).parent :=
  h.cell_modify_proj n m (fun x => (hf x).1)

theorem Plain.data {f : Node α → Node α} (hf : Plain f) (m : ℕ) :
    ((h.modify n f).cell m).data = (h.cell m).data :=
  h.cell_modify_proj n m (fun x => (hf x).2)

/-- **A change of one node** that moves the debt to where the node is missed,
and of which the account of the node is kept. -/
theorem Owes.modify (ho : Owes debt h) (hn : n < h.next) {f : Node α → Node α} (hf : Plain f)
    {debt' : Option ℕ}
    (hother : ∀ m, m ≠ n → (f (h.cell n)).childOf m + (if debt' = some m then 1 else 0)
      = (h.cell n).childOf m + if debt = some m then 1 else 0)
    (hcount : (f (h.cell n)).references = (f (h.cell n)).own + children h n
      + if debt' = some n then 1 else 0)
    (hdone : (f (h.cell n)).done = true ↔ (f (h.cell n)).references = 0) :
    Owes debt' (h.modify n f) := by
  have hself : (h.cell n).parent ≠ some n := fun hp => lt_irrefl n (ho.older hn hp)
  refine ⟨fun {m p} hm hp => ?_, fun {m} hm => ?_, fun {m} hm => ?_⟩
  · rw [hf.parent] at hp
    exact ho.older hm hp
  · rw [show children _ m = children h m + _ from h.total_modify_sub hn f (Node.childOf · m)]
    obtain rfl | hne := eq_or_ne m n
    · rw [Node.childOf_of_ne hself, Node.childOf_of_ne (fun hp => hself ((hf _).1.symm.trans hp)),
        sub_zero, add_zero, Heap.cell_modify_self]
      exact hcount
    · rw [Heap.cell_modify_of_ne _ _ hne, ho.count hm]
      linarith [hother m hne]
  · exact h.forall_modify (Q := fun _ x => x.done = true ↔ x.references = 0) m
      (fun _ => ho.done hm) hdone

/-- **One more user keeps the counts exact.** -/
theorem Owes.retain (ho : Owes none h) (hn : n < h.next) (hr : (h.cell n).released = false) :
    Owes none (retain h n) := by
  have hlive := ho.live_of_not_released hn hr
  have hpos : 0 < (h.cell n).references := lt_of_le_of_ne (ho.references_nonneg hn) hlive.symm
  have hone : Owes (some n) (h.modify n Node.gain) := by
    refine ho.modify hn plain_gain (fun m hne => ?_) ?_ ?_
    · have hlive' : (h.cell n).gain.references ≠ 0 := (hpos.trans (lt_add_one _)).ne'
      rw [Node.childOf_of_live hlive, Node.childOf_of_live hlive']
      simp [hne.symm]
      rfl
    · show (h.cell n).references + 1 = (h.cell n).own + children h n + _
      rw [ho.count hn, if_pos rfl, if_neg (by simp), add_zero]
    · show (h.cell n).done = true ↔ (h.cell n).references + 1 = 0
      rw [ho.done hn]
      constructor
      · intro h0
        exact absurd h0 hlive
      · intro h0
        linarith
  refine hone.alloc (fun hp => ?_) (h.cell n).data
  cases hp
  exact hn

theorem Kin.congr (hkin : Kin h) {h' : Heap (Node α)} (hnext : h'.next = h.next)
    (hparent : ∀ m, (h'.cell m).parent = (h.cell m).parent)
    (hdata : ∀ m, (h'.cell m).data = (h.cell m).data) : Kin h' := by
  intro m q hm hq
  rw [hnext] at hm
  rw [hparent] at hq
  rw [hdata, hdata]
  exact hkin m q hm hq

theorem Plain.kin {f : Node α → Node α} (hf : Plain f) (hkin : Kin h) : Kin (h.modify n f) :=
  hkin.congr rfl hf.parent hf.data

theorem Kin.alloc (hkin : Kin h)
    (hold : ∀ n p, n < h.next → (h.cell n).parent = some p → p < n) (x : Node α)
    (hx : ∀ p, x.parent = some p → p < h.next ∧ x.data = (h.cell p).data) : Kin (h.alloc x) := by
  intro m p hm hp
  obtain rfl | hne := eq_or_ne m h.next
  · rw [Heap.cell_alloc_self] at hp ⊢
    rw [Heap.cell_alloc_of_lt _ _ (hx p hp).1]
    exact (hx p hp).2
  · have hm' : m < h.next := lt_of_le_of_ne (Nat.le_of_lt_succ hm) hne
    rw [Heap.cell_alloc_of_lt _ _ hm'] at hp ⊢
    rw [Heap.cell_alloc_of_lt _ _ ((hold m p hm' hp).trans hm')]
    exact hkin m p hm' hp

/-- Who is let in shares the data of who let it in. -/
theorem Kin.retain (hkin : Kin h) (ho : Owes none h) (hn : n < h.next) : Kin (retain h n) := by
  have hf := plain_gain (α := α)
  refine (hf.kin hkin).alloc (fun m p hm hp => ?_) _ (fun p hp => ?_)
  · rw [hf.parent] at hp
    exact ho.older hm hp
  · cases hp
    exact ⟨hn, (hf.data n).symm⟩

/-- What holds of all data holds after one more user is let in. -/
theorem data_retain {P : α → Prop} (hP : ∀ m < h.next, P (h.cell m).data) (hn : n < h.next) :
    ∀ m < (retain h n).next, P ((retain h n).cell m).data := by
  refine (h.modify n Node.gain).forall_alloc (Q := fun _ x => P x.data) (fun m hm => ?_) (hP n hn)
  rw [plain_gain.data]
  exact hP m hm

/-! ## A user leaves -/

/-- A reference given up that was not the last settles the debt. -/
theorem Owes.settle (ho : Owes (some n) h) (hn : n < h.next)
    (hlast : (h.cell n).references - 1 ≠ 0) : Owes none (h.modify n Node.lose) := by
  have hpos := ho.pos_of_debt hn
  refine ho.modify hn plain_lose (fun m hne => ?_) ?_ ?_
  · rw [Node.childOf_of_live hpos.ne', Node.childOf_of_live hlast]
    simp [hne.symm]
    rfl
  · show (h.cell n).references - 1 = (h.cell n).own + children h n + _
    rw [ho.count hn, if_pos rfl, if_neg (by simp), add_zero, add_sub_cancel_right]
  · show (h.cell n).done = true ↔ (h.cell n).references - 1 = 0
    rw [ho.done hn]
    constructor
    · intro h0
      exact absurd h0 hpos.ne'
    · intro h0
      exact absurd h0 hlast

/-- **The last reference given up moves the debt to the parent.** -/
theorem Owes.drop (ho : Owes (some n) h) (hn : n < h.next)
    (hlast : (h.cell n).references - 1 = 0) :
    Owes (h.cell n).parent (h.modify n Node.finish) := by
  have hpos := ho.pos_of_debt hn
  have hself : (h.cell n).parent ≠ some n := fun hp => lt_irrefl n (ho.older hn hp)
  refine ho.modify hn plain_finish (fun m hne => ?_) ?_ ⟨fun _ => hlast, fun _ => rfl⟩
  · -- The node was a child of its parent and is one no longer.
    rw [Node.childOf_of_live hpos.ne', show Node.childOf _ m = 0 from if_neg (fun hp => hp.2 hlast)]
    simp [hne.symm]
  · show (h.cell n).references - 1 = (h.cell n).own + children h n + _
    rw [ho.count hn, if_pos rfl, if_neg hself, add_zero, add_sub_cancel_right]

/-- **What giving up a reference to `n` does.** -/
structure Dropped (h : Heap (Node α)) (n : ℕ) (r : Heap (Node α) × ℕ × Option ℕ) : Prop where
  exact : Owes none r.1
  next : r.1.next = h.next
  parent : ∀ m, (r.1.cell m).parent = (h.cell m).parent
  data : ∀ m, (r.1.cell m).data = (h.cell m).data
  /-- The roots in use are as before, but for the one that is freed. -/
  roots : ∀ m, (r.1.cell m).LiveRoot ↔ (h.cell m).LiveRoot ∧ r.2.2 ≠ some m
  /-- What is freed is a root that was in use, with the data of `n`. -/
  freed : Kin h → ∀ m, r.2.2 = some m →
    m < h.next ∧ (h.cell m).LiveRoot ∧ (h.cell m).data = (h.cell n).data

/-- A change of one node that leaves alone whether it is a root in use. -/
theorem liveRoot_modify {f : Node α → Node α} (hf : Plain f)
    (hlive : (h.cell n).parent = none →
      ((f (h.cell n)).references ≠ 0 ↔ (h.cell n).references ≠ 0)) (m : ℕ) :
    ((h.modify n f).cell m).LiveRoot ↔ (h.cell m).LiveRoot := by
  refine h.forall_modify (Q := fun m x => x.LiveRoot ↔ (h.cell m).LiveRoot) m (fun _ => Iff.rfl) ?_
  unfold Node.LiveRoot
  rw [(hf _).1]
  exact and_congr_right hlive

theorem drop_dropped (fuel : ℕ) (ho : Owes (some n) h) (hn : n < h.next) (hfuel : n < fuel) :
    Dropped h n (drop fuel h n) := by
  induction fuel generalizing h n with
  | zero => exact nomatch hfuel
  | succ fuel ih =>
    have hpos := ho.pos_of_debt hn
    unfold drop
    split
    · rename_i hlast
      have hf := plain_lose (α := α)
      refine ⟨ho.settle hn hlast, rfl, hf.parent, hf.data, fun m => ?_, nofun⟩
      rw [liveRoot_modify hf (fun _ => ⟨fun _ => hpos.ne', fun _ => hlast⟩)]
      exact ⟨fun hl => ⟨hl, nofun⟩, And.left⟩
    · rename_i hlast
      have hf := plain_finish (α := α)
      have hlast : (h.cell n).references - 1 = 0 := not_not.mp hlast
      have ho' := ho.drop hn hlast
      cases hp : (h.cell n).parent with
      | none =>
        rw [hp] at ho'
        refine ⟨ho', rfl, hf.parent, hf.data, fun m => ?_, fun _ m hm => ?_⟩
        · refine h.forall_modify (Q := fun m x => x.LiveRoot ↔
            (h.cell m).LiveRoot ∧ some n ≠ some m)
            m (fun hne => ?_) ⟨fun hl => absurd hlast hl.2, fun hl => absurd rfl hl.2⟩
          exact ⟨fun hl => ⟨hl, fun hx => hne (Option.some.inj hx).symm⟩, And.left⟩
        · cases hm
          exact ⟨hn, ⟨hp, hpos.ne'⟩, rfl⟩
      | some p =>
        rw [hp] at ho'
        have hpn := ho.older hn hp
        have hd := ih ho' (hpn.trans hn) (hpn.trans_le (Nat.le_of_lt_succ hfuel))
        -- The node itself is no root, so that the roots are those the way up leaves.
        have hroot := liveRoot_modify hf (fun hx => nomatch hx.symm.trans hp)
        refine ⟨hd.exact, hd.next, fun m => (hd.parent m).trans (hf.parent m),
          fun m => (hd.data m).trans (hf.data m), fun m => ?_, fun hkin m hm => ?_⟩
        · exact (hd.roots m).trans (and_congr_left fun _ => hroot m)
        · obtain ⟨hlt, hlr, heq⟩ := hd.freed (hf.kin hkin) m hm
          rw [hf.data, hf.data] at heq
          exact ⟨hlt, (hroot m).mp hlr, heq.trans (hkin n p hn hp).symm⟩

/-- **A user that leaves keeps the counts exact.** -/
theorem release_dropped (ho : Owes none h) (hn : n < h.next)
    (hr : (h.cell n).released = false) : Dropped h n (release h n) := by
  have hf : Plain (@Node.leave α) := fun _ => ⟨rfl, rfl⟩
  have howes : Owes (some n) (h.modify n Node.leave) := by
    refine ho.modify hn hf (fun m hne => ?_) ?_ (ho.done hn)
    · simp [hne.symm]
      rfl
    · show (h.cell n).references = 0 + children h n + _
      rw [ho.count hn, if_pos rfl, if_neg (by simp)]
      unfold Node.own
      rw [hr, if_neg Bool.false_ne_true, zero_add, add_zero, add_comm]
  have hd := drop_dropped (n + 1) howes hn (Nat.lt_add_one n)
  have hmark := liveRoot_modify (h := h) (n := n) hf (fun _ => Iff.rfl)
  unfold release
  rw [hr, if_neg Bool.false_ne_true]
  refine ⟨hd.exact, hd.next, fun m => (hd.parent m).trans (hf.parent m),
    fun m => (hd.data m).trans (hf.data m), fun m => ?_, fun hkin m hm => ?_⟩
  · exact (hd.roots m).trans (and_congr_left fun _ => hmark m)
  · obtain ⟨hlt, hroot, heq⟩ := hd.freed (hf.kin hkin) m hm
    rw [hf.data, hf.data] at heq
    exact ⟨hlt, (hmark m).mp hroot, heq⟩

/-! ## Sums over the roots in use -/

/-- The share of a node in a quantity of the data. -/
def Node.share (w : α → ℤ) (x : Node α) : ℤ := if x.LiveRoot then w x.data else 0

/-- A quantity of the data, added up over the roots in use. -/
def rootTotal (h : Heap (Node α)) (w : α → ℤ) : ℤ := h.total (Node.share w)

variable {w : α → ℤ}

theorem Node.share_nonneg (hw : ∀ d, 0 ≤ w d) (x : Node α) : 0 ≤ x.share w :=
  ite_nonneg (hw _) le_rfl

theorem rootTotal_congr {w' : α → ℤ} (hw : ∀ n < h.next, w (h.cell n).data = w' (h.cell n).data) :
    rootTotal h w = rootTotal h w' := by
  refine Heap.total_congr (fun n hn => ?_)
  unfold Node.share
  rw [hw n hn]

theorem rootTotal_eq_zero (hw : ∀ n < h.next, w (h.cell n).data = 0) : rootTotal h w = 0 := by
  unfold rootTotal Heap.total Node.share
  refine Finset.sum_eq_zero (fun n hn => ?_)
  rw [hw n (Finset.mem_range.mp hn), ite_self]

theorem rootTotal_nonneg (hw : ∀ d, 0 ≤ w d) : 0 ≤ rootTotal h w := by
  unfold rootTotal Heap.total
  exact Finset.sum_nonneg (fun n _ => Node.share_nonneg hw (h.cell n))

theorem le_rootTotal (hw : ∀ d, 0 ≤ w d) (hn : n < h.next) (hroot : (h.cell n).LiveRoot) :
    w (h.cell n).data ≤ rootTotal h w := by
  have hshare : (h.cell n).share w = w (h.cell n).data := if_pos hroot
  rw [← hshare]
  exact Finset.single_le_sum
    (fun c _ => Node.share_nonneg hw (h.cell c)) (Finset.mem_range.mpr hn)

theorem rootTotal_root (data : α) : rootTotal (root h data) w = rootTotal h w + w data := by
  unfold rootTotal root
  rw [Heap.total_alloc]
  simp [Node.share, Node.LiveRoot]

/-- What a user below lets in is no root. -/
theorem rootTotal_retain (ho : Owes none h) (hn : n < h.next)
    (hr : (h.cell n).released = false) : rootTotal (retain h n) w = rootTotal h w := by
  have hlive := ho.live_of_not_released hn hr
  have hpos : 0 < (h.cell n).references := lt_of_le_of_ne (ho.references_nonneg hn) hlive.symm
  have hlive' : (h.cell n).references + 1 ≠ 0 := by linarith
  unfold rootTotal retain
  rw [Heap.total_alloc, Heap.total_modify_of_eq]
  · simp [Node.share, Node.LiveRoot]
  · simp [Node.share, Node.LiveRoot, Node.gain, hlive, hlive']

/-- **What a user that leaves takes with it**: the share of its tree, if it
was the last in it. -/
theorem rootTotal_release (ho : Owes none h) (hkin : Kin h) (hn : n < h.next)
    (hr : (h.cell n).released = false) :
    rootTotal (release h n).1 w
      = rootTotal h w - (release h n).2.2.elim 0 (fun _ => w (h.cell n).data) := by
  have hd := release_dropped ho hn hr
  have hfreed := hd.freed hkin
  -- Cell by cell, the share is lost at the root that is freed and nowhere else.
  have hcell : ∀ m, ((release h n).1.cell m).share w
      = (h.cell m).share w
        - if (release h n).2.2 = some m then w (h.cell n).data else 0 := by
    intro m
    unfold Node.share
    by_cases hm : (release h n).2.2 = some m
    · have hnot : ¬ ((release h n).1.cell m).LiveRoot := fun hl => ((hd.roots m).mp hl).2 hm
      rw [if_neg hnot, if_pos (hfreed m hm).2.1, if_pos hm, (hfreed m hm).2.2, sub_self]
    · rw [if_neg hm, sub_zero, hd.data]
      exact if_congr ((hd.roots m).trans (and_iff_left hm)) rfl rfl
  unfold rootTotal Heap.total
  rw [hd.next, Finset.sum_congr rfl (fun m _ => hcell m), Finset.sum_sub_distrib]
  refine congrArg _ ?_
  cases hf : (release h n).2.2 with
  | none => simp
  | some m =>
    have hm : m ∈ Finset.range h.next := Finset.mem_range.mpr (hfreed m hf).1
    simp [Finset.sum_ite_eq, hm]

end Refcount
