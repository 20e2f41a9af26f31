import Fathomry.Composition
import Mathlib.Tactic.Ring

/-!
# The borrowers of a record

`borrowers` is one number for two kinds of use: entries of other assemblies
that borrow the record, and root leases granted on any of its entries. It is
exactly their sum (`Books.count`), so that a record without borrowers is used
by nobody – that is all `Close` knows when it calls a callback.
-/

namespace Composition

variable {ε : Type}

namespace Core

variable (k : Core ε) (r : ℕ)

/-- What an entry borrows of a record. -/
def lentBy (e : Entry) : ℤ := if e.lease = true ∧ e.record = r then 1 else 0

def lent : ℤ := k.entries.total (lentBy r)

/-- What a family counts for at a record. -/
def weight (f : ℕ) : ℤ := if k.recordOf (k.families.cell f).entry = r then 1 else 0

def used : ℤ := Refcount.rootTotal k.nodes (k.weight r)

/-- **The leases are in order**, and every pointer points somewhere. -/
structure Leases (k : Core ε) : Prop where
  tree : Refcount.Owes none k.nodes
  kin : Refcount.Kin k.nodes
  family : ∀ n < k.nodes.next, (k.nodes.cell n).data < k.families.next
  entry : ∀ f < k.families.next, (k.families.cell f).entry < k.entries.next
  record : ∀ e < k.entries.next, k.recordOf e < k.records.next

/-- **The books**: the borrowers of a record are its borrowing entries and
its root leases. -/
structure Books (k : Core ε) : Prop extends Leases k where
  count : ∀ r < k.records.next, (k.records.cell r).borrowers = k.lent r + k.used r

variable {k r} {k' : Core ε}

theorem lentBy_nonneg (e : Entry) : 0 ≤ lentBy r e := ite_nonneg zero_le_one le_rfl

theorem weight_nonneg (f : ℕ) : 0 ≤ k.weight r f := ite_nonneg zero_le_one le_rfl

/-- **A record without borrowers is used by nobody**: no entry borrows it,
and no lease on it is in use. -/
theorem Books.unused (h : Books k) (hr : r < k.records.next)
    (hb : (k.records.cell r).borrowers = 0) :
    (∀ e < k.entries.next, (k.entries.cell e).lease = true → k.recordOf e ≠ r) ∧
      ∀ n < k.nodes.next, (k.nodes.cell n).references ≠ 0 →
        k.recordOf (k.families.cell (k.nodes.cell n).data).entry ≠ r := by
  have hsum := h.count r hr
  have hlent : 0 ≤ k.lent r := by
    unfold lent Heap.total
    exact Finset.sum_nonneg (fun _ _ => lentBy_nonneg _)
  have hused : 0 ≤ k.used r := Refcount.rootTotal_nonneg weight_nonneg
  constructor
  · intro e he hl heq
    have hone : lentBy r (k.entries.cell e) = 1 := if_pos ⟨hl, heq⟩
    have hle : lentBy r (k.entries.cell e) ≤ k.lent r := by
      exact Finset.single_le_sum
        (fun e _ => lentBy_nonneg _) (Finset.mem_range.mpr he)
    linarith
  · intro n hn hlive heq
    obtain ⟨m, hm, hroot, hdata⟩ := h.tree.exists_liveRoot h.kin hn hlive
    have hone : k.weight r (k.nodes.cell m).data = 1 := by
      rw [hdata]
      exact if_pos heq
    have hle : k.weight r (k.nodes.cell m).data ≤ k.used r :=
      Refcount.le_rootTotal weight_nonneg hm hroot
    linarith

/-! ## Frames -/

theorem used_congr (h : Leases k) (hn : k'.nodes = k.nodes)
    (hf : ∀ f < k.families.next, k'.recordOf (k'.families.cell f).entry
      = k.recordOf (k.families.cell f).entry) : k'.used r = k.used r := by
  unfold used
  rw [hn]
  refine Refcount.rootTotal_congr (fun n hlt => ?_)
  unfold weight
  rw [hf _ (h.family n hlt)]

/-- **What is not in the books.** A change of entries and records that
leaves alone who borrows what. -/
theorem Books.frame (h : Books k) (hn : k'.nodes = k.nodes) (hf : k'.families = k.families)
    (hen : k'.entries.next = k.entries.next)
    (he : ∀ e, (k'.entries.cell e).lease = (k.entries.cell e).lease
      ∧ (k'.entries.cell e).record = (k.entries.cell e).record)
    (hrn : k'.records.next = k.records.next)
    (hr : ∀ r < k.records.next,
      (k'.records.cell r).borrowers = (k.records.cell r).borrowers) : Books k' where
  tree := hn ▸ h.tree
  kin := hn ▸ h.kin
  family := by
    rw [hn, hf]
    exact h.family
  entry := by
    rw [hf, hen]
    exact h.entry
  record e hlt := by
    rw [hen] at hlt
    rw [hrn, recordOf, (he e).2]
    exact h.record e hlt
  count r hlt := by
    rw [hrn] at hlt
    have hlent : k'.lent r = k.lent r := by
      unfold lent Heap.total
      rw [hen]
      refine Finset.sum_congr rfl (fun e _ => ?_)
      unfold lentBy
      rw [(he e).1, (he e).2]
    rw [hr r hlt, h.count r hlt, hlent, used_congr h.toLeases hn]
    intro f _
    rw [hf]
    exact (he _).2

theorem Books.record_of_eq (h : Books k) (r : ℕ) {f : Record ε → Record ε}
    (hf : ∀ x, (f x).borrowers = x.borrowers) : Books (k.record r f) :=
  h.frame rfl rfl rfl (fun _ => ⟨rfl, rfl⟩) rfl
    (fun r' _ => k.records.cell_modify_proj r r' hf)

theorem borrowers_record (r₀ : ℕ) {f : Record ε → Record ε} {d : ℤ}
    (hf : ∀ x, (f x).borrowers = x.borrowers + d) :
    ((k.record r₀ f).records.cell r).borrowers
      = (k.records.cell r).borrowers + if r₀ = r then d else 0 := by
  unfold Core.record
  rw [Heap.cell_modify]
  obtain rfl | hne := eq_or_ne r r₀
  · rw [if_pos rfl, if_pos rfl, hf]
  · rw [if_neg hne, if_neg hne.symm, add_zero]

/-! ## Entries -/

theorem lent_append (a : ℕ) (e : Entry) : (k.append a e).lent r = k.lent r + lentBy r e :=
  k.entries.total_alloc e _

theorem recordOf_append (a : ℕ) (e : Entry) {e' : ℕ} (he : e' < k.entries.next) :
    (k.append a e).recordOf e' = k.recordOf e' :=
  congrArg Entry.record (k.entries.cell_alloc_of_lt e he)

theorem used_append (h : Leases k) (a : ℕ) (e : Entry) : (k.append a e).used r = k.used r :=
  used_congr h rfl (fun f hf => recordOf_append a e (h.entry f hf))

theorem Leases.record_modify (h : Leases k) (r : ℕ) (f : Record ε → Record ε) :
    Leases (k.record r f) :=
  { h with }

theorem Leases.append (h : Leases k) (a : ℕ) {e : Entry} (he : e.record < k.records.next) :
    Leases (k.append a e) where
  tree := h.tree
  kin := h.kin
  family := h.family
  entry f hf := (h.entry f hf).trans (Nat.lt_add_one _)
  record := k.entries.forall_alloc (Q := fun _ x => x.record < k.records.next) h.record he

/-- **A borrowing entry is one borrower more.** -/
theorem Books.borrow (h : Books k) (a p : ℕ) (hr : r < k.records.next) :
    Books (k.borrow a p r) := by
  have hl := h.toLeases.record_modify r Record.lend
  refine ⟨hl.append a hr, fun r' hr' => ?_⟩
  have hlent : lentBy r' ⟨p, r, true, false, 0⟩ = if r = r' then 1 else 0 := by simp [lentBy]
  unfold Core.borrow
  rw [lent_append, used_append hl, hlent]
  refine (borrowers_record r (fun _ => rfl)).trans ?_
  rw [h.count r' hr']
  show _ = k.lent r' + _ + k.used r'
  ring

/-- An entry that borrows nothing is not in the books. -/
theorem Books.append (h : Books k) (a : ℕ) {e : Entry} (he : e.record < k.records.next)
    (hlease : e.lease = false) : Books (k.append a e) where
  toLeases := h.toLeases.append a he
  count r hr := by
    have hzero : lentBy r e = 0 := by
      refine if_neg (fun hx => ?_)
      rw [hlease] at hx
      exact nomatch hx.1
    rw [lent_append, used_append h.toLeases, hzero, add_zero]
    exact h.count r hr

/-- **A new record is borrowed by nobody.** -/
theorem Books.own (h : Books k) (a p : ℕ) (check : Bool) {x : Record ε}
    (hx : x.borrowers = 0) : Books (k.own a p check x) := by
  have hnew : Books { k with records := k.records.alloc x } :=
    { tree := h.tree
      kin := h.kin
      family := h.family
      entry := h.entry
      record := fun e he => (h.record e he).trans (Nat.lt_add_one _)
      count := by
        -- Every entry is of an older record.
        have hlent : k.lent k.records.next = 0 := by
          unfold lent Heap.total
          refine Finset.sum_eq_zero (fun e he => if_neg (fun hx => ?_))
          exact (h.record e (Finset.mem_range.mp he)).ne hx.2
        have hused : k.used k.records.next = 0 := Refcount.rootTotal_eq_zero (fun n hn =>
          if_neg (h.record _ (h.entry _ (h.family n hn))).ne)
        refine k.records.forall_alloc (Q := fun r x => x.borrowers = k.lent r + k.used r) h.count ?_
        rw [hx, hlent, hused, add_zero] }
  exact hnew.append a (Nat.lt_add_one _) rfl

theorem recordOf_entry (e : ℕ) {f : Entry → Entry} (hf : ∀ x, (f x).record = x.record) (e' : ℕ) :
    (k.entry e f).recordOf e' = k.recordOf e' :=
  k.entries.cell_modify_proj e e' hf

theorem used_entry (h : Leases k) (e : ℕ) {f : Entry → Entry} (hf : ∀ x, (f x).record = x.record) :
    (k.entry e f).used r = k.used r :=
  used_congr h rfl (fun _ _ => recordOf_entry e hf _)

theorem Leases.entry_record (h : Leases k) (e : ℕ) {f : Entry → Entry}
    (hf : ∀ x, (f x).record = x.record) : Leases (k.entry e f) :=
  { h with record := fun e' he' => (recordOf_entry e hf e').symm ▸ h.record e' he' }

/-- **What is given back is one borrower less.** -/
theorem Books.giveBack (h : Books k) {e : ℕ} (he : e < k.entries.next)
    (hl : (k.entries.cell e).lease = true) : Books (k.giveBack e) := by
  have hl' := h.toLeases.record_modify (k.recordOf e) Record.unlend
  refine ⟨hl'.entry_record e (fun _ => rfl), fun r hr => ?_⟩
  · have hused : (k.giveBack e).used r = k.used r := used_entry hl' e (fun _ => rfl)
    have hlent : (k.giveBack e).lent r
        = k.lent r + (lentBy r (k.entries.cell e).giveBack - lentBy r (k.entries.cell e)) :=
      k.entries.total_modify_sub he Entry.giveBack (lentBy r)
    have hzero : lentBy r (k.entries.cell e).giveBack = 0 :=
      if_neg (fun hx => Bool.false_ne_true hx.1)
    have hone : lentBy r (k.entries.cell e) = if k.recordOf e = r then 1 else 0 := by
      rw [lentBy, hl]
      simp only [true_and]
      rfl
    rw [hused, hlent, hzero, hone]
    refine (borrowers_record (k.recordOf e) (fun _ => rfl)).trans ?_
    rw [h.count r hr]
    split
    · ring
    · ring

/-! ## Leases -/

theorem lent_entry (e : ℕ) {f : Entry → Entry}
    (hf : ∀ x, (f x).record = x.record ∧ (f x).lease = x.lease) :
    (k.entry e f).lent r = k.lent r := by
  refine k.entries.total_modify_of_eq e ?_
  unfold lentBy
  rw [(hf _).1, (hf _).2]

/-- **A root lease is one borrower more.** -/
theorem Books.grant (h : Books k) (a : ℕ) {e : ℕ} (he : e < k.entries.next) (bytes limit : ℤ) :
    Books (k.grant a e bytes limit) := by
  have hrec : ∀ e', (k.grant a e bytes limit).recordOf e' = k.recordOf e' :=
    recordOf_entry e (fun _ => rfl)
  have hfam : ∀ f < k.families.next,
      ((k.grant a e bytes limit).families.cell f) = k.families.cell f :=
    fun f hf => k.families.cell_alloc_of_lt _ hf
  have hnew : ((k.grant a e bytes limit).families.cell k.families.next)
      = ⟨a, e, bytes, 1, limit⟩ := k.families.cell_alloc_self _
  refine ⟨⟨h.tree.alloc nofun _, h.kin.alloc (fun _ _ => h.tree.older) _ nofun, fun n hn => ?_,
    fun f hf => ?_, fun e' he' => ?_⟩,
    fun r hr => ?_⟩
  · exact k.nodes.forall_alloc (Q := fun _ x => x.data < k.families.next + 1)
      (fun n hn => Nat.lt_succ_of_lt (h.family n hn)) (Nat.lt_add_one _) n hn
  · exact k.families.forall_alloc (Q := fun _ x => x.entry < k.entries.next) h.entry he f hf
  · rw [hrec]
    exact h.record e' he'
  · have hused : (k.grant a e bytes limit).used r
        = k.used r + if k.recordOf e = r then 1 else 0 := by
      show Refcount.rootTotal (Refcount.root k.nodes k.families.next) _ = _
      rw [Refcount.rootTotal_root]
      congr 1
      · refine Refcount.rootTotal_congr (fun n hn => ?_)
        unfold weight
        rw [hfam _ (h.family n hn), hrec]
      · unfold weight
        rw [hnew, hrec]
    have hlent : (k.grant a e bytes limit).lent r = k.lent r :=
      lent_entry e (fun _ => ⟨rfl, rfl⟩)
    rw [hused, hlent]
    refine (borrowers_record (k.recordOf e) (fun _ => rfl)).trans ?_
    rw [h.count r hr, add_assoc]

/-- Families are told apart by their entries alone. -/
theorem entry_families (f : ℕ) {g : Family → Family} (hg : ∀ x, (g x).entry = x.entry) (f' : ℕ) :
    ((k.families.modify f g).cell f').entry = (k.families.cell f').entry :=
  k.families.cell_modify_proj f f' hg

/-- A lease retained is no borrower. -/
theorem Books.retain (h : Books k) {n : ℕ} (hn : n < k.nodes.next)
    (hr : (k.nodes.cell n).released = false) : Books (k.retain n) := by
  have hentry : ∀ f, ((k.retain n).families.cell f).entry = (k.families.cell f).entry :=
    entry_families (k.nodes.cell n).data (g := fun x => { x with nodes := x.nodes + 1 })
      (fun _ => rfl)
  refine ⟨⟨h.tree.retain hn hr, h.kin.retain h.tree hn, fun m hm => ?_, fun f hf => ?_, h.record⟩,
    fun r hr' => ?_⟩
  · exact Refcount.data_retain (P := (· < k.families.next)) h.family hn m hm
  · rw [hentry]
    exact h.entry f hf
  · have hweight : (k.retain n).weight r = k.weight r := by
      refine funext (fun f => ?_)
      unfold weight
      rw [hentry]
      rfl
    have hused : (k.retain n).used r = k.used r := by
      show Refcount.rootTotal (Refcount.retain k.nodes n) ((k.retain n).weight r) = _
      rw [hweight, Refcount.rootTotal_retain h.tree hn hr]
      rfl
    rw [hused]
    exact h.count r hr'

theorem entry_release (n f : ℕ) :
    ((k.release n).families.cell f).entry = (k.families.cell f).entry :=
  entry_families (k.nodes.cell n).data
    (g := fun x => { x with nodes := x.nodes - (Refcount.release k.nodes n).2.1 })
    (fun _ => rfl) f

/-- The lease of a family that is released, root or not. -/
theorem Leases.release (h : Leases k) {n : ℕ} (hn : n < k.nodes.next)
    (hr : (k.nodes.cell n).released = false) : Leases (k.release n) := by
  have hd := Refcount.release_dropped h.tree hn hr
  refine ⟨hd.exact, h.kin.congr hd.next hd.parent hd.data, fun m hm => ?_, fun f hf => ?_, h.record⟩
  · show ((Refcount.release k.nodes n).1.cell m).data < k.families.next
    rw [hd.data]
    exact h.family m (hd.next ▸ hm)
  · rw [entry_release]
    exact h.entry f hf

theorem used_release (h : Leases k) {n : ℕ} (hn : n < k.nodes.next)
    (hr : (k.nodes.cell n).released = false) :
    (k.release n).used r = k.used r
      - (Refcount.release k.nodes n).2.2.elim 0 (fun _ => k.weight r (k.nodes.cell n).data) := by
  have hweight : (k.release n).weight r = k.weight r := by
    refine funext (fun f => ?_)
    unfold weight
    rw [entry_release]
    rfl
  show Refcount.rootTotal (Refcount.release k.nodes n).1 ((k.release n).weight r) = _
  rw [hweight, Refcount.rootTotal_release h.tree h.kin hn hr]
  rfl

/-- A lease released that was not the last of its family is no borrower. -/
theorem Books.release (h : Books k) {n : ℕ} (hn : n < k.nodes.next)
    (hr : (k.nodes.cell n).released = false)
    (hfree : (Refcount.release k.nodes n).2.2 = none) : Books (k.release n) := by
  refine ⟨h.toLeases.release hn hr, fun r hr' => ?_⟩
  rw [used_release h.toLeases hn hr, hfree]
  exact (h.count r hr').trans (by rw [Option.elim_none, sub_zero]; rfl)

/-- **The last lease of a family is one borrower less.** -/
theorem Books.free (h : Books k) {n m : ℕ} (hn : n < k.nodes.next)
    (hr : (k.nodes.cell n).released = false)
    (hfree : (Refcount.release k.nodes n).2.2 = some m) :
    Books ((k.release n).free (k.families.cell (k.nodes.cell n).data).entry) := by
  have hl := h.toLeases.release hn hr
  refine ⟨(hl.record_modify _ _).entry_record _ (fun _ => rfl), fun r hr' => ?_⟩
  · have hused : ((k.release n).free (k.families.cell (k.nodes.cell n).data).entry).used r
        = (k.release n).used r := used_entry (hl.record_modify _ _) _ (fun _ => rfl)
    have hlent : ((k.release n).free (k.families.cell (k.nodes.cell n).data).entry).lent r
        = k.lent r :=
      lent_entry _ (fun _ => ⟨rfl, rfl⟩)
    rw [hused, hlent, used_release h.toLeases hn hr, hfree]
    refine (borrowers_record _
      (fun _ => rfl)).trans ?_
    rw [show ((k.release n).records.cell r).borrowers = _ from h.count r hr']
    show _ = k.lent r + (k.used r - k.weight r (k.nodes.cell n).data)
    unfold weight
    split
    · rw [if_pos ‹_›]
      ring
    · rw [if_neg ‹_›]
      ring

end Core

end Composition
