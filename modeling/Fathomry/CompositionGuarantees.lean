import Fathomry.CompositionRuns

/-!
# Ordered cleanup

The callback of a resource is called when nobody uses it any more: no lease
on it is outstanding, no assembly borrows it, and whatever its owner has
assembled later is done with. From then on nobody gets to use it, for the
record stays closed. A callback is called once – what is left over is a new
callback, its continuation – and never while another one of the same record
is running.
-/

namespace Composition

variable {ε : Type}

/-- **Nobody uses a record**: every lease on it has been released, and every
entry that borrowed it has returned it. -/
def Core.Unused (k : Core ε) (r : ℕ) : Prop :=
  (∀ n < k.nodes.next, k.recordOf (k.families.cell (k.nodes.cell n).data).entry = r →
    (k.nodes.cell n).released = true ∧ (k.nodes.cell n).references = 0) ∧
  ∀ e < k.entries.next, k.recordOf e = r → (k.entries.cell e).lease = false

theorem Core.Closed.unused {k : Core ε} {r : ℕ} (h : k.Closed r) (hk : k.Books)
    (hr : r < k.records.next) : k.Unused r := by
  obtain ⟨hentries, hnodes⟩ := hk.unused hr h.borrowers
  refine ⟨fun n hn hrec => ?_, fun e he hrec => ?_⟩
  · have hzero : (k.nodes.cell n).references = 0 := not_not.mp (fun hx => hnodes n hn hx hrec)
    refine ⟨eq_true_of_ne_false (fun hx => ?_), hzero⟩
    exact hk.tree.live_of_not_released hn hx hzero
  · exact eq_false_of_ne_true (fun hx => hentries e he hx hrec)

/-- **A callback that is called**: by which call of `Close`, for which entry
of which assembly, and which callback of which record it is. -/
structure Call where
  closer : ℕ
  assembly : ℕ
  index : ℕ
  entry : ℕ
  record : ℕ
  callback : ℕ

namespace State

variable (spec : ℕ → Spec) (s : State ε)

/-- The callback a step calls: a call of `Close` turns to an entry, and comes
out waiting for its callback. -/
def calls : Event ε → List Call
  | .visit c =>
    match (s.closes.cell c).stage, s.step spec (.visit c) with
    | .visiting (i + 1), some s' =>
      if (s'.closes.cell c).stage = .calling i then
        match (s.target c).entries[i]? with
        | some e => (s.records.cell (s.recordOf e)).next.toList.map
            (⟨c, (s.closes.cell c).assembly, i, e, s.recordOf e, ·⟩)
        | none => []
      else []
    | _, _ => []
  | _ => []

def Cleaning (c r : ℕ) : Prop :=
  ∃ i e, (s.closes.cell c).stage = .calling i
    ∧ (s.entriesOf (s.closes.cell c).assembly)[i]? = some e ∧ s.recordOf e = r

/-- **What is known when a callback is called.** -/
structure Called (x : Call) : Prop where
  known : x.closer < s.closes.next
  stage : (s.closes.cell x.closer).stage = .visiting (x.index + 1)
  assembly : (s.closes.cell x.closer).assembly = x.assembly
  entry : (s.entriesOf x.assembly)[x.index]? = some x.entry
  record : s.recordOf x.entry = x.record
  owner : s.owner x.record = x.assembly
  borrowers : (s.records.cell x.record).borrowers = 0
  next : (s.records.cell x.record).next = some x.callback

variable {spec s} {s' : State ε} {x : Call} {l : Event ε}

@[simp] theorem cell_closing_self (s : State ε) (c : ℕ) (f : Closing ε → Closing ε) :
    (s.closing c f).closes.cell c = f (s.closes.cell c) := s.closes.cell_modify_self c f

/-- **Only the last branch of `visit` calls a callback.** -/
theorem visit_calling {c a e i : ℕ}
    (h : ((s.visit spec c a e i).closes.cell c).stage = .calling i) :
    s.owner (s.recordOf e) = a ∧ (s.records.cell (s.recordOf e)).borrowers = 0
      ∧ ((s.visit spec c a e i).records.cell (s.recordOf e)).next = none := by
  revert h
  fun_cases State.visit
  all_goals intro h
  any_goals simp [interrupt, State.pass] at h
  next hdone _ hfree =>
  rw [not_or, not_not] at hdone hfree
  refine ⟨hdone.1, hfree.1, ?_⟩
  exact congrArg Record.next (s.records.cell_modify_self (s.recordOf e) Record.call)

/-- **A callback is called for a closed record.** -/
theorem called_of_mem (hx : x ∈ s.calls spec l) (hl : s.step spec l = some s') :
    s.Called x ∧ (s'.records.cell x.record).next = none := by
  revert hx
  fun_cases calls
  all_goals intro hx
  any_goals cases hx
  next c i t ht hst hcalling e he =>
  cases ht.symm.trans hl
  obtain ⟨j, hj, rfl⟩ := List.mem_map.mp hx
  rw [Option.mem_toList] at hj
  obtain ⟨-, hl⟩ := Option.ite_none_left_eq_some.mp hl
  rw [hst] at hl
  obtain ⟨hc, -, rfl⟩ := atClose_eq_some hl
  unfold visitNext at hcalling ⊢
  dsimp only at hcalling ⊢
  rw [he] at hcalling ⊢
  obtain ⟨hown, hb, hnone⟩ := visit_calling hcalling
  exact ⟨⟨hc, hst, rfl, he, rfl, hown, hb, hj⟩, hnone⟩

theorem calls_eq (h : x ∈ s.calls spec l) : s.calls spec l = [x] := by
  revert h
  fun_cases calls
  all_goals intro h
  any_goals cases h
  next e _ =>
  cases hn : (s.records.cell (s.recordOf e)).next with
  | none =>
    rw [hn] at h
    cases h
  | some =>
    rw [hn] at h
    rw [List.mem_singleton.mp h]
    rfl

theorem Inv.init : Inv spec (init : State ε) where
  books :=
    { tree := ⟨nofun, nofun,
        nofun⟩
      kin := nofun
      family := nofun
      entry := nofun
      record := nofun
      count := nofun }
  titles :=
    { known := fun _ _ => ⟨rfl, rfl⟩
      listed := nofun
      apart := nofun
      lease := nofun
      entry := nofun
      unique := nofun
      kept := nofun
      ready := nofun }
  builds := nofun
  reach := nofun
  closes := nofun
  numbered := nofun
  distinct := nofun

theorem inv_of_run {tr : List (Event ε)} (hr : (machine spec).Run tr s) : Inv spec s :=
  hr.invariant (I := fun _ s => Inv spec s) .init (fun _ h hl => (h.step hl).toInv)

theorem Called.closed (h : s.Called x) (hi : Inv spec s) : s.toCore.Closed x.record := by
  have hok := hi.closes _ h.known
  rw [h.stage, h.assembly] at hok
  have hown := h.owner
  have hb := h.borrowers
  rw [← h.record] at hown hb ⊢
  exact hok.closed h.entry hown hb

theorem Called.record_lt (h : s.Called x) (hi : Inv spec s) : x.record < s.records.next := by
  rw [← h.record]
  exact hi.books.record _ (hi.titles.listed _ _ (List.mem_of_getElem? h.entry))

/-- **Callbacks that have been called**: they are different, and no record
has any of them. -/
structure Spent (s : State ε) (called : List Call) : Prop where
  nodup : (called.map Call.callback).Nodup
  old : ∀ x ∈ called, x.callback < s.callbacks
  gone : ∀ x ∈ called, ∀ r < s.records.next, (s.records.cell r).next ≠ some x.callback

/-- What has been called does not come back. -/
theorem Spent.keep {called : List Call} (h : Spent s called) (hh : Handed s s') :
    Spent s' called where
  nodup := h.nodup
  old x hx := (h.old x hx).trans_le hh.callbacks
  gone x hx r hr hj := by
    obtain ⟨hr', hj'⟩ | ⟨hle, -, -⟩ := hh.next r hr _ hj
    · exact h.gone x hx r hr' hj'
    · exact absurd (h.old x hx) (Nat.not_lt.mpr hle)

theorem Spent.step {called : List Call} (h : Spent s called) (hi : Inv spec s)
    (hl : s.step spec l = some s') : Spent s' (called ++ s.calls spec l) := by
  have hf := hi.step hl
  have hkeep := h.keep hf.handed
  rcases hc : s.calls spec l with - | ⟨x, rest⟩
  · rw [List.append_nil]
    exact hkeep
  · have hx : x ∈ s.calls spec l := by
      rw [hc]
      exact .head _
    rw [← hc, calls_eq hx]
    obtain ⟨hcalled, hnone⟩ := called_of_mem hx hl
    have hlt := hcalled.record_lt hi
    refine ⟨?_, fun y hy => ?_, fun y hy r hr hj => ?_⟩
    · rw [List.map_append]
      refine List.Nodup.append h.nodup (List.nodup_singleton _) (fun j hj hj' => ?_)
      obtain ⟨y, hy, rfl⟩ := List.mem_map.mp hj
      refine h.gone y hy _ hlt ?_
      rw [hcalled.next]
      exact congrArg some (List.mem_singleton.mp hj').symm
    · obtain hy | hy := List.mem_append.mp hy
      · exact hkeep.old y hy
      · rw [List.mem_singleton.mp hy]
        exact (hi.numbered _ hlt _ hcalled.next).trans_le hf.handed.callbacks
    · obtain hy | hy := List.mem_append.mp hy
      · exact hkeep.gone y hy r hr hj
      · obtain rfl := List.mem_singleton.mp hy
        obtain ⟨hr', hj'⟩ | ⟨hle, -, -⟩ := hf.handed.next r hr _ hj
        · obtain rfl := hi.distinct r hr' _ hlt _ hj' hcalled.next
          exact nomatch hnone.symm.trans hj
        · exact absurd (hi.numbered _ hlt _ hcalled.next) (Nat.not_lt.mpr hle)

theorem spent_of_run {tr : List (Event ε)} (hr : (machine spec).Run tr s) :
    Spent s ((machine spec).outputs (calls spec) init tr) := by
  refine hr.invariant (I := fun tr s => Spent s ((machine spec).outputs (calls spec) init tr))
    ⟨List.nodup_nil, nofun, nofun⟩ (fun hr h hl => ?_)
  rw [show (init : State ε) = (machine spec).start from rfl, hr.outputs_concat]
  exact h.step (inv_of_run hr) hl

theorem closed_of_exec {tr tr' : List (Event ε)} {r : ℕ} (hr : (machine spec).Run tr s)
    (he : (machine spec).exec s tr' = some s') (hlt : r < s.records.next)
    (hc : s.toCore.Closed r) : r < s'.records.next ∧ s'.toCore.Closed r :=
  hr.exec_rel (R := fun s s' => ∀ r, r < s.records.next ∧ s.toCore.Closed r →
      r < s'.records.next ∧ s'.toCore.Closed r) (fun _ _ => id)
    (fun h h' r hx => h' r (h r hx)) (fun hr hl r hx => have hf := (inv_of_run hr).step hl
      ⟨hx.1.trans_le hf.records, hf.closed r hx.1 hx.2⟩) he r ⟨hlt, hc⟩

/-- **Ordered cleanup.** In every run, over any assemblies: a record has one
owner, with one entry. A callback is called when nobody uses its record and
every later entry of the owner is settled, and nobody uses the record ever
after. Callbacks are called once each, and no two at a time for one record. -/
theorem cleanup_ordered {tr : List (Event ε)} (hr : (machine spec).Run tr s) :
    (∀ r < s.records.next, ∃! p : ℕ × ℕ, p.2 ∈ s.entriesOf p.1 ∧ ¬ s.toCore.Borrows spec p.2
      ∧ s.recordOf p.2 = r ∧ s.owner r = p.1) ∧
    (∀ tr₁ l tr₂ t, tr = tr₁ ++ l :: tr₂ → (machine spec).Run tr₁ t → ∀ x ∈ t.calls spec l,
      (t.entriesOf x.assembly)[x.index]? = some x.entry ∧ t.recordOf x.entry = x.record
      ∧ t.owner x.record = x.assembly ∧ t.toCore.Unused x.record
      ∧ (∀ e ∈ (t.entriesOf x.assembly).drop (x.index + 1), t.toCore.Settled spec x.assembly e)
      ∧ s.toCore.Unused x.record) ∧
    (((machine spec).outputs (calls spec) init tr).map Call.callback).Nodup ∧
    ∀ c < s.closes.next, ∀ c' < s.closes.next, ∀ r, s.Cleaning c r → s.Cleaning c' r → c = c' := by
  have hi := inv_of_run hr
  refine ⟨fun r hlt => ?_, ?_, (spent_of_run hr).nodup, ?_⟩
  · obtain ⟨e, he, hb, hrec⟩ := hi.titles.entry r hlt nofun
    refine ⟨(s.owner r, e), ⟨he, hb, hrec, rfl⟩, fun ⟨a', e'⟩ ⟨he', hb', hrec', hown⟩ => ?_⟩
    subst hown
    rw [hi.titles.unique _ e' he' e he hb' hb (hrec'.trans hrec.symm)]
  · rintro tr₁ l tr₂ t rfl ht x hx
    obtain ⟨t', u, ht', hl, he⟩ := hr.split
    obtain rfl : t = t' := Option.some.inj (ht.symm.trans ht')
    have hit := inv_of_run ht
    obtain ⟨hcalled, -⟩ := called_of_mem hx hl
    have hlt := hcalled.record_lt hit
    have hclosed := hcalled.closed hit
    have hok := hit.closes _ hcalled.known
    rw [hcalled.stage, hcalled.assembly] at hok
    have hexec : (machine spec).exec t (l :: tr₂) = some s :=
      Option.bind_eq_some_iff.mpr ⟨u, hl, he⟩
    obtain ⟨hlt', hclosed'⟩ := closed_of_exec ht hexec hlt hclosed
    exact ⟨hcalled.entry, hcalled.record, hcalled.owner, hclosed.unused hit.books hlt,
      hok.passed _ rfl, hclosed'.unused hi.books hlt'⟩
  · rintro c hc c' hc' r ⟨i, e, hst, he, rfl⟩ ⟨i', e', hst', he', hrec⟩
    have hok := hi.closes c hc
    have hok' := hi.closes c' hc'
    rw [hst] at hok
    rw [hst'] at hok'
    obtain ⟨e₁, he₁, -, hown, -, -⟩ := hok.calling i rfl
    obtain ⟨e₂, he₂, -, hown', -, -⟩ := hok'.calling i' rfl
    obtain rfl : e = e₁ := Option.some.inj (he.symm.trans he₁)
    obtain rfl : e' = e₂ := Option.some.inj (he'.symm.trans he₂)
    -- Both are in the gate of the record's owner.
    have hgate := hok.gate rfl
    have hgate' := hok'.gate rfl
    rw [← hown] at hgate
    rw [← hown', hrec] at hgate'
    exact Option.some.inj (hgate.symm.trans hgate')

namespace Sample

/-- A database and a cache, and another assembly that borrows the
database. -/
def table : ℕ → Spec
  | 0 => ⟨"db", .owned, "db", "pg", "1", true, none, none, some ⟨1, 0, 8, 0, 2⟩⟩
  | 1 => ⟨"shared", .borrowed, "db", "pg", "1", false, some 0, some 0, none⟩
  | _ => ⟨"cache", .owned, "cache", "lru", "1", true, none, none, none⟩

def assembled (b owned shared : ℕ) : List (Event Unit) :=
  List.replicate (owned + shared + 1) (.preflight b) ++ List.replicate shared (.take b)
    ++ (List.replicate owned [.take b, .construct b ⟨true, true, true, false⟩ none]).flatten
    ++ [.take b] ++ List.replicate (owned + shared + 1) (.check b)

def closing (a c n : ℕ) : List (Event Unit) :=
  [.close a none, .lock c] ++ List.replicate (n + 1) (.sealNext c) ++ [.enter c]

/-- The database is leased and borrowed when its owner is closed, and its
cleanup takes two callbacks. -/
def run : List (Event Unit) :=
  [.assemble "main" [some 0, some 2] none none] ++ assembled 0 2 0
    ++ [.assemble "side" [some 1] none none] ++ assembled 1 0 1
    ++ [.access 0 0, .acquire 0 0 1 none, .attempt 0]
    ++ closing 0 0 2 ++ [.visit 0, .cleaned 0 ⟨true, true, none, false⟩, .visit 0, .leave 0]
    ++ [.release 0] ++ closing 1 1 1 ++ [.visit 1, .visit 1, .leave 1]
    ++ closing 0 2 2 ++ [.visit 2, .visit 2, .cleaned 2 ⟨true, false, none, true⟩, .leave 2]
    ++ closing 0 3 2 ++ [.visit 3, .visit 3]

def retained : List (Event Unit) :=
  [.assemble "main" [some 0] none none] ++ assembled 0 1 0
    ++ [.access 0 0, .acquire 0 0 1 none, .attempt 0, .retain 0, .release 0]

end Sample

/-- The cache goes first, and the database when its lease and its borrower
are gone. -/
theorem cleanup_ordered_database :
    ∃ s : State Unit, (machine Sample.table).Run Sample.run s
      ∧ ((machine Sample.table).outputs (calls Sample.table) init Sample.run).map
        (fun x => (x.record, x.callback)) = [(1, 1), (0, 0), (0, 2)]
      ∧ (((machine Sample.table).outputs (calls Sample.table) init Sample.run).map
        Call.callback).Nodup :=
  have hr := (machine Sample.table).run_reached Sample.run (by decide +kernel)
  ⟨_, hr, by decide +kernel, (cleanup_ordered hr).2.2.1⟩

/-- **A lease ends with the last lease within it**: it is done when it and
all that was retained from it have been released, and not before. Until
then its root counts as a borrower of the record, beside the entries that
borrow it. -/
theorem leases_end_last {tr : List (Event ε)} (hr : (machine spec).Run tr s) :
    (∀ n < s.nodes.next, (s.nodes.cell n).done = true ↔
      ∀ m < s.nodes.next, Refcount.Within s.nodes m n → (s.nodes.cell m).released = true)
    ∧ ∀ r < s.records.next, (s.records.cell r).borrowers = s.toCore.lent r + s.toCore.used r :=
  have h := (inv_of_run hr).books
  ⟨fun _ hn => h.tree.done_iff hn, h.count⟩

/-- The lease on the database has been released, but not the one retained
from it. -/
theorem leases_end_last_database :
    ∃ s : State Unit, (machine Sample.table).Run Sample.retained s
      ∧ (s.nodes.cell 0).released = true ∧ ¬(s.nodes.cell 0).done = true
      ∧ (s.records.cell 0).borrowers = 1 :=
  have hr := (machine Sample.table).run_reached Sample.retained (by decide +kernel)
  have h := leases_end_last hr
  ⟨_, hr, by decide +kernel,
    fun hdone => absurd (((h.1 0 (by decide +kernel)).mp hdone) 1 (by decide +kernel)
      (.single (by decide +kernel))) (by decide +kernel),
    (h.2 0 (by decide +kernel)).trans (by decide +kernel)⟩

end State

end Composition
