import Fathomry.CompositionBooks

/-!
# Who owns a record

A record names its owner, and the owner has an entry for it. Everybody else
who has one borrows, or has passed the record on. While an assembly is being
built its entries are its own, since nobody can take a record from an
assembly that is not ready; afterwards it can only lose them. So an owner has
exactly one entry for what it owns (`Titles.unique`), and an assembly that has
lost a record never gets it back (`Grows`).

`Closed` is where a record is once its callback has been called. Nobody uses
it, its owner lets nobody in, and nothing that can happen changes that.
-/

namespace Composition

variable {ε : Type}

namespace Core

variable (spec : ℕ → Spec) (k : Core ε)

/-- An entry that borrows. -/
def Borrows (e : ℕ) : Prop := (spec (k.entries.cell e).spec).mode = .borrowed

def entriesOf (a : ℕ) : List ℕ := (k.assemblies.cell a).entries

def owner (r : ℕ) : ℕ := (k.records.cell r).owner

/-- **Who owns what.** A record that is not missing has an entry with its
owner. -/
structure Titles (missing : Option ℕ) : Prop where
  known : ∀ a, k.assemblies.next ≤ a → (k.assemblies.cell a).building = false ∧ k.entriesOf a = []
  listed : ∀ a, ∀ e ∈ k.entriesOf a, e < k.entries.next
  apart : ∀ a b e, e ∈ k.entriesOf a → e ∈ k.entriesOf b → a = b
  lease : ∀ e < k.entries.next, (k.entries.cell e).lease = true → k.Borrows spec e
  entry : ∀ r < k.records.next, missing ≠ some r →
    ∃ e ∈ k.entriesOf (k.owner r), ¬ k.Borrows spec e ∧ k.recordOf e = r
  unique : ∀ a, ∀ e ∈ k.entriesOf a, ∀ e' ∈ k.entriesOf a, ¬ k.Borrows spec e →
    ¬ k.Borrows spec e' → k.recordOf e = k.recordOf e' → e = e'
  kept : ∀ a, (k.assemblies.cell a).building = true → ∀ e ∈ k.entriesOf a,
    ¬ k.Borrows spec e → k.owner (k.recordOf e) = a
  ready : ∀ a, (k.assemblies.cell a).ready = true → (k.assemblies.cell a).building = false

variable {spec k} {missing : Option ℕ} {k' : Core ε}

variable {r : ℕ}

theorem Titles.owner_lt (h : Titles spec k none) (hr : r < k.records.next) :
    k.owner r < k.assemblies.next := by
  by_contra hle
  obtain ⟨e, he, -⟩ := h.entry r hr (by simp)
  rw [(h.known _ (Nat.le_of_not_lt hle)).2] at he
  exact List.not_mem_nil he

/-! ## Changes -/

/-- **A change that leaves the titles alone**: no assembly gets or loses an
entry, and one that is now being built was so before or has no entries. -/
theorem Titles.frame (h : Titles spec k missing)
    (hknown : ∀ a, k'.assemblies.next ≤ a →
      k.assemblies.next ≤ a ∧ (k'.assemblies.cell a).building = (k.assemblies.cell a).building)
    (hentries : ∀ a, k'.entriesOf a = k.entriesOf a)
    (hbuilding : ∀ a, (k'.assemblies.cell a).building = true →
      (k.assemblies.cell a).building = true ∨ k.entriesOf a = [])
    (hready : ∀ a, (k'.assemblies.cell a).ready = true → (k'.assemblies.cell a).building = false)
    (hen : k'.entries.next = k.entries.next)
    (he : ∀ e, (k'.entries.cell e).spec = (k.entries.cell e).spec
      ∧ (k'.entries.cell e).record = (k.entries.cell e).record
      ∧ ((k'.entries.cell e).lease = true → (k.entries.cell e).lease = true))
    (hrn : k'.records.next = k.records.next) (hr : ∀ r, k'.owner r = k.owner r) :
    Titles spec k' missing := by
  have hborrows : ∀ e, k'.Borrows spec e ↔ k.Borrows spec e := fun e => by
    unfold Borrows
    rw [(he e).1]
  have hrec : ∀ e, k'.recordOf e = k.recordOf e := fun e => (he e).2.1
  refine ⟨fun a ha => ?_, ?_, ?_, fun e hlt hl => ?_, ?_, ?_, fun a ha => ?_, hready⟩
  · rw [hentries, (hknown a ha).2]
    exact h.known a (hknown a ha).1
  · simp only [hentries, hen]
    exact h.listed
  · simp only [hentries]
    exact h.apart
  · rw [hborrows]
    exact h.lease e (hen ▸ hlt) ((he e).2.2 hl)
  · simp only [hentries, hborrows, hrec, hr, hrn]
    exact h.entry
  · simp only [hentries, hborrows, hrec]
    exact h.unique
  · simp only [hentries, hborrows, hrec, hr]
    obtain hb | hnil := hbuilding a ha
    · exact h.kept a hb
    · rw [hnil]
      exact nofun

theorem Titles.record (h : Titles spec k missing) (r : ℕ) {f : Record ε → Record ε}
    (hf : ∀ x, (f x).owner = x.owner) : Titles spec (k.record r f) missing :=
  h.frame (fun _ ha => ⟨ha, rfl⟩) (fun _ => rfl) (fun _ => .inl) h.ready rfl
    (fun _ => ⟨rfl, rfl, id⟩) rfl (fun r' => k.records.cell_modify_proj r r' hf)

theorem entry_change (e : ℕ) {f : Entry → Entry}
    (hf : ∀ x, (f x).spec = x.spec ∧ (f x).record = x.record
      ∧ ((f x).lease = true → x.lease = true))
    (e' : ℕ) : ((k.entry e f).entries.cell e').spec = (k.entries.cell e').spec
      ∧ ((k.entry e f).entries.cell e').record = (k.entries.cell e').record
      ∧ (((k.entry e f).entries.cell e').lease = true → (k.entries.cell e').lease = true) := by
  rw [show (k.entry e f).entries.cell e' = _ from k.entries.cell_modify e e' f]
  split
  · exact hf _
  · exact ⟨rfl, rfl, id⟩

theorem Titles.entry_change (h : Titles spec k missing) (e : ℕ) {f : Entry → Entry}
    (hf : ∀ x, (f x).spec = x.spec ∧ (f x).record = x.record
      ∧ ((f x).lease = true → x.lease = true)) :
    Titles spec (k.entry e f) missing :=
  h.frame (fun _ ha => ⟨ha, rfl⟩) (fun _ => rfl) (fun _ => .inl) h.ready rfl
    (Core.entry_change e hf) rfl (fun _ => rfl)

variable {a : ℕ} {f : Assembly ε → Assembly ε}

theorem entriesOf_assembly (hf : ∀ x, (f x).entries = x.entries) (b : ℕ) :
    (k.assembly a f).entriesOf b = k.entriesOf b :=
  k.assemblies.cell_modify_proj a b hf

theorem building_assembly {b : ℕ} (hf : ∀ x, (f x).building = true → x.building = true)
    (hb : ((k.assembly a f).assemblies.cell b).building = true) :
    (k.assemblies.cell b).building = true := by
  rw [show (k.assembly a f).assemblies.cell b = _ from k.assemblies.cell_modify a b f] at hb
  split at hb
  · exact hf _ hb
  · exact hb

theorem Titles.assembly (h : Titles spec k missing) (a : ℕ)
    (hentries : ∀ x, (f x).entries = x.entries)
    (hbuilding : ∀ x, (f x).building = true → x.building = true)
    (hready : (f (k.assemblies.cell a)).ready = true → (f (k.assemblies.cell a)).building = false) :
    Titles spec (k.assembly a f) missing := by
  refine h.frame (fun b hb => ⟨hb, ?_⟩) (entriesOf_assembly hentries)
    (fun b hb => .inl (building_assembly hbuilding hb)) (fun b hb => ?_) rfl
    (fun _ => ⟨rfl, rfl, id⟩) rfl (fun _ => rfl)
  · rw [(h.known b hb).1]
    exact eq_false_of_ne_true
      (mt (building_assembly hbuilding) (ne_true_of_eq_false (h.known b hb).1))
  · exact k.assemblies.forall_modify (Q := fun _ x => x.ready = true → x.building = false) b
      (fun _ => h.ready b) hready hb

theorem Titles.found (h : Titles spec k none) (scope : String) (b : ℕ) :
    Titles spec (k.found scope b) none := by
  -- The new assembly has no entries, and its place had none before.
  have hnext : k.entriesOf k.assemblies.next = [] := (h.known _ le_rfl).2
  refine h.frame (fun a ha => ⟨Nat.le_of_succ_le ha, ?_⟩) (fun a => ?_) (fun a => ?_) (fun a => ?_)
    rfl (fun _ => ⟨rfl, rfl, id⟩) rfl (fun _ => rfl)
  · exact congrArg Assembly.building
      (k.assemblies.cell_alloc_of_ne _ (Nat.lt_of_succ_le ha).ne')
  · exact k.assemblies.alloc_cases (Q := fun a x => x.entries = k.entriesOf a) a (fun _ => rfl)
      hnext.symm
  · exact k.assemblies.alloc_cases (Q := fun a x => x.building = true →
      (k.assemblies.cell a).building = true ∨ k.entriesOf a = []) a (fun _ => .inl)
      (fun _ => .inr hnext)
  · exact k.assemblies.alloc_cases (Q := fun _ x => x.ready = true → x.building = false) a
      (fun _ => h.ready a) nofun

/-! ## New entries -/

theorem entriesOf_append (a : ℕ) (e : Entry) (b : ℕ) :
    (k.append a e).entriesOf b
      = if b = a then k.entriesOf b ++ [k.entries.next] else k.entriesOf b := by
  unfold entriesOf append Core.assembly
  rw [Heap.cell_modify]
  split
  · rfl
  · rfl

theorem building_append (a : ℕ) (e : Entry) (b : ℕ) :
    ((k.append a e).assemblies.cell b).building = (k.assemblies.cell b).building
      ∧ ((k.append a e).assemblies.cell b).ready = (k.assemblies.cell b).ready := by
  unfold append Core.assembly
  rw [Heap.cell_modify]
  split
  all_goals exact ⟨rfl, rfl⟩

theorem mem_entriesOf_append {e : Entry} {b e' : ℕ} :
    e' ∈ (k.append a e).entriesOf b ↔ e' ∈ k.entriesOf b ∨ b = a ∧ e' = k.entries.next := by
  rw [entriesOf_append]
  split
  · rw [List.mem_append, List.mem_singleton]
    exact or_congr_right (and_iff_right ‹_›).symm
  · exact (or_iff_left (fun h => absurd h.1 ‹_›)).symm

/-- **A new entry is the title that was missing.** -/
theorem Titles.append (h : Titles spec k missing) (ha : a < k.assemblies.next) {e : Entry}
    (hlease : e.lease = true → (spec e.spec).mode = .borrowed)
    (hmissing : ∀ r, missing = some r → r = e.record ∧ k.owner r = a
      ∧ (spec e.spec).mode ≠ .borrowed)
    (hown : (spec e.spec).mode ≠ .borrowed → k.owner e.record = a ∧ ∀ e' ∈ k.entriesOf a,
      ¬ k.Borrows spec e' → k.recordOf e' ≠ e.record) :
    Titles spec (k.append a e) none := by
  have hnew : (k.append a e).entries.cell k.entries.next = e := k.entries.cell_alloc_self e
  have hborrows : ∀ e' < k.entries.next,
      ((k.append a e).Borrows spec e' ↔ k.Borrows spec e') := fun e' he' => by
    unfold Borrows
    rw [show (k.append a e).entries.cell e' = _ from k.entries.cell_alloc_of_lt e he']
  have hborrowsNew : (k.append a e).Borrows spec k.entries.next
      ↔ (spec e.spec).mode = .borrowed := by
    unfold Borrows
    rw [hnew]
  have hrecNew : (k.append a e).recordOf k.entries.next = e.record := congrArg Entry.record hnew
  have hnot : ∀ b, k.entries.next ∉ k.entriesOf b :=
    fun b hm => lt_irrefl _ (h.listed b _ hm)
  -- An entry is one of those before or the new one.
  have hcases : ∀ b e', e' ∈ (k.append a e).entriesOf b →
      (e' ∈ k.entriesOf b ∧ ((k.append a e).Borrows spec e' ↔ k.Borrows spec e')
        ∧ (k.append a e).recordOf e' = k.recordOf e')
      ∨ (b = a ∧ e' = k.entries.next ∧ ((k.append a e).Borrows spec e'
        ↔ (spec e.spec).mode = .borrowed) ∧ (k.append a e).recordOf e' = e.record) := by
    intro b e' he'
    obtain hm | ⟨rfl, rfl⟩ := mem_entriesOf_append.mp he'
    · have hlt := h.listed b e' hm
      exact .inl ⟨hm, hborrows e' hlt, recordOf_append a e hlt⟩
    · exact .inr ⟨rfl, rfl, hborrowsNew, hrecNew⟩
  refine ⟨fun b hb => ?_, fun b e' he' => ?_, fun b b' e' he he' => ?_, fun e' he' hl => ?_,
    fun r hr _ => ?_, fun b e₁ h₁ e₂ h₂ hb₁ hb₂ heq => ?_, fun b hb e' he' hbe => ?_,
    fun b hb => ?_⟩
  · rw [(building_append a e b).1, entriesOf_append, if_neg (ha.trans_le hb).ne']
    exact h.known b hb
  · obtain ⟨hm, -⟩ | ⟨-, rfl, -⟩ := hcases b e' he'
    · exact (h.listed b e' hm).trans (Nat.lt_add_one _)
    · exact Nat.lt_add_one _
  · obtain ⟨hm, -⟩ | ⟨rfl, rfl, -⟩ := hcases b e' he
    · obtain ⟨hm', -⟩ | ⟨-, rfl, -⟩ := hcases b' e' he'
      · exact h.apart b b' e' hm hm'
      · exact absurd hm (hnot b)
    · obtain ⟨hm', -⟩ | ⟨rfl, -⟩ := hcases b' _ he'
      · exact absurd hm' (hnot b')
      · rfl
  · exact k.entries.forall_alloc (Q := fun _ x => x.lease = true → (spec x.spec).mode = .borrowed)
      h.lease hlease e' he' hl
  · by_cases hm : missing = some r
    · obtain ⟨rfl, hra, hmode⟩ := hmissing r hm
      refine ⟨k.entries.next, mem_entriesOf_append.mpr (.inr ⟨hra, rfl⟩), ?_, hrecNew⟩
      rw [hborrowsNew]
      exact hmode
    · obtain ⟨e', he', hb, heq⟩ := h.entry r hr hm
      have hlt := h.listed _ e' he'
      refine ⟨e', mem_entriesOf_append.mpr (.inl he'), ?_, (recordOf_append a e hlt).trans heq⟩
      rwa [hborrows e' hlt]
  · obtain ⟨hm₁, hB₁, hr₁⟩ | ⟨rfl, rfl, hB₁, hr₁⟩ := hcases b e₁ h₁
    · obtain ⟨hm₂, hB₂, hr₂⟩ | ⟨rfl, rfl, hB₂, hr₂⟩ := hcases b e₂ h₂
      · rw [hr₁, hr₂] at heq
        exact h.unique b e₁ hm₁ e₂ hm₂ (hB₁.not.mp hb₁) (hB₂.not.mp hb₂) heq
      · rw [hr₁, hr₂] at heq
        exact absurd heq ((hown (hB₂.not.mp hb₂)).2 e₁ hm₁ (hB₁.not.mp hb₁))
    · obtain ⟨hm₂, hB₂, hr₂⟩ | ⟨-, rfl, -⟩ := hcases b e₂ h₂
      · rw [hr₁, hr₂] at heq
        exact absurd heq.symm ((hown (hB₁.not.mp hb₁)).2 e₂ hm₂ (hB₂.not.mp hb₂))
      · rfl
  · rw [(building_append a e b).1] at hb
    obtain ⟨hm, hB, hrec⟩ | ⟨rfl, rfl, hB, hrec⟩ := hcases b e' he'
    · rw [hrec]
      exact h.kept b hb e' hm (hB.not.mp hbe)
    · rw [hrec]
      exact (hown (hB.not.mp hbe)).1
  · rw [(building_append a e b).2] at hb
    rw [(building_append a e b).1]
    exact h.ready b hb

variable {p : ℕ}

theorem Titles.borrow (h : Titles spec k none) (ha : a < k.assemblies.next)
    (hp : (spec p).mode = .borrowed) : Titles spec (k.borrow a p r) none := by
  have hlend : Titles spec (k.record r Record.lend) none := h.record r (fun _ => rfl)
  exact hlend.append ha (fun _ => hp) nofun (absurd hp)

/-- **A record is taken over** from an assembly that is not being built. -/
theorem Titles.delegate (h : Titles spec k none) (ha : a < k.assemblies.next)
    (hb : (k.assemblies.cell a).building = true) (hp : (spec p).mode ≠ .borrowed)
    (hdonor : (k.assemblies.cell (k.owner r)).building = false) :
    Titles spec (k.delegate a p r) none := by
  have hother : ∀ r', r' ≠ r → (k.record r (·.passTo a)).owner r' = k.owner r' :=
    fun r' hne => congrArg Record.owner (k.records.cell_modify_of_ne (·.passTo a) hne)
  have hself : (k.record r (·.passTo a)).owner r = a :=
    congrArg Record.owner (k.records.cell_modify_self r (·.passTo a))
  -- Nobody who is being built has the record.
  have hnone : ∀ b, (k.assemblies.cell b).building = true → ∀ e ∈ k.entriesOf b,
      ¬ k.Borrows spec e → k.recordOf e ≠ r := by
    rintro b hbb e he hbe rfl
    rw [h.kept b hbb e he hbe] at hdonor
    exact nomatch hdonor.symm.trans hbb
  have hmiss : Titles spec (k.record r (·.passTo a)) (some r) := by
    refine ⟨h.known, h.listed, h.apart, h.lease, fun r' hr' hne => ?_, h.unique,
      fun b hbb e he hbe => ?_, h.ready⟩
    · rw [hother r' (fun heq => hne (congrArg some heq.symm))]
      exact h.entry r' hr' (by simp)
    · have hne : k.recordOf e ≠ r := hnone b hbb e he hbe
      exact (hother _ hne).trans (h.kept b hbb e he hbe)
  refine hmiss.append ha nofun (fun r' hr' => ?_) (fun _ => ⟨hself, ?_⟩)
  · cases hr'
    exact ⟨rfl, hself, hp⟩
  · exact hnone a hb

theorem Titles.own (h : Titles spec k none) (hl : Leases k) (ha : a < k.assemblies.next)
    (check : Bool) {x : Record ε} (hx : x.owner = a) (hp : (spec p).mode ≠ .borrowed) :
    Titles spec (k.own a p check x) none := by
  have hold : ∀ r < k.records.next, ({ k with records := k.records.alloc x } : Core ε).owner r
      = k.owner r := fun r hr => congrArg Record.owner (k.records.cell_alloc_of_lt x hr)
  have hself : ({ k with records := k.records.alloc x } : Core ε).owner k.records.next = a :=
    (congrArg Record.owner (k.records.cell_alloc_self x)).trans hx
  have hlt : ∀ b, ∀ e ∈ k.entriesOf b, k.recordOf e < k.records.next :=
    fun b e he => hl.record e (h.listed b e he)
  have hmiss : Titles spec ({ k with records := k.records.alloc x } : Core ε)
      (some k.records.next) := by
    refine ⟨h.known, h.listed, h.apart, h.lease, fun r hr hne => ?_, h.unique,
      fun b hbb e he hbe => ?_, h.ready⟩
    · have hr' : r < k.records.next :=
        lt_of_le_of_ne (Nat.le_of_lt_succ hr) (fun heq => hne (congrArg some heq.symm))
      rw [hold r hr']
      exact h.entry r hr' (by simp)
    · exact (hold _ (hlt b e he)).trans (h.kept b hbb e he hbe)
  refine hmiss.append ha nofun (fun r hr => ?_) (fun _ => ⟨hself, ?_⟩)
  · cases hr
    exact ⟨rfl, hself, hp⟩
  · exact fun e he _ => (hlt a e he).ne

/-! ## What is never taken back -/

/-- **What can become of a core.** An assembly that has been built has its
entries for good, and does not become ready or an owner again; what has been
returned, sealed or completed stays so. -/
structure Grows (k k' : Core ε) : Prop where
  assemblies : k.assemblies.next ≤ k'.assemblies.next
  entries : k.entries.next ≤ k'.entries.next
  records : k.records.next ≤ k'.records.next
  built : ∀ a < k.assemblies.next, (k.assemblies.cell a).building = false →
    (k'.assemblies.cell a).building = false ∧ k'.entriesOf a = k.entriesOf a
      ∧ ((k'.assemblies.cell a).ready = true → (k.assemblies.cell a).ready = true)
  entry : ∀ e < k.entries.next, (k'.entries.cell e).spec = (k.entries.cell e).spec
    ∧ (k'.entries.cell e).record = (k.entries.cell e).record
    ∧ ((k'.entries.cell e).lease = true → (k.entries.cell e).lease = true)
  admitting : ∀ r < k.records.next, (k'.records.cell r).admitting = true →
    (k.records.cell r).admitting = true
  complete : ∀ r < k.records.next, (k.records.cell r).complete = true →
    (k'.records.cell r).complete = true
  owner : ∀ r < k.records.next, ∀ a < k.assemblies.next,
    (k.assemblies.cell a).building = false → k'.owner r = a → k.owner r = a

/-- **A record whose cleanup has begun**: nobody uses it, and its owner lets
nobody in. -/
structure Closed (k : Core ε) (r : ℕ) : Prop where
  admitting : (k.records.cell r).admitting = false
  borrowers : (k.records.cell r).borrowers = 0
  ready : (k.assemblies.cell (k.owner r)).ready = false
  building : (k.assemblies.cell (k.owner r)).building = false

theorem Grows.refl : Grows k k where
  assemblies := le_rfl
  entries := le_rfl
  records := le_rfl
  built _ _ hb := ⟨hb, rfl, id⟩
  entry _ _ := ⟨rfl, rfl, id⟩
  admitting _ _ := id
  complete _ _ := id
  owner _ _ _ _ _ := id

theorem Grows.assembly (a : ℕ) (hentries : ∀ x, (f x).entries = x.entries)
    (hbuilding : ∀ x, (f x).building = true → x.building = true)
    (hready : (f (k.assemblies.cell a)).ready = true →
      (k.assemblies.cell a).ready = true ∨ (k.assemblies.cell a).building = true) :
    Grows k (k.assembly a f) := by
  refine { Grows.refl with built := fun b hb hbb => ⟨?_, ?_, ?_⟩ }
  · exact eq_false_of_ne_true (mt (building_assembly hbuilding) (ne_true_of_eq_false hbb))
  · exact k.assemblies.cell_modify_proj a b hentries
  · refine k.assemblies.forall_modify (Q := fun b x => (k.assemblies.cell b).building = false →
      x.ready = true → (k.assemblies.cell b).ready = true) b (fun _ _ => id) (fun hn hx => ?_) hbb
    exact (hready hx).resolve_right (ne_true_of_eq_false hn)

/-! ## What can happen to a core -/

/-- **What can happen to a core.** -/
inductive Move (spec : ℕ → Spec) (k : Core ε) : Core ε → Prop
  | idle : Move spec k k
  | assembly (a : ℕ) (f : Assembly ε → Assembly ε) (hentries : ∀ x, (f x).entries = x.entries)
      (hbuilding : ∀ x, (f x).building = true → x.building = true)
      (hready : (f (k.assemblies.cell a)).ready = true →
        ((k.assemblies.cell a).ready = true ∨ (k.assemblies.cell a).building = true)
          ∧ (f (k.assemblies.cell a)).building = false) : Move spec k (k.assembly a f)
  | found (scope : String) (b : ℕ) : Move spec k (k.found scope b)
  | borrow (a p r : ℕ) (ha : a < k.assemblies.next)
      (hb : (k.assemblies.cell a).building = true) (hp : (spec p).mode = .borrowed)
      (hr : r < k.records.next) (hadm : (k.records.cell r).admitting = true) :
      Move spec k (k.borrow a p r)
  | delegate (a p r : ℕ) (ha : a < k.assemblies.next)
      (hb : (k.assemblies.cell a).building = true) (hp : (spec p).mode ≠ .borrowed)
      (hr : r < k.records.next) (hadm : (k.records.cell r).admitting = true)
      (hdonor : (k.assemblies.cell (k.owner r)).building = false) :
      Move spec k (k.delegate a p r)
  | own (a p : ℕ) (check : Bool) (x : Record ε) (ha : a < k.assemblies.next)
      (hb : (k.assemblies.cell a).building = true) (hp : (spec p).mode ≠ .borrowed)
      (hx : x.owner = a) (hx' : x.borrowers = 0) : Move spec k (k.own a p check x)
  /-- A record is sealed, its callback taken, or what it confirmed noted. -/
  | record (r : ℕ) (f : Record ε → Record ε)
      (hf : ∀ x, (f x).owner = x.owner ∧ (f x).borrowers = x.borrowers
        ∧ ((f x).admitting = true → x.admitting = true)
        ∧ (x.complete = true → (f x).complete = true)) : Move spec k (k.record r f)
  | grant (a e : ℕ) (bytes limit : ℤ) (he : e < k.entries.next)
      (hready : (k.assemblies.cell a).ready = true)
      (hheld : (k.entries.cell e).lease = true ∨ k.owner (k.recordOf e) = a) :
      Move spec k (k.grant a e bytes limit)
  | retain (n : ℕ) (hn : n < k.nodes.next) (hr : (k.nodes.cell n).released = false) :
      Move spec k (k.retain n)
  | release (n : ℕ) (hn : n < k.nodes.next) (hr : (k.nodes.cell n).released = false)
      (hfree : (Refcount.release k.nodes n).2.2 = none) : Move spec k (k.release n)
  | free (n m : ℕ) (hn : n < k.nodes.next) (hr : (k.nodes.cell n).released = false)
      (hfree : (Refcount.release k.nodes n).2.2 = some m) :
      Move spec k ((k.release n).free (k.families.cell (k.nodes.cell n).data).entry)
  | giveBack (e : ℕ) (he : e < k.entries.next) (hl : (k.entries.cell e).lease = true) :
      Move spec k (k.giveBack e)

theorem Move.books (h : Move spec k k') (hk : Books k) : Books k' := by
  cases h with
  | idle => exact hk
  | assembly | found => exact hk.frame rfl rfl rfl (fun _ => ⟨rfl, rfl⟩) rfl (fun _ _ => rfl)
  | borrow a p r _ _ _ hr => exact hk.borrow a p hr
  | delegate a p r _ _ _ hr =>
    exact (hk.record_of_eq r (f := (·.passTo a)) (fun _ => rfl)).append a hr rfl
  | own a p check x _ _ _ _ hx => exact hk.own a p check hx
  | record r f hf => exact hk.record_of_eq r (fun x => (hf x).2.1)
  | grant a e bytes limit he => exact hk.grant a he bytes limit
  | retain n hn hr => exact hk.retain hn hr
  | release n hn hr hfree => exact hk.release hn hr hfree
  | free n m hn hr hfree => exact hk.free hn hr hfree
  | giveBack e he hl => exact hk.giveBack he hl

theorem Move.titles (h : Move spec k k') (hb : Leases k) (hk : Titles spec k none) :
    Titles spec k' none := by
  cases h with
  | idle => exact hk
  | assembly a f hentries hbuilding hready =>
    exact hk.assembly a hentries hbuilding (fun hx => (hready hx).2)
  | found scope b => exact hk.found scope b
  | borrow a p r ha _ hp => exact hk.borrow ha hp
  | delegate a p r ha hb hp _ _ hdonor => exact hk.delegate ha hb hp hdonor
  | own a p check x ha _ hp hx => exact hk.own hb ha check hx hp
  | record r f hf => exact hk.record r (fun x => (hf x).1)
  | grant a e =>
    have huse := (hk.record (k.recordOf e) (f := Record.lend) (fun _ => rfl)).entry_change e
      (f := Entry.use) (fun _ => ⟨rfl, rfl, id⟩)
    exact { huse with }
  | retain | release => exact { hk with }
  | free n =>
    have hrel : Titles spec (k.release n) none := { hk with }
    exact (hrel.record _ (f := Record.unlend) (fun _ => rfl)).entry_change _
      (fun _ => ⟨rfl, rfl, id⟩)
  | giveBack e =>
    exact (hk.record _ (f := Record.unlend) (fun _ => rfl)).entry_change e
      (fun _ => ⟨rfl, rfl, nofun⟩)

/-- A change of records alone: who gets one is being built. -/
theorem Grows.record_change (r : ℕ) {f : Record ε → Record ε}
    (hf : ∀ x, ((f x).owner = x.owner ∨ (k.assemblies.cell (f x).owner).building = true)
      ∧ ((f x).admitting = true → x.admitting = true)
      ∧ (x.complete = true → (f x).complete = true)) : Grows k (k.record r f) := by
  refine { Grows.refl with
    admitting := fun r' _ => ?_
    complete := fun r' _ => ?_
    owner := fun r' _ a _ hb => ?_ }
  · exact k.records.forall_modify
      (Q := fun r' x => x.admitting = true → (k.records.cell r').admitting = true) r'
      (fun _ => id) (hf _).2.1
  · exact k.records.forall_modify
      (Q := fun r' x => (k.records.cell r').complete = true → x.complete = true) r'
      (fun _ => id) (hf _).2.2
  · refine k.records.forall_modify (Q := fun r' x => x.owner = a → k.owner r' = a) r' (fun _ => id)
      (fun hx => ?_)
    obtain hown | hbuilt := (hf (k.records.cell r)).1
    · exact hown.symm.trans hx
    · rw [hx] at hbuilt
      exact nomatch hb.symm.trans hbuilt

theorem Grows.trans {k'' : Core ε} (h : Grows k k') (h' : Grows k' k'') : Grows k k'' where
  assemblies := h.assemblies.trans h'.assemblies
  entries := h.entries.trans h'.entries
  records := h.records.trans h'.records
  built a ha hb := by
    obtain ⟨hb₁, he₁, hr₁⟩ := h.built a ha hb
    obtain ⟨hb₂, he₂, hr₂⟩ := h'.built a (ha.trans_le h.assemblies) hb₁
    exact ⟨hb₂, he₂.trans he₁, fun hx => hr₁ (hr₂ hx)⟩
  entry e he := by
    obtain ⟨hs₁, hr₁, hl₁⟩ := h.entry e he
    obtain ⟨hs₂, hr₂, hl₂⟩ := h'.entry e (he.trans_le h.entries)
    exact ⟨hs₂.trans hs₁, hr₂.trans hr₁, fun hx => hl₁ (hl₂ hx)⟩
  admitting r hr hx := h.admitting r hr (h'.admitting r (hr.trans_le h.records) hx)
  complete r hr hx := h'.complete r (hr.trans_le h.records) (h.complete r hr hx)
  owner r hr a ha hb hx := h.owner r hr a ha hb
    (h'.owner r (hr.trans_le h.records) a (ha.trans_le h.assemblies) (h.built a ha hb).1 hx)

theorem Grows.use (r e : ℕ) {f : Record ε → Record ε} {g : Entry → Entry}
    (hf : ∀ x, (f x).owner = x.owner ∧ (f x).admitting = x.admitting ∧ (f x).complete = x.complete)
    (hg : ∀ x, (g x).spec = x.spec ∧ (g x).record = x.record
      ∧ ((g x).lease = true → x.lease = true)) : Grows k ((k.record r f).entry e g) :=
  (Grows.record_change r (fun x => ⟨.inl (hf x).1, (hf x).2.1.symm ▸ id,
    (hf x).2.2.symm ▸ id⟩)).trans
    { Grows.refl with entry := fun e' _ => Core.entry_change e hg e' }

/-- Only an assembly that is being built gets new entries. -/
theorem Grows.append (hb : (k.assemblies.cell a).building = true) (e : Entry) :
    Grows k (k.append a e) := by
  refine { Grows.refl with
    entries := Nat.le_succ _
    built := fun b _ hbb => ?_
    entry := fun e' he' => ?_ }
  · have hne : b ≠ a := by
      rintro rfl
      exact nomatch hbb.symm.trans hb
    rw [(building_append a e b).1, (building_append a e b).2, entriesOf_append, if_neg hne]
    exact ⟨hbb, rfl, id⟩
  · rw [show (k.append a e).entries.cell e' = _ from k.entries.cell_alloc_of_lt e he']
    exact ⟨rfl, rfl, id⟩

theorem Grows.alloc_record (x : Record ε) : Grows k { k with records := k.records.alloc x } := by
  have hcell : ∀ r < k.records.next, (k.records.alloc x).cell r = k.records.cell r :=
    fun r hr => k.records.cell_alloc_of_lt x hr
  exact { Grows.refl with
    records := Nat.le_succ _
    admitting := fun r hr hx => hcell r hr ▸ hx
    complete := fun r hr hx => (hcell r hr).symm ▸ hx
    owner := fun r hr _ _ _ hx => (congrArg Record.owner (hcell r hr)).symm.trans hx }

theorem Grows.found (scope : String) (b : ℕ) : Grows k (k.found scope b) := by
  refine { Grows.refl with
    assemblies := Nat.le_succ _
    built := fun a ha hb => ?_ }
  unfold entriesOf
  rw [show (k.found scope b).assemblies.cell a = _ from k.assemblies.cell_alloc_of_lt _ ha]
  exact ⟨hb, rfl, id⟩

/-- **Whatever happens, nothing is taken back.** -/
theorem Move.grows (h : Move spec k k') : Grows k k' := by
  cases h with
  | idle => exact .refl
  | assembly a f hentries hbuilding hready =>
    exact .assembly a hentries hbuilding (fun hx => (hready hx).1)
  | found scope b => exact .found scope b
  | borrow a p r _ hb =>
    have hlend : Grows k (k.record r Record.lend) := .record_change r (fun _ => ⟨.inl rfl, id, id⟩)
    exact hlend.trans (.append (k := k.record r Record.lend) hb _)
  | delegate a p r _ hb =>
    have hpass : Grows k (k.record r (·.passTo a)) :=
      .record_change r (fun _ => ⟨.inr hb, id, id⟩)
    exact hpass.trans (.append (k := k.record r (·.passTo a)) hb _)
  | own a p check x _ hb =>
    have halloc : Grows k { k with records := k.records.alloc x } := .alloc_record x
    exact halloc.trans (.append (k := { k with records := k.records.alloc x }) hb _)
  | record r f hf => exact .record_change r (fun x => ⟨.inl (hf x).1, (hf x).2.2⟩)
  | grant a e =>
    have huse : Grows k ((k.record (k.recordOf e) Record.lend).entry e Entry.use) :=
      .use _ e (fun _ => ⟨rfl, rfl, rfl⟩) (fun _ => ⟨rfl, rfl, id⟩)
    exact { huse with }
  | retain | release => exact { Grows.refl with }
  | free n =>
    have hrel : Grows k (k.release n) := { Grows.refl with }
    exact hrel.trans (.use _ _ (fun _ => ⟨rfl, rfl, rfl⟩) (fun _ => ⟨rfl, rfl, id⟩))
  | giveBack e =>
    exact .use _ e (fun _ => ⟨rfl, rfl, rfl⟩) (fun _ => ⟨rfl, rfl, nofun⟩)

/-- A core in which a record has its owner, and its owner lets nobody in, is
closed when nobody uses it. -/
theorem Closed.of_grows (hg : Grows k k') (ht : Titles spec k none) (hr : r < k.records.next)
    (hc : Closed k r) (hown : k'.owner r = k.owner r) (hb : (k'.records.cell r).borrowers = 0) :
    Closed k' r ∧ k'.owner r = k.owner r := by
  have hlt := ht.owner_lt hr
  obtain ⟨hbuilt, -, hready⟩ := hg.built _ hlt hc.building
  refine ⟨⟨?_, hb, ?_, ?_⟩, hown⟩
  · exact eq_false_of_ne_true (mt (hg.admitting r hr) (ne_true_of_eq_false hc.admitting))
  · rw [hown]
    exact eq_false_of_ne_true (mt hready (ne_true_of_eq_false hc.ready))
  · rw [hown]
    exact hbuilt

/-- **A closed record stays closed**, and with its owner. -/
theorem Move.closed (h : Move spec k k') (hk : Books k) (ht : Titles spec k none)
    (hr : r < k.records.next) (hc : Closed k r) : Closed k' r ∧ k'.owner r = k.owner r := by
  have hunused := hk.unused hr hc.borrowers
  -- A record that is touched by a borrower is another one.
  have hother (r' : ℕ) (f : Record ε → Record ε) (hk' : k'.records = k.records.modify r' f)
      (hne : r' ≠ r) : Closed k' r ∧ k'.owner r = k.owner r := by
    have hcell : k'.records.cell r = k.records.cell r :=
      hk' ▸ k.records.cell_modify_of_ne f hne.symm
    refine hc.of_grows h.grows ht hr (congrArg Record.owner hcell) ?_
    rw [hcell]
    exact hc.borrowers
  have hnot : ∀ {r' : ℕ}, (k.records.cell r').admitting = true → r' ≠ r := by
    rintro r' hadm rfl
    exact nomatch hc.admitting.symm.trans hadm
  have hg := h.grows
  cases h with
  | idle => exact ⟨hc, rfl⟩
  | assembly | found | retain | release => exact hc.of_grows hg ht hr rfl hc.borrowers
  | borrow a p r' _ _ _ _ hadm => exact hother _ _ rfl (hnot hadm)
  | delegate a p r' _ _ _ _ hadm => exact hother _ (·.passTo a) rfl (hnot hadm)
  | own a p check x =>
    have hcell : (k.records.alloc x).cell r = k.records.cell r := k.records.cell_alloc_of_lt x hr
    refine hc.of_grows hg ht hr (congrArg Record.owner hcell) ?_
    exact (congrArg Record.borrowers hcell).trans hc.borrowers
  | record r' f hf =>
    refine hc.of_grows hg ht hr ?_ ?_
    · exact k.records.cell_modify_proj r' r (fun x => (hf x).1)
    · exact (k.records.cell_modify_proj r' r (fun x => (hf x).2.1)).trans
        hc.borrowers
  | grant a e bytes limit he hready hheld =>
    have hne : k.recordOf e ≠ r := by
      obtain hl | hown := hheld
      · exact hunused.1 e he hl
      · rintro rfl
        rw [← hown] at hready
        exact nomatch hc.ready.symm.trans hready
    exact hother _ _ rfl hne
  | free n m hn hr' =>
    have hlive := hk.tree.live_of_not_released hn hr'
    exact hother _ _ rfl (hunused.2 n hn hlive)
  | giveBack e he hl => exact hother _ _ rfl (hunused.1 e he hl)

end Core

end Composition
