import Fathomry.KafkaConsumer
import Fathomry.KafkaSession

/-!
# Commits of a session

A commit declares everything before an offset as done. It is safe if the
pages that were handed out from the cursor of a partition on are committed
one after the other, each starting where the one before it ended – and if
no request is sent once the fate of another is unknown, since the two might
arrive in either order. A request that is sent has passed the guard, and the
token was current then. It need not be any more when the request is sent:
callbacks may come in between.

Both come down to what an operation may believe (`Group.Fits`). While the
session is not closing and the revision stands, the partition an operation
has chosen is as the operation left it: nobody else hands out pages or moves
cursors. `Stepped` says what a step of a session can do, and each of its
cases keeps the belief of the operation at work.
-/

namespace Kafka

variable {ε : Type} {value : Settings} {topics : Topics}

namespace Group

variable {g g' : Group ε}

/-! ## What a step can do -/

/-- What an operation leaves alone when it only moves on. -/
structure Same (g g' : Group ε) : Prop where
  partitions : g'.partitions = g.partitions
  batches : g'.batches = g.batches
  revision : g'.revision = g.revision
  member : g'.member = g.member
  generation : g'.generation = g.generation
  closing : g'.closing = g.closing
  primary : g'.primary = g.primary

def Stage.silent : Stage ε → Bool
  | .idle | .entered _ | .begun | .leaving _ _ => true
  | _ => false

/-- A request has passed the guard, and there is no answer. -/
def Stage.inFlight : Stage ε → Option ℕ
  | .passed a | .sent a => some a
  | _ => none

def Stage.isFailing : Stage ε → Bool
  | .failing _ _ => true
  | _ => false

/-- **What a step of a session can do.** -/
inductive Stepped (value : Settings) (g : Group ε) : Event ε → Group ε → Prop
  /-- Something that runs beside operations. -/
  | beside (e : Event ε) (g' : Group ε) (hk : g.revision ≤ maxUint64 → Kept g g') :
      Stepped value g e g'
  /-- An operation begins, fails or ends. -/
  | quiet (e : Event ε) (g' : Group ε) (hs : Same g g') (hq : g'.stage.silent = true)
      (hf : g.stage.isFailing = false) : Stepped value g e g'
  | chosen (k : GroupKey) (turn : ℕ) (hs : g.stage = .begun) (hk : k ∈ g.partitions.keys)
      (hp : (g.partitions.cell k).pending = none) :
      Stepped value g .choose ({ g with roundRobin := turn }.goto
        (.chosen ⟨g.revision, g.member, g.generation⟩ (g.partitions.cell k).position
          (g.partitions.cell k).initialized))
  | initial (x : InitialReply ε) (snap : Snap) (position : Position) (offset : ℤ)
      (hs : g.stage = .chosen snap position false) :
      Stepped value g (.initial x) (g.goto (.selecting snap (position.at offset) .initial))
  | selected (snap : Snap) (position : Position) (why : Selection)
      (hs : g.stage = .selecting snap position why)
      (hc : g.currentLocked snap.revision position = true) :
      Stepped value g .select
        ((g.put position.key ⟨position, true, (g.partitions.cell position.key).pending⟩).goto
          (Selection.after snap position why))
  | checked (snap : Snap) (position : Position)
      (hs : g.stage = .chosen snap position true ∨ g.stage = .checking snap position) :
      Stepped value g .check (g.goto (.fetching snap position false))
  | fetched (snap : Snap) (position : Position) (again : Bool) (x : FetchReply ε) (page : Page)
      (hs : g.stage = .fetching snap position again) (hx : x.Sound position.offset)
      (hp : fetchPage value ⟨position, maxInt64⟩ x = (page, none)) :
      Stepped value g (.fetch x) (g.goto (.fetched snap position page))
  | unbound (snap : Snap) (position : Position) (x : FetchReply ε) (err : Err ε)
      (hs : g.stage = .fetching snap position false) :
      Stepped value g (.fetch x) (g.goto (.bounding snap position err))
  | reset (snap : Snap) (position : Position) (err : Err ε) (x : BoundsReply ε) (b : Page)
      (offset : ℤ) (hs : g.stage = .bounding snap position err)
      (hb : bounds position x = .ok b) (hout : b.excludes position.offset = true) :
      Stepped value g (.bound x) (g.goto (.selecting snap (position.at offset) (.reset b)))
  | issued (snap : Snap) (position : Position) (page : Page)
      (hs : g.stage = .fetched snap position page)
      (hc : g.currentLocked snap.revision position = true) :
      Stepped value g .issue
        { g.put position.key ⟨position, true, some g.batches.next⟩ with
          batches := g.batches.alloc ⟨page, tokenOf snap position page⟩
          stage := .leaving none (some g.batches.next) }
  | validated (a : ℕ) (hs : g.stage = .entered (.commit (.own a))) (hv : g.valid a = true) :
      Stepped value g .validate (g.goto (.validated a))
  | committing (a : ℕ) (hs : g.stage = .validated a) :
      Stepped value g (.begin none) (g.goto (.committing a))
  | submitting (a : ℕ) (hs : g.stage = .committing a) :
      Stepped value g (.identify none) (g.goto (.submitting a))
  | passed (a : ℕ) (ctx : Ctx ε) (r : CommitRequest) (hs : g.stage = .submitting a)
      (hg : g.guardError value a ctx r = none) :
      Stepped value g (.guard ctx r) (g.goto (.passed a))
  | sent (a : ℕ) (hs : g.stage.inFlight = some a) : Stepped value g .send (g.goto (.sent a))
  | confirmed (a : ℕ) (ctx : Ctx ε) (r : Except (Native ε) (Option (CommitResponse ε)))
      (hs : g.stage = .sent a) (hr : commitError (g.token a) r = none) :
      Stepped value g (.reply ctx r) (g.goto (.confirmed a))
  | failing (a : ℕ) (ctx : Ctx ε) (r : Except (Native ε) (Option (CommitResponse ε)))
      (err : Err ε) (hs : g.stage.inFlight = some a) :
      Stepped value g (.reply ctx r) (g.goto (.failing a err))
  | confirm (a : ℕ) (hs : g.stage = .confirmed a)
      (hc : g.currentLocked (g.token a).revision (g.token a).start = true) :
      Stepped value g .confirm
        ((g.put (g.token a).start.key
          ⟨(g.partitions.cell (g.token a).start.key).position.at (g.token a).next,
            (g.partitions.cell (g.token a).start.key).initialized, none⟩).goto (.leaving none none))
  | failed (a : ℕ) (err : Err ε) (hs : g.stage = .failing a err) :
      Stepped value g .fail ((g.failLocked err).quit err)

theorem Same.goto (stage : Stage ε) : Same g (g.goto stage) := ⟨rfl, rfl, rfl, rfl, rfl, rfl, rfl⟩

variable {stage : Stage ε}

theorem Stepped.quit (hs : g.stage = stage) (hf : stage.isFailing = false) (e : Event ε)
    (err : Err ε) : Stepped value g e (g.quit err) :=
  .quiet e _ (.goto _) rfl (hs ▸ hf)

variable {k : GroupKey}

/-- The partition `next` chooses has no page out. -/
theorem pending_of_choose {order : List GroupKey} {n turn turn' : ℕ}
    (h : g.choose order n turn = (some k, turn')) :
    k ∈ order ∧ (g.partitions.cell k).pending = none := by
  induction n generalizing turn with
  | zero => exact nomatch (Prod.mk.inj h).1
  | succ n ih =>
    unfold choose at h
    dsimp only at h
    split at h
    · exact nomatch (Prod.mk.inj h).1
    next k' hk' =>
      split_ifs at h with hnone
      · obtain ⟨hk, -⟩ := Prod.mk.inj h
        cases hk
        exact ⟨List.mem_of_getElem? hk', Option.isNone_iff_eq_none.mp hnone⟩
      · exact ih h

theorem stepped_chosen (hs : g.stage = .begun) : Stepped value g .choose g.chosen := by
  unfold Group.chosen
  split_ifs
  · exact .quit hs rfl _ _
  split
  · exact .quiet _ _ ⟨rfl, rfl, rfl, rfl, rfl, rfl, rfl⟩ rfl (hs ▸ rfl)
  · next k turn hch =>
    obtain ⟨hk, hp⟩ := pending_of_choose hch
    exact .chosen k turn hs ((List.mem_insertionSort _).mp hk) hp

variable {snap : Snap} {position : Position}

theorem stepped_fetch {again : Bool} {x : FetchReply ε}
    (hs : g.stage = .fetching snap position again) (hx : x.Sound position.offset) :
    Stepped value g (.fetch x) (g.fetch value snap position again x) := by
  unfold fetch
  split
  · next page hp => exact .fetched snap position again x page hs hx hp
  · next page err _ =>
    split_ifs with hagain
    · obtain ⟨rfl, -⟩ := hagain
      exact .unbound snap position x err hs
    · exact .quit hs rfl _ _

theorem stepped_bound {err : Err ε} {x : BoundsReply ε}
    (hs : g.stage = .bounding snap position err) :
    Stepped value g (.bound x) (g.bound value snap position err x) := by
  unfold bound
  split
  · exact .quit hs rfl _ _
  · next b hb =>
    split_ifs with hout
    · split
      · exact .quit hs rfl _ _
      · next offset _ => exact .reset snap position err x b offset hs hb hout
    · exact .quit hs rfl _ _

theorem stepped_check
    (hs : g.stage = .chosen snap position true ∨ g.stage = .checking snap position) :
    Stepped value g .check (g.check snap position) := by
  unfold check
  split_ifs
  · exact hs.elim (.quit · rfl _ _) (.quit · rfl _ _)
  · exact .checked snap position hs

variable {e : Event ε}

theorem stepped (h : g.step value topics e = some g') : Stepped value g e g' := by
  revert h
  fun_cases Group.step
  all_goals rintro ⟨⟩
  -- what runs beside operations
  · exact .beside _ _ (fun hb => kept_assigned hb _ _ _)
  · exact .beside _ _ (fun hb => kept_revoked hb _)
  · exact .beside _ _ (fun hb => .fail hb rfl rfl rfl (.empty _))
  · exact .beside _ _ (fun hb => kept_onGroupManageError hb _)
  · exact .beside _ _ (fun hb => kept_offsetsFetched hb _ _)
  · exact .beside _ _ (fun hb => .of_eq hb rfl rfl (fun _ => rfl) id rfl rfl rfl rfl)
  · exact .beside _ _ (fun hb => .of_eq hb rfl rfl id id rfl rfl rfl rfl)
  · exact .beside _ _ (fun hb => .of_eq hb rfl rfl (fun _ => rfl) id rfl rfl rfl rfl)
  · exact .beside _ _ kept_finish
  · unfold Group.enter
    split_ifs with hbusy
    · exact .beside _ _ (fun hb => .of_eq hb rfl rfl id id rfl rfl rfl rfl)
    · refine .quiet _ _ (.goto _) rfl ?_
      cases hs : g.stage with
      | failing => exact absurd (.inr (.inl (by unfold active; rw [hs]))) hbusy
      | _ => rfl
  -- an operation begins
  · next hs => exact .quiet _ _ (.goto _) rfl (hs ▸ rfl)
  iterate 2 next hs => exact .quit hs rfl _ _
  · next a hs => exact .committing a hs
  · next hs => exact .quit hs rfl _ _
  iterate 3 next hs => exact .quiet _ _ (.goto _) rfl (hs ▸ rfl)
  -- `next`
  · next hs => exact stepped_chosen hs
  · next x snap position hs =>
    unfold Group.initial
    split
    · exact .quit hs rfl _ _
    · next offset _ => exact .initial x snap position offset hs
  · next snap position why hs =>
    unfold selectOffset
    split_ifs with hc
    · exact .quit hs rfl _ _
    · exact .selected snap position why hs (eq_true_of_ne_false hc)
  · next hs => exact stepped_check (.inl hs)
  · next hs => exact stepped_check (.inr hs)
  · next hs hx => exact stepped_fetch hs hx
  · next hs => exact stepped_bound hs
  · next snap position page hs =>
    unfold issue
    split_ifs with hc
    · exact .quit hs rfl _ _
    · exact .issued snap position page hs (eq_true_of_ne_false hc)
  -- `commit`
  · next hs =>
    unfold Group.validate
    split
    · split_ifs with hv
      · exact .validated _ hs hv
      · exact .quit hs rfl _ _
    · exact .quit hs rfl _ _
  · next a hs => exact .submitting a hs
  · next hs => exact .quit hs rfl _ _
  · next ctx r a hs =>
    unfold Group.guard
    split
    · exact .quit hs rfl _ _
    · next hg => exact .passed a ctx r hs hg
  · next hs => exact .quit hs rfl _ _
  iterate 2 next a hs => exact .sent a (hs ▸ rfl)
  · next ctx a r hs =>
    unfold Group.reply
    split
    · exact .failing a ctx r _ (hs ▸ rfl)
    · next hr => exact .confirmed a ctx r hs hr
  · next ctx a err hs => exact .failing a ctx _ _ (hs ▸ rfl)
  · next a hs =>
    unfold Group.confirm
    split_ifs with hc
    · exact .confirm a hs hc
    · exact .quiet _ _ (.goto _) rfl (hs ▸ rfl)
  · next a err hs => exact .failed a err hs
  · next hs => exact .quiet _ _ (.goto _) rfl (hs ▸ rfl)

/-! ## What an operation believes -/

/-- Nothing has happened to a partition since a revision. -/
structure Fresh (g : Group ε) (revision : ℕ) (k : GroupKey) : Prop where
  open_ : g.closing = false
  revision : g.revision = revision
  assigned : k ∈ g.partitions.keys

/-- **The belief of `next`** about the partition of a position. -/
structure Owns (g : Group ε) (snap : Snap) (position : Position)
    (belief : GroupPartition → Prop) : Prop where
  revision_le : snap.revision ≤ g.revision
  membership : g.closing = false → g.revision = snap.revision →
    snap.member = g.member ∧ snap.generation = g.generation
  belief : g.Fresh snap.revision position.key → belief (g.partitions.cell position.key)

/-- **A token that is current**: the one of its partition, issued under the
revision, the member and the generation of the moment. -/
structure Current (g : Group ε) (a : ℕ) : Prop where
  assigned : (g.token a).start.key ∈ g.partitions.keys
  pending : (g.partitions.cell (g.token a).start.key).pending = some a
  revision : (g.token a).revision = g.revision
  member : (g.token a).member = g.member
  generation : (g.token a).generation = g.generation

/-- **The belief of `commit`**: the token is current, unless somebody has been
here. -/
structure Holds (g : Group ε) (a : ℕ) : Prop where
  lt : a < g.batches.next
  current : g.closing = false → (g.token a).revision = g.revision → g.Current a

/-- A page has been read at a position. -/
def Reads (value : Settings) (position : Position) (page : Page) (ε : Type) : Prop :=
  ∃ x : FetchReply ε, x.Sound position.offset
    ∧ fetchPage value ⟨position, maxInt64⟩ x = (page, none)

/-- **What the operation at work may rely on.** -/
def Fits (value : Settings) (g : Group ε) : Stage ε → Prop
  | .chosen snap position initialized => g.Owns snap position
      (fun p => p.position = position ∧ p.initialized = initialized ∧ p.pending = none)
  | .selecting snap position .initial => g.Owns snap position
      (fun p => position = p.position.at position.offset ∧ p.initialized = false ∧ p.pending = none)
  | .selecting snap position (.reset b) => g.Owns snap position
      (fun p => position = p.position.at position.offset
        ∧ b.excludes p.position.offset = true ∧ p.pending = none)
  | .checking snap position | .fetching snap position _ | .bounding snap position _ =>
      g.Owns snap position (fun p => p.position = position ∧ p.pending = none)
  | .fetched snap position page =>
      g.Owns snap position (fun p => p.position = position ∧ p.pending = none)
        ∧ Reads value position page ε
  | .validated a | .committing a | .submitting a | .passed a | .sent a | .confirmed a
  | .failing a _ => g.Holds a
  | _ => True

/-- **What is true of a session**, apart from the operation at work: a token
starts at the cursor of its partition, and its page was read there. -/
structure Base (value : Settings) (g : Group ε) : Prop where
  bound : g.revision ≤ maxUint64
  keyed : ∀ k ∈ g.partitions.keys, (g.partitions.cell k).position.key = k
  pending : ∀ k ∈ g.partitions.keys, ∀ a, (g.partitions.cell k).pending = some a →
    a < g.batches.next ∧ (g.token a).start = (g.partitions.cell k).position
  token : ∀ a < g.batches.next, (g.token a).revision ≤ g.revision
    ∧ (g.token a).next = (g.batches.cell a).page.next
    ∧ Reads value (g.token a).start (g.batches.cell a).page ε

/-- **What is true of a session.** -/
structure Inv (value : Settings) (g : Group ε) : Prop extends Base value g where
  fits : g.Fits value g.stage

/-! ## Beliefs last -/

theorem fresh_of_current {revision : ℕ} (h : g.currentLocked revision position = true) :
    g.Fresh revision position.key := by
  unfold currentLocked at h
  simp only [Bool.and_eq_true, Bool.not_eq_true', decide_eq_true_eq] at h
  exact ⟨h.1.1.1.1, h.1.2, h.2⟩

theorem token_of_batches (h : g'.batches = g.batches) (a : ℕ) : g'.token a = g.token a := by
  unfold token
  rw [h]

theorem Kept.open_of (hk : Kept g g') (hopen : g'.closing = false) : g.closing = false :=
  eq_false_of_ne_true (fun hc => nomatch hopen.symm.trans (hk.closing hc))

/-- **As long as the revision stands nothing has happened.** -/
theorem Fresh.of_kept (hk : Kept g g') {revision : ℕ} (hf : g'.Fresh revision k)
    (hle : revision ≤ g.revision) :
    g.Fresh revision k ∧ g'.partitions = g.partitions ∧ g'.member = g.member
      ∧ g'.generation = g.generation := by
  have hsame : g'.revision = g.revision := (hf.revision.le.trans hle).antisymm hk.revision
  obtain ⟨hparts, hmember, hgen⟩ := hk.still hf.open_ hsame
  exact ⟨⟨hk.open_of hf.open_, hsame.symm.trans hf.revision, hparts ▸ hf.assigned⟩, hparts,
    hmember, hgen⟩

variable {belief : GroupPartition → Prop}

theorem Owns.kept (h : g.Owns snap position belief) (hk : Kept g g') :
    g'.Owns snap position belief := by
  refine ⟨h.revision_le.trans hk.revision, fun hopen hrev => ?_, fun hf => ?_⟩
  · have hsame : g'.revision = g.revision :=
      (hrev.le.trans h.revision_le).antisymm hk.revision
    obtain ⟨-, hmember, hgen⟩ := hk.still hopen hsame
    rw [hmember, hgen]
    exact h.membership (hk.open_of hopen) (hsame.symm.trans hrev)
  · obtain ⟨hf', hparts, -⟩ := hf.of_kept hk h.revision_le
    rw [hparts]
    exact h.belief hf'

variable {a : ℕ}

theorem Holds.kept (h : g.Holds a) (hk : Kept g g') (hle : (g.token a).revision ≤ g.revision) :
    g'.Holds a := by
  have htoken := token_of_batches hk.batches a
  refine ⟨hk.batches ▸ h.lt, fun hopen hrev => ?_⟩
  rw [htoken] at hrev
  have hsame : g'.revision = g.revision := (hrev.symm.le.trans hle).antisymm hk.revision
  obtain ⟨hparts, hmember, hgen⟩ := hk.still hopen hsame
  have hc := h.current (hk.open_of hopen) (hrev.trans hsame)
  refine ⟨?_, ?_, htoken ▸ hrev, ?_, ?_⟩
  · rw [htoken, hparts]
    exact hc.assigned
  · rw [htoken, hparts]
    exact hc.pending
  · rw [htoken, hmember]
    exact hc.member
  · rw [htoken, hgen]
    exact hc.generation

theorem Fits.kept (h : Base value g) (hk : Kept g g') (hs : g.Fits value stage) :
    g'.Fits value stage := by
  have hholds {a : ℕ} (ha : g.Holds a) : g'.Holds a := ha.kept hk (h.token a ha.lt).1
  cases stage with
  | selecting snap position why =>
    cases why
    all_goals exact Owns.kept hs hk
  | chosen | checking | fetching | bounding => exact Owns.kept hs hk
  | fetched => exact ⟨Owns.kept hs.1 hk, hs.2⟩
  | validated | committing | submitting | passed | sent | confirmed | failing => exact hholds hs
  | idle | entered | begun | leaving => trivial

theorem Base.kept (h : Base value g) (hk : Kept g g') : Base value g' := by
  refine ⟨hk.bound, fun k hm => ?_, fun k hm a ha => ?_, fun a ha => ?_⟩
  · obtain ⟨hold, hpos, -⟩ | ⟨-, hfresh, -⟩ := hk.partitions k hm
    · rw [hpos]
      exact h.keyed k hold
    · exact hfresh
  · rw [token_of_batches hk.batches, hk.batches]
    obtain ⟨hold, hpos, hsame | hnone⟩ | ⟨-, -, hnone⟩ := hk.partitions k hm
    · rw [hpos]
      exact h.pending k hold a (hsame.symm.trans ha)
    all_goals exact nomatch hnone.symm.trans ha
  · rw [hk.batches] at ha
    rw [token_of_batches hk.batches, hk.batches]
    obtain ⟨hle, hrest⟩ := h.token a ha
    exact ⟨hle.trans hk.revision, hrest⟩

theorem Base.same (h : Base value g) (hs : Same g g') : Base value g' := by
  obtain ⟨_, _, _, _⟩ := g'
  cases hs.partitions
  cases hs.batches
  cases hs.revision
  exact { h with }

variable {p : GroupPartition}

theorem Base.put (h : Base value g) (hkey : p.position.key = k)
    (hp : ∀ a, p.pending = some a → a < g.batches.next ∧ (g.token a).start = p.position)
    (stage : Stage ε) : Base value ((g.put k p).goto stage) := by
  refine ⟨h.bound, fun k' hk => ?_, fun k' hk => ?_, h.token⟩
  · show ((g.partitions.insert k p).cell k').position.key = k'
    rw [Partitions.cell_insert]
    split_ifs with heq
    · exact hkey.trans heq.symm
    · exact h.keyed k' ((Partitions.mem_insert.mp hk).resolve_left heq)
  · show ∀ a, ((g.partitions.insert k p).cell k').pending = some a → _
      ∧ (g.token a).start = ((g.partitions.insert k p).cell k').position
    rw [Partitions.cell_insert]
    split_ifs with heq
    · exact hp
    · exact h.pending k' ((Partitions.mem_insert.mp hk).resolve_left heq)

theorem Base.alloc (h : Base value g) {x : GroupBatch} (hx : x.token.revision ≤ g.revision
    ∧ x.token.next = x.page.next ∧ Reads value x.token.start x.page ε) :
    Base value { g with batches := g.batches.alloc x } := by
  refine ⟨h.bound, h.keyed, fun k hk a ha => ?_, g.batches.forall_alloc
    (Q := fun _ x => x.token.revision ≤ g.revision ∧ x.token.next = x.page.next
      ∧ Reads value x.token.start x.page ε) h.token hx⟩
  obtain ⟨hlt, hstart⟩ := h.pending k hk a ha
  refine ⟨Nat.lt_succ_of_lt hlt, ?_⟩
  show ((g.batches.alloc x).cell a).token.start = _
  rw [Heap.cell_alloc_of_lt _ _ hlt]
  exact hstart

/-! ## Every step keeps them -/

/-- What an operation believes of a partition it has just written. -/
theorem Owns.put {belief' : GroupPartition → Prop} (h : g.Owns snap position belief)
    (hp : belief' p) (stage : Stage ε) :
    ((g.put position.key p).goto stage).Owns snap position belief' := by
  refine ⟨h.revision_le, h.membership, fun _ => ?_⟩
  show belief' ((g.partitions.insert position.key p).cell position.key)
  rw [Partitions.cell_insert, if_pos rfl]
  exact hp

/-- What an operation believes of a partition it has only looked at. -/
theorem Owns.goto (h : g.Owns snap position belief) {position' : Position}
    (hkey : position'.key = position.key) {belief' : GroupPartition → Prop}
    (hb : ∀ p, belief p → belief' p) (stage : Stage ε) :
    (g.goto stage).Owns snap position' belief' := by
  refine ⟨h.revision_le, h.membership, fun hf => ?_⟩
  show belief' (g.partitions.cell position'.key)
  rw [hkey] at hf ⊢
  exact hb _ (h.belief ⟨hf.open_, hf.revision, hf.assigned⟩)

theorem Inv.goto (h : Inv value g) (hs : (g.goto stage).Fits value stage) :
    Inv value (g.goto stage) := ⟨h.toBase.same (.goto stage), hs⟩

theorem fits_of_silent (h : stage.silent = true) : g.Fits value stage := by
  cases stage with
  | idle | entered | begun | leaving => trivial
  | _ => cases h

theorem current_of_valid (h : g.valid a = true) : g.closing = false ∧ g.Current a := by
  unfold valid at h
  simp only [Bool.and_eq_true, decide_eq_true_eq] at h
  have hf := fresh_of_current h.1.1.1
  exact ⟨hf.open_, hf.assigned, h.1.1.2, hf.revision.symm, h.1.2, h.2⟩

theorem Fits.holds (h : g.Fits value stage) (hs : stage.inFlight = some a) : g.Holds a := by
  cases stage with
  | passed | sent =>
    cases hs
    exact h
  | _ => cases hs

/-- **Every step keeps what is true of a session.** -/
theorem Inv.step (h : Inv value g) (hl : g.step value topics e = some g') : Inv value g' := by
  have hfits := h.fits
  cases stepped hl with
  | beside e g' hk =>
    have hk := hk h.bound
    refine ⟨h.toBase.kept hk, ?_⟩
    rw [hk.stage]
    exact hfits.kept h.toBase hk
  | quiet e g' hs hq => exact ⟨h.toBase.same hs, fits_of_silent hq⟩
  | chosen k turn hs hk hp =>
    refine ⟨h.toBase.same ⟨rfl, rfl, rfl, rfl, rfl, rfl, rfl⟩, le_rfl, fun _ _ => ⟨rfl, rfl⟩,
      fun _ => ?_⟩
    show (g.partitions.cell (g.partitions.cell k).position.key).position = _ ∧ _
    rw [h.keyed k hk]
    exact ⟨rfl, rfl, hp⟩
  | initial x snap position offset hs =>
    rw [hs] at hfits
    refine h.goto (Owns.goto hfits (show (position.at offset).key = _ from rfl) (fun p hp => ?_) _)
    rw [hp.1]
    exact ⟨rfl, hp.2⟩
  | selected snap position why hs hc =>
    rw [hs] at hfits
    cases why
    all_goals
      obtain ⟨-, -, hnone⟩ := hfits.belief (fresh_of_current hc)
      refine ⟨h.toBase.put (p := ⟨position, true, _⟩) rfl
        (fun a ha => nomatch hnone.symm.trans ha) _, ?_⟩
      exact Owns.put hfits ⟨rfl, hnone⟩ _
  | checked snap position hs =>
    obtain hs | hs := hs
    · rw [hs] at hfits
      exact h.goto (Owns.goto hfits rfl (fun p hp => ⟨hp.1, hp.2.2⟩) _)
    · rw [hs] at hfits
      exact h.goto (Owns.goto hfits rfl (fun p hp => hp) _)
  | fetched snap position again x page hs hx hp =>
    rw [hs] at hfits
    exact h.goto ⟨Owns.goto hfits rfl (fun p hp => hp) _, x, hx, hp⟩
  | unbound snap position x err hs =>
    rw [hs] at hfits
    exact h.goto (Owns.goto hfits rfl (fun p hp => hp) _)
  | reset snap position err x b offset hs hb hout =>
    rw [hs] at hfits
    refine h.goto (Owns.goto hfits (show (position.at offset).key = _ from rfl) (fun p hp => ?_) _)
    rw [hp.1]
    exact ⟨rfl, hout, hp.2⟩
  | issued snap position page hs =>
    rw [hs] at hfits
    have hb := h.toBase.alloc (x := ⟨page, tokenOf snap position page⟩)
      ⟨hfits.1.revision_le, rfl, hfits.2⟩
    refine ⟨hb.put (p := ⟨position, true, some g.batches.next⟩) rfl (fun a ha => ?_) _, trivial⟩
    cases ha
    refine ⟨Nat.lt_add_one _, ?_⟩
    show ((g.batches.alloc _).cell g.batches.next).token.start = position
    rw [Heap.cell_alloc_self]
    rfl
  | validated a hs hv =>
    have hc := (current_of_valid hv).2
    exact h.goto ⟨(h.pending _ hc.assigned a hc.pending).1, fun _ _ => { hc with }⟩
  | committing a hs | submitting a hs | passed a _ _ hs | confirmed a _ _ hs =>
    rw [hs] at hfits
    exact h.goto ⟨hfits.lt, fun ho hr => { hfits.current ho hr with }⟩
  | sent a hs | failing a _ _ _ hs =>
    have hholds := hfits.holds hs
    exact h.goto ⟨hholds.lt, fun ho hr => { hholds.current ho hr with }⟩
  | confirm a hs hc =>
    have hkey := h.keyed _ (fresh_of_current hc).assigned
    exact ⟨h.toBase.put (p := ⟨Position.at _ (g.token a).next, _, none⟩) hkey nofun _, trivial⟩
  | failed a err =>
    have hk : Kept g (g.failLocked err) := .fail h.bound rfl rfl rfl (.refl _)
    exact ⟨(h.toBase.kept hk).same (.goto _), trivial⟩

variable {built : Option (Err ε)} {tr : List (Event ε)}

theorem inv_init (built : Option (Err ε)) : Inv value (init built) := by
  have hnew : Inv value (new : Group ε) :=
    ⟨⟨Nat.zero_le _, nofun, nofun, nofun⟩, trivial⟩
  cases built with
  | none => exact hnew
  | some err =>
    have hk : Kept (new : Group ε) ((new : Group ε).failLocked err) :=
      .fail hnew.bound rfl rfl rfl (.refl _)
    exact ⟨hnew.toBase.kept hk, hk.stage ▸ trivial⟩

theorem stage_init (built : Option (Err ε)) : (init built).stage = .idle := by
  cases built with
  | none => rfl
  | some => exact (revise_eq _).1.2.2

/-- **Every reachable session** is as it should be. -/
theorem inv_of_run (hr : (machine value topics built).Run tr g) : Inv value g :=
  hr.invariant (I := fun _ g => Inv value g) (inv_init built) (fun _ h => h.step)

/-! ## Requests and answers -/

/-- The token a step sends a request for. -/
def sends (g : Group ε) : Event ε → List ℕ
  | .send => g.stage.inFlight.toList
  | _ => []

/-- The token a step brings the answer for, and whether it is a
confirmation. -/
def answers (g : Group ε) : Event ε → List (ℕ × Bool)
  | .reply _ r => g.stage.inFlight.toList.map (fun a => (a, (commitError (g.token a) r).isNone))
  | _ => []

def requests (value : Settings) (topics : Topics) (built : Option (Err ε))
    (tr : List (Event ε)) : List ℕ :=
  (machine value topics built).outputs sends (init built) tr

def replies (value : Settings) (topics : Topics) (built : Option (Err ε))
    (tr : List (Event ε)) : List (ℕ × Bool) :=
  (machine value topics built).outputs answers (init built) tr

/-- **What the guard has seen** when it lets a request pass. -/
theorem current_of_guard {ctx : Ctx ε} {r : CommitRequest}
    (hg : g.guardError value a ctx r = none) :
    (g.closing = false ∧ g.Current a) ∧ r.matches value (g.token a) = true := by
  unfold guardError at hg
  split_ifs at hg with hvalid hctx hmatch
  exact ⟨current_of_valid (eq_true_of_ne_false hvalid), eq_true_of_ne_false hmatch⟩

/-- A current token starts at the cursor of its partition. -/
theorem Inv.cursor (h : Inv value g) (hc : g.Current a) :
    (g.partitions.cell (g.token a).start.key).position = (g.token a).start :=
  (h.pending _ hc.assigned a hc.pending).2.symm

/-- **A request that has passed the guard**: the token was current then, it
started at the cursor, and the request was the one it stands for. -/
def Guarded (value : Settings) (topics : Topics) (built : Option (Err ε)) (tr : List (Event ε))
    (g : Group ε) (a : ℕ) : Prop :=
  ∃ before ctx r after u, tr = before ++ .guard ctx r :: after
    ∧ (machine value topics built).Run before u ∧ u.token a = g.token a ∧ u.Current a
    ∧ (u.partitions.cell (u.token a).start.key).position = (u.token a).start
    ∧ r.matches value (u.token a) = true

theorem guarded_of_run (hr : (machine value topics built).Run tr g) :
    ∀ a, g.stage.inFlight = some a → Guarded value topics built tr g a := by
  refine hr.invariant (I := fun tr g => ∀ a, g.stage.inFlight = some a →
    Guarded value topics built tr g a) (fun a ha => ?_) (fun {tr g e g'} hrun ih hl a ha => ?_)
  · exact nomatch (congrArg Stage.inFlight (stage_init built)).symm.trans ha
  have h := inv_of_run hrun
  have hlater (hb : g'.batches = g.batches) (hs : g.stage.inFlight = some a) :
      Guarded value topics built (tr ++ [e]) g' a := by
    obtain ⟨before, ctx, r, after, u, rfl, hu, htoken, hguard⟩ := ih a hs
    exact ⟨before, ctx, r, after ++ [e], u, by simp, hu,
      htoken.trans (token_of_batches hb a).symm, hguard⟩
  cases stepped hl with
  | beside e g' hk =>
    have hk := hk h.bound
    exact hlater hk.batches (hk.stage ▸ ha)
  | quiet e g' hs hq =>
    cases hn : g'.stage with
    | passed | sent =>
      rw [hn] at hq
      cases hq
    | _ =>
      rw [hn] at ha
      cases ha
  | passed a' ctx r hs hg =>
    cases ha
    obtain ⟨⟨-, hc⟩, hmatch⟩ := current_of_guard hg
    exact ⟨tr, ctx, r, [], g, rfl, hrun, rfl, hc, h.cursor hc, hmatch⟩
  | sent a' hs =>
    cases ha
    exact hlater rfl hs
  | selected snap position why =>
    cases why
    all_goals cases ha
  | chosen | initial | checked | fetched | unbound | reset | issued | validated | committing
  | submitting | confirmed | failing | confirm | failed => cases ha

/-- **How a cursor moves.** -/
inductive Advanced (g : Group ε) (e : Event ε) (p p' : GroupPartition) : Prop
  | still (hp : p'.position = p.position)
  | initial (snap : Snap) (position : Position) (he : e = .select)
      (hs : g.stage = .selecting snap position .initial) (hi : p.initialized = false)
      (hp : p' = ⟨position, true, none⟩) (hpos : position = p.position.at position.offset)
  | reset (snap : Snap) (position : Position) (b : Page) (he : e = .select)
      (hs : g.stage = .selecting snap position (.reset b))
      (hout : b.excludes p.position.offset = true) (hp : p' = ⟨position, true, none⟩)
      (hpos : position = p.position.at position.offset)
  | commit (a : ℕ) (he : e = .confirm) (hs : g.stage = .confirmed a) (ha : p.pending = some a)
      (hstart : (g.token a).start = p.position)
      (hp : p'.position = p.position.at (g.token a).next ∧ p'.pending = none)

/-- The cursor of a partition that somebody else has written. -/
theorem Advanced.of_insert {k' : GroupKey} {p' q : GroupPartition}
    (hp : g.partitions.find k = some p) (hp' : (g.partitions.insert k' q).find k = some p')
    (hself : k = k' → Advanced g e p q) : Advanced g e p p' := by
  obtain ⟨hk, rfl⟩ := Partitions.find_eq_some.mp hp
  obtain ⟨-, rfl⟩ := Partitions.find_eq_some.mp hp'
  rw [Partitions.cell_insert]
  split_ifs with heq
  · exact hself heq
  · exact .still rfl

/-- **A partition that stays moves its cursor for a reason.** -/
theorem advanced_of_step (h : Inv value g) (hl : g.step value topics e = some g')
    {p' : GroupPartition} (hp : g.partitions.find k = some p)
    (hp' : g'.partitions.find k = some p') :
    Advanced g e p p' := by
  have hfits := h.fits
  have hsame (hparts : g'.partitions = g.partitions) : Advanced g e p p' := by
    rw [hparts] at hp'
    cases hp.symm.trans hp'
    exact .still rfl
  obtain ⟨hk, hcell⟩ := Partitions.find_eq_some.mp hp
  cases stepped hl with
  | beside e g' hkept =>
    obtain ⟨hk', rfl⟩ := Partitions.find_eq_some.mp hp'
    obtain ⟨-, hpos, -⟩ | ⟨hnew, -⟩ := (hkept h.bound).partitions k hk'
    · exact .still (hpos.trans (congrArg GroupPartition.position hcell))
    · exact absurd hk hnew
  | quiet e g' hs => exact hsame hs.partitions
  | selected snap position why hs hc =>
    rw [hs] at hfits
    refine .of_insert hp hp' (fun hkey => ?_)
    have hfresh := fresh_of_current hc
    subst hkey
    cases why with
    | initial =>
      obtain ⟨hpos, hi, hnone⟩ := hfits.belief hfresh
      rw [hcell] at hpos hi hnone ⊢
      rw [hnone]
      exact .initial snap position rfl hs hi rfl hpos
    | reset b =>
      obtain ⟨hpos, hout, hnone⟩ := hfits.belief hfresh
      rw [hcell] at hpos hout hnone ⊢
      rw [hnone]
      exact .reset snap position b rfl hs hout rfl hpos
  | issued snap position page hs hc =>
    rw [hs] at hfits
    refine .of_insert hp hp' (fun hkey => ?_)
    subst hkey
    have hpos := (hfits.1.belief (fresh_of_current hc)).1
    exact .still (hpos.symm.trans (congrArg GroupPartition.position hcell))
  | confirm a hs hc =>
    rw [hs] at hfits
    refine .of_insert hp hp' (fun hkey => ?_)
    subst hkey
    have hfresh := fresh_of_current hc
    have hpend := (hfits.current hfresh.open_ hfresh.revision.symm).pending
    have hstart := (h.pending _ hk a hpend).2
    rw [hcell] at hpend hstart ⊢
    exact .commit a rfl hs hpend hstart ⟨rfl, rfl⟩
  | failed => exact hsame (revise_eq _).1.1
  | chosen | initial | checked | fetched | unbound | reset | validated | committing | submitting
  | passed | sent | confirmed | failing => exact hsame rfl

/-! ## Answers that are no confirmation -/

/-- **The session has failed, or is about to**, and no request is in flight. -/
def Doomed (g : Group ε) : Prop :=
  g.stage.isFailing = true
    ∨ g.stage.inFlight = none ∧ g.closing = true ∧ g.primary.isSome = true

theorem inFlight_of_silent (h : stage.silent = true) : stage.inFlight = none := by
  cases stage with
  | passed | sent => cases h
  | _ => rfl

theorem Doomed.inFlight_eq_none (hd : Doomed g) : g.stage.inFlight = none := by
  obtain hf | ⟨hnone, -⟩ := hd
  · cases hs : g.stage with
    | failing => rfl
    | _ =>
      rw [hs] at hf
      cases hf
  · exact hnone

theorem Doomed.step (h : Inv value g) (hd : Doomed g) (hl : g.step value topics e = some g') :
    Doomed g' := by
  have hlive {stage : Stage ε} (hs : g.stage = stage) (hf : stage.isFailing = false) :
      g.stage.inFlight = none ∧ g.closing = true ∧ g.primary.isSome = true :=
    hd.resolve_left (fun hn => nomatch (hs ▸ hf : g.stage.isFailing = false).symm.trans hn)
  cases stepped hl with
  | beside e g' hk =>
    have hk := hk h.bound
    exact hd.imp (fun hf => hk.stage ▸ hf)
      (fun hc => ⟨hk.stage ▸ hc.1, hk.closing hc.2.1, hk.primary hc.2.2⟩)
  | quiet e g' hs hq hf =>
    have hc := hlive rfl hf
    exact .inr ⟨inFlight_of_silent hq, hs.closing.trans hc.2.1, hs.primary ▸ hc.2.2⟩
  | passed a ctx r hs hg =>
    -- the guard lets nothing pass in a session that is closing
    exact nomatch (current_of_guard hg).1.1.symm.trans (hlive hs rfl).2.1
  | failed a err => exact .inr ⟨rfl, failed_failLocked err⟩
  | failing => exact .inl rfl
  | sent a hs => exact nomatch hd.inFlight_eq_none.symm.trans hs
  | selected _ _ why hs =>
    refine .inr ⟨?_, (hlive hs rfl).2⟩
    cases why
    all_goals rfl
  | chosen _ _ hs | initial _ _ _ _ hs | fetched _ _ _ _ _ hs | unbound _ _ _ _ hs
  | reset _ _ _ _ _ _ hs | issued _ _ _ hs | validated _ hs | committing _ hs | submitting _ hs
  | confirmed _ _ _ hs | confirm _ hs =>
    exact .inr ⟨rfl, (hlive hs rfl).2⟩
  | checked _ _ hs =>
    obtain hs | hs := hs
    all_goals exact .inr ⟨rfl, (hlive hs rfl).2⟩

/-- A session that has failed, or is about to, sends nothing. -/
theorem Doomed.sends_eq_nil (hd : Doomed g) (e : Event ε) : g.sends e = [] := by
  cases e with
  | send => exact congrArg Option.toList hd.inFlight_eq_none
  | _ => rfl

theorem of_mem_answers {b : Bool} (h : (a, b) ∈ g.answers e) :
    g.stage.inFlight = some a ∧ ∃ ctx r, e = .reply ctx r
      ∧ b = (commitError (g.token a) r).isNone := by
  cases e with
  | reply ctx r =>
    obtain ⟨a', ha, heq⟩ := List.mem_map.mp h
    cases heq
    exact ⟨Option.mem_toList.mp ha, ctx, r, rfl, rfl⟩
  | _ => cases h

/-- **An answer that is no confirmation ends the session.** -/
theorem doomed_of_answer (ha : (a, false) ∈ g.answers e) (hl : g.step value topics e = some g') :
    Doomed g' := by
  obtain ⟨hs, ctx, r, rfl, hr⟩ := of_mem_answers ha
  have hreply : g.reply a ctx r = g' := by
    dsimp only [step] at hl
    split at hl
    -- the call may also end with an error before anything is sent
    iterate 2
      next hstage =>
        rw [hstage] at hs
        cases hs
        exact Option.some.inj hl
    · cases hl
  rw [← hreply]
  unfold Group.reply
  split
  · exact .inl rfl
  · next hnone =>
    rw [hnone] at hr
    cases hr

/-- **Where the operation at work is, by what has been sent and
answered.** -/
structure Logged (g : Group ε) (requests : List ℕ) (replies : List (ℕ × Bool)) : Prop where
  sent : ∀ a, g.stage = .sent a → a ∈ requests
  confirmed : ∀ a, g.stage = .confirmed a → a ∈ requests ∧ (a, true) ∈ replies
  doomed : ∀ a, (a, false) ∈ replies → Doomed g

theorem Logged.step {rs : List ℕ} {qs : List (ℕ × Bool)} (hlog : Logged g rs qs) (h : Inv value g)
    (hl : g.step value topics e = some g') :
    Logged g' (rs ++ g.sends e) (qs ++ g.answers e) := by
  have hkeep (hsent : ∀ a, g'.stage = .sent a → a ∈ rs ++ g.sends e)
      (hconf : ∀ a, g'.stage = .confirmed a →
        a ∈ rs ++ g.sends e ∧ (a, true) ∈ qs ++ g.answers e) :
      Logged g' (rs ++ g.sends e) (qs ++ g.answers e) := by
    refine ⟨hsent, hconf, fun a ha => ?_⟩
    obtain ha | ha := List.mem_append.mp ha
    · exact (hlog.doomed a ha).step h hl
    · exact doomed_of_answer ha hl
  cases stepped hl with
  | beside e g' hk =>
    rw [(hk h.bound).stage] at hkeep
    exact hkeep (fun a hs => List.mem_append_left _ (hlog.sent a hs))
      (fun a hs => (hlog.confirmed a hs).imp (List.mem_append_left _) (List.mem_append_left _))
  | quiet e g' hs hq =>
    refine hkeep (fun a hn => ?_) (fun a hn => ?_)
    all_goals
      rw [hn] at hq
      cases hq
  | sent a hs =>
    refine hkeep (fun a' hn => ?_) (fun a' => (nomatch ·))
    cases hn
    exact List.mem_append_right _ (Option.mem_toList.mpr hs)
  | confirmed a ctx r hs hr =>
    refine hkeep (fun a' => (nomatch ·)) (fun a' hn => ?_)
    cases hn
    refine ⟨List.mem_append_left _ (hlog.sent a hs), List.mem_append_right _ ?_⟩
    simp only [answers, hs, hr, Stage.inFlight, Option.toList_some, List.map_singleton,
      Option.isNone_none, List.mem_singleton]
  | selected snap position why =>
    cases why
    all_goals exact hkeep (fun a => (nomatch ·)) (fun a => (nomatch ·))
  | chosen | initial | checked | fetched | unbound | reset | issued | validated | committing
  | submitting | passed | failing | confirm | failed =>
    exact hkeep (fun a => (nomatch ·)) (fun a => (nomatch ·))

theorem logged_of_run (hr : (machine value topics built).Run tr g) :
    Logged g (requests value topics built tr) (replies value topics built tr) := by
  refine hr.invariant (I := fun tr g => Logged g (requests value topics built tr)
    (replies value topics built tr)) ?_ (fun hrun hlog hl => ?_)
  · refine ⟨fun a hn => ?_, fun a hn => ?_, nofun⟩
    all_goals exact nomatch (stage_init built).symm.trans hn
  · rw [show requests value topics built (_ ++ [_]) = _ from hrun.outputs_concat _,
      show replies value topics built (_ ++ [_]) = _ from hrun.outputs_concat _]
    exact hlog.step (inv_of_run hrun) hl

/-! ## What a session guarantees -/

/-- **Commits are safe.** Two valid tokens of one partition are one token. A
request is sent only after the guard has seen its token as the one of its
partition, issued under the revision, the member and the generation of that
moment, and starting at the cursor; and when it is sent this is still so,
unless the session is closing or has another revision. The page of a token is
the visible records from its start on up to the offset that is committed. The
cursor of a partition that stays moves when it is selected for the first time,
when it is out of bounds, or – to the end of the page that started at it – when
the commit of that page has been sent and confirmed. And after an answer that
is no confirmation the session has failed or is about to, and nothing is ever
sent again. -/
theorem commit_safe (hr : (machine value topics built).Run tr g) :
    (∀ a b, g.valid a = true → g.valid b = true →
      (g.token a).start.key = (g.token b).start.key → a = b)
    ∧ (∀ e, ∀ a ∈ g.sends e, Guarded value topics built tr g a
      ∧ (g.closing = true ∨ (g.token a).revision ≠ g.revision ∨ g.Current a
        ∧ (g.partitions.cell (g.token a).start.key).position = (g.token a).start))
    ∧ (∀ a < g.batches.next, (g.token a).next = (g.batches.cell a).page.next
      ∧ ∃ x : FetchReply ε, x.Sound (g.token a).start.offset
        ∧ (g.batches.cell a).page.Covers value ⟨(g.token a).start, maxInt64⟩ x.records)
    ∧ (∀ e g', g.step value topics e = some g' → ∀ k p p', g.partitions.find k = some p →
      g'.partitions.find k = some p' → Advanced g e p p')
    ∧ (∀ a, g.stage = .confirmed a →
      a ∈ requests value topics built tr ∧ (a, true) ∈ replies value topics built tr)
    ∧ ∀ a, (a, false) ∈ replies value topics built tr → Doomed g
      ∧ ∀ tr' g', (machine value topics built).exec g tr' = some g' →
        (machine value topics built).outputs sends g tr' = [] := by
  have h := inv_of_run hr
  have hlog := logged_of_run hr
  refine ⟨fun a b ha hb hkey => ?_, fun e a ha => ?_, fun a ha => ?_,
    fun e g' hl k p p' hp hp' => advanced_of_step h hl hp hp', hlog.confirmed,
    fun a ha => ⟨hlog.doomed a ha, fun tr' g' he => ?_⟩⟩
  · have hpa := (current_of_valid ha).2.pending
    have hpb := (current_of_valid hb).2.pending
    rw [hkey] at hpa
    exact Option.some.inj (hpa.symm.trans hpb)
  · have hs : g.stage.inFlight = some a := by
      cases e with
      | send => exact Option.mem_toList.mp ha
      | _ => cases ha
    refine ⟨guarded_of_run hr a hs, ?_⟩
    cases hopen : g.closing with
    | true => exact .inl rfl
    | false =>
      refine .inr (or_iff_not_imp_left.mpr (fun hrev => ?_))
      have hc := (h.fits.holds hs).current hopen (not_not.mp hrev)
      exact ⟨hc, h.cursor hc⟩
  · obtain ⟨-, hnext, x, hx, hpage⟩ := h.token a ha
    exact ⟨hnext, x, hx, fetchPage_covers hx hpage⟩
  · refine (Machine.outputs_eq_nil (P := fun g => Inv value g ∧ Doomed g) (fun hP hl => ?_)
      ⟨h, hlog.doomed a ha⟩ he).1
    exact ⟨⟨hP.1.step hl, hP.2.step hP.1 hl⟩, hP.2.sends_eq_nil _⟩

namespace Sample

open Consumer.Sample in
abbrev session : Machine (Group Unit) (Event Unit) :=
  machine settings (fun _ => some ⟨7, 1, [1]⟩) none

def unread : InitialReply Unit where
  identity := none
  checkpoint := .ok none
  bounds := ⟨.ok (fun _ => some ⟨7, 1, [1]⟩), ⟨none, .ok [("t", [⟨0, 5, none⟩])], none⟩,
    ⟨none, .ok ⟨13, none, [(7, [⟨0, none, 5, 9, 9⟩])]⟩, none⟩⟩

def issued : List (Event Unit) :=
  [.assigned "m" 1 [("t", [0])], .enter .next, .begin none, .choose, .initial unread, .select,
    .check, .fetch Consumer.Sample.reply, .issue, .leave]

def passed : List (Event Unit) :=
  issued ++ [.enter (.commit (.own 0)), .validate, .begin none, .identify none,
    .guard none ⟨"g", "m", 1, none, [("t", 7, [(0, 9)])]⟩]

def committed : List (Event Unit) :=
  passed ++ [.send, .reply none (.ok (some ⟨10, [(7, [(0, none)])]⟩))]

end Sample

/-- A page that has been committed: the request was sent and confirmed, and
the cursor is about to move to the end of the page. -/
theorem commit_safe_confirmed :
    ∃ g, Sample.session.Run Sample.committed g ∧ g.stage = .confirmed 0
      ∧ (0, true) ∈ replies Consumer.Sample.settings (fun _ => some ⟨7, 1, [1]⟩) none
        Sample.committed
      ∧ ∃ g', g.step Consumer.Sample.settings (fun _ => some ⟨7, 1, [1]⟩) .confirm = some g'
        ∧ Advanced g .confirm ⟨Consumer.Sample.position 5, true, some 0⟩
          ⟨Consumer.Sample.position 9, true, none⟩ :=
  have hr := Sample.session.run_reached Sample.committed rfl
  have hall := commit_safe hr
  ⟨_, hr, rfl, (hall.2.2.2.2.1 0 rfl).2, _, rfl, hall.2.2.2.1 .confirm _ rfl ⟨"t", 0⟩ _ _ rfl rfl⟩

/-- **A callback may overtake a request.** The guard has let it pass, the
partition is revoked, and then the request is sent: its token is not the one
of any partition of the session, and was issued under another revision. -/
theorem sent_after_revoked :
    ∃ g g', Sample.session.Run (Sample.passed ++ [.revoked [("t", [0])]]) g
      ∧ Sample.session.step g .send = some g' ∧ 0 ∈ g.sends .send
      ∧ (g.token 0).start.key ∉ g.partitions.keys ∧ (g.token 0).revision ≠ g.revision :=
  ⟨_, _, Sample.session.run_reached _ rfl, rfl, .head _, by decide +kernel, by decide +kernel⟩

end Group

end Kafka
