import Fathomry.IcebergWriterAccounts

/-!
# What a writer was given

`Write` returns how many of its bytes it has taken over, so its callers know
what the object has to be: of each `Write` as many bytes as it said, one
after the other (`written`). A writer has taken over these bytes and no
others. While a `Write` is on its way its stage says what is left of its data
and how many bytes it has taken over so far, and this is compared with the
data it was called with (`Taken`). The parts in the store are what was sent,
and what ends a writer is the first call that was meant to (`Told`).
-/

namespace Iceberg

variable {ε : Type}

namespace WriterEvent

def written : WriterEvent ε → Option Bytes
  | .write data => some data
  | _ => none

/-- A call that ends the writer; `true` for `shutdown`. -/
def ends : WriterEvent ε → Option Bool
  | .close => some false
  | .shutdown => some true
  | _ => none

def called : WriterEvent ε → List (WriterEvent ε)
  | .started _ | .admitted _ | .answered _ | .released | .notified => []
  | l => [l]

end WriterEvent

/-- **What the calls of `Write` amount to**: of the data of each as many bytes
as it has returned. -/
def written (writes : List Bytes) (counts : List ℕ) : Bytes :=
  (List.zipWith List.take counts writes).flatten

theorem written_concat {writes : List Bytes} {counts : List ℕ}
    (h : writes.length = counts.length) (data : Bytes) (n : ℕ) :
    written (writes ++ [data]) (counts ++ [n]) = written writes counts ++ data.take n := by
  unfold written
  rw [List.zipWith_append h.symm]
  simp

/-- **A `Write` on its way**: what is left of its data, how many bytes it has
taken over, and whether it has not begun to. -/
def Task.pending (fresh : Bool) : Task → Option (Option Bytes × ℕ × Bool)
  | .write data n => some (some data, n, fresh)
  | .close => none

namespace Stage

@[inherit_doc Task.pending]
def pending : Stage ε → Option (Option Bytes × ℕ × Bool)
  | .starting task => task.pending true
  | .reserving op task | .reserved op task => task.pending (!op.request)
  | .requesting _ task => task.pending false
  | .claiming data => some (some data, 0, false)
  | .returning n _ => some (none, n, false)
  | _ => none

def asks : Stage ε → Bool
  | .requesting .uploadPart _ => true
  | _ => false

end Stage

namespace Writer

/-- **What was taken over is what was written.** -/
def Taken (writes : List Bytes) (v : View ε) (w : Writer ε) : Prop :=
  match w.stage.pending with
  | none => writes.length = v.counts.length ∧ v.accepted = written writes v.counts
  | some (rest, n, fresh) => w.closed = false ∧ ∃ earlier data, writes = earlier ++ [data]
      ∧ earlier.length = v.counts.length ∧ v.accepted = written earlier v.counts ++ data.take n
      ∧ (∀ d ∈ rest, d = data.drop n) ∧ (fresh = true → n = 0)

/-- **What a writer has done is what it was told**, by the calls and the store. -/
structure Told (calls : List (WriterEvent ε)) (v : View ε) (w : Writer ε) : Prop where
  taken : w.Taken (calls.filterMap WriterEvent.written) v
  kept : ∀ x ∈ v.kept, (x.uploadID, x.part.number, x.data) ∈ v.sent ∧
    .uploaded none x.part.etag ∈ calls
  asked : w.stage.asks = true → (w.uploadID, w.parts.length + 1, w.held) ∈ v.sent
  endings : v.endings = (calls.filterMap WriterEvent.ends).take 1
  closed : w.closed = !(calls.filterMap WriterEvent.ends).isEmpty

theorem told_init : (init : Writer ε).Told [] .empty :=
  ⟨⟨rfl, rfl⟩, nofun, nofun, rfl, rfl⟩

end Writer

/-- **What was given to a writer.** The bytes of its object are those of its
`Write`s; a part in the store is one that was sent, and that the store has
confirmed; and the first `Close` or `shutdown` is what ends it. -/
structure Given (calls : List (WriterEvent ε)) (v : View ε) : Prop where
  bytes : v.publications ≠ [] →
    v.accepted = written (calls.filterMap WriterEvent.written) v.counts
  parts : ∀ x ∈ v.kept, (x.uploadID, x.part.number, x.data) ∈ v.sent ∧
    .uploaded none x.part.etag ∈ calls
  endings : v.endings = (calls.filterMap WriterEvent.ends).take 1

namespace Writer

variable {config : Config} {w w' : Writer ε} {writes : List Bytes} {v v' : View ε}

/-- Nothing is taken over, and no `Write` returns. -/
def Mute (v v' : View ε) : Prop := v'.accepted = v.accepted ∧ v'.counts = v.counts

section

variable (h : w.Taken writes v)
include h

theorem Taken.idle (hw : w.stage.pending = none) (hw' : w'.stage.pending = none)
    (hv : Mute v v') : w'.Taken writes v' := by
  unfold Taken at h ⊢
  rw [hw] at h
  rw [hw', hv.1, hv.2]
  exact h

variable {rest rest' : Option Bytes} {n n' : ℕ} {fresh fresh' : Bool}

/-- **A `Write` goes on.** -/
theorem Taken.move {more : Bytes} (hw : w.stage.pending = some (rest, n, fresh))
    (hw' : w'.stage.pending = some (rest', n', fresh')) (hc : w'.closed = w.closed)
    (hv : v'.accepted = v.accepted ++ more ∧ v'.counts = v.counts)
    (hstep : ∀ data : Bytes, (∀ d ∈ rest, d = data.drop n) → (fresh = true → n = 0) →
      data.take n ++ more = data.take n' ∧ (∀ d ∈ rest', d = data.drop n') ∧
        (fresh' = true → n' = 0)) :
    w'.Taken writes v' := by
  unfold Taken at h ⊢
  rw [hw] at h
  rw [hw']
  obtain ⟨hopen, earlier, data, hwrites, hlen, haccepted, hrest, hfresh⟩ := h
  obtain ⟨htake, hrest', hfresh'⟩ := hstep data hrest hfresh
  refine ⟨hc.trans hopen, earlier, data, hwrites, ?_, ?_, hrest', hfresh'⟩
  · rw [hv.2]
    exact hlen
  · rw [hv.1, hv.2, haccepted, List.append_assoc, htake]

theorem Taken.finish (hw : w.stage.pending = some (rest, n, fresh))
    (hw' : w'.stage.pending = none) {err : Option (Err ε)} :
    w'.Taken writes (v.add (.wrote n err)) := by
  unfold Taken at h ⊢
  rw [hw] at h
  rw [hw']
  obtain ⟨-, earlier, data, rfl, hlen, haccepted, -⟩ := h
  exact ⟨by simp [hlen, View.add], haccepted.trans (written_concat hlen data n).symm⟩

theorem Taken.returning {err : Option (Err ε)} (hw : w.stage.pending = some (rest, n, fresh))
    (hstage : w'.stage = .returning n' err) (hc : w'.closed = w.closed)
    (hn : (fresh = true → n = 0) → n' = n) : w'.Taken writes v := by
  refine h.move hw (by rw [hstage]; rfl) hc ⟨(List.append_nil _).symm, rfl⟩ (fun data _ hf => ?_)
  rw [hn hf]
  exact ⟨List.append_nil _, nofun, nofun⟩

variable {task : Task}

/-- A call is where it was, for its caller. -/
theorem Taken.goto (hw : w.stage.pending = task.pending fresh)
    (hw' : w'.stage.pending = task.pending fresh') (hc : w'.closed = w.closed)
    (hf : fresh' = true → fresh = true) (hv : Mute v v') : w'.Taken writes v' := by
  cases task with
  | close => exact h.idle hw hw' hv
  | write data n =>
    refine h.move hw hw' hc ⟨hv.1.trans (List.append_nil _).symm, hv.2⟩
      (fun data hrest hfresh => ⟨List.append_nil _, hrest, fun hf' => hfresh (hf hf')⟩)

/-- **The loop of `Write`** takes over what there is room for. -/
theorem Taken.pump {data : Bytes} {actions : List (Action ε)}
    (hw : w.stage.pending = some (some data, n, fresh)) (hc : w'.closed = w.closed)
    (hv : Mute v (actions.foldl View.add v)) :
    (w'.pump config data n actions).state.Taken writes
      ((w'.pump config data n actions).actions.foldl View.add v) := by
  -- Wherever the loop stops, what is left of the data is what it has not taken over.
  have hgo {u : Writer ε} {rest' : Option Bytes} {c : ℕ} (hc' : u.closed = w'.closed)
      (hu : u.stage.pending = some (rest', n + c, false)) (hr : ∀ d ∈ rest', d = data.drop c) :
      u.Taken writes ((actions ++ [Action.accepted (data.take c)]).foldl View.add v) := by
    rw [List.foldl_append]
    refine h.move hw hu (hc'.trans hc) ⟨congrArg (· ++ data.take c) hv.1, hv.2⟩
      (fun given hgiven _ => ?_)
    have hdata : data = given.drop n := hgiven data rfl
    refine ⟨?_, fun d hd => ?_, nofun⟩
    · rw [hdata, List.take_add]
    · rw [hr d hd, hdata, List.drop_drop]
  unfold Writer.pump
  dsimp only
  split
  · exact hgo rfl rfl nofun
  · split
    · exact hgo rfl rfl nofun
    · next stage hs =>
      obtain ⟨op, hop, rfl⟩ := flushPart_ok hs
      refine hgo rfl ?_ (fun d hd => (Option.mem_some.mp hd).symm)
      show some (_, _, !op.request) = _
      rw [hop]
      rfl

end

/-! ### The end -/

/-- No `Write` is on its way after a step that takes over nothing. -/
def Rests (v : View ε) (t : Turn ε) : Prop :=
  t.state.stage.pending = none ∧ Mute v (t.actions.foldl View.add v)

theorem Taken.rests {t : Turn ε} (h : w.Taken writes v) (hw : w.stage.pending = none)
    (hr : Rests v t) : t.state.Taken writes (t.actions.foldl View.add v) := h.idle hw hr.1 hr.2

theorem rests_aborted (ending : Ending) (err : Option (Err ε)) {actions : List (Action ε)}
    (hv : Mute v (actions.foldl View.add v)) : Rests v (w.aborted ending err actions) := by
  cases ending with
  | close started =>
    cases started
    all_goals exact ⟨rfl, hv⟩
  | shutdown => exact ⟨rfl, hv⟩

theorem rests_abort (ending : Ending) {actions : List (Action ε)}
    (hv : Mute v (actions.foldl View.add v)) : Rests v (w.abort ending actions) := by
  unfold abort
  split
  · exact rests_aborted ending none hv
  · refine ⟨rfl, ?_⟩
    rw [List.foldl_append]
    exact hv

theorem rests_committed (err : Option (Err ε)) : Rests v (w.committed err []) := by
  cases err with
  | none => exact ⟨rfl, rfl, rfl⟩
  | some err => exact rests_abort _ ⟨rfl, rfl⟩

theorem rests_commit : Rests v w.commit := by
  unfold commit
  split
  · exact ⟨rfl, rfl, rfl⟩
  split
  · exact ⟨rfl, rfl, rfl⟩
  split
  · exact rests_committed _
  · next stage hs =>
    obtain ⟨op, -, rfl⟩ := flushPart_ok hs
    exact ⟨rfl, rfl, rfl⟩

/-! ### Steps -/

section

variable {task : Task} (h : w.Taken writes v)
include h

theorem Taken.failTask {fresh : Bool} (hw : w.stage.pending = task.pending fresh) (err : Err ε) :
    (w.failTask task err).state.Taken writes ((w.failTask task err).actions.foldl View.add v) := by
  cases task with
  | close => exact h.rests hw (rests_committed (w := w) (some err))
  | write data n => exact h.returning hw rfl rfl (fun _ => rfl)

theorem Taken.write (hs : w.stage = .free) (data : Bytes) :
    (w.write data).state.Taken (writes ++ [data]) ((w.write data).actions.foldl View.add v) := by
  unfold Taken at h
  rw [hs] at h
  obtain ⟨hlen, haccepted⟩ := h
  -- A `Write` that returns at once has taken over nothing.
  have hreturn (err : Err ε) : w.Taken (writes ++ [data]) (v.add (.wrote 0 (some err))) := by
    unfold Taken
    rw [hs]
    refine ⟨by simp [hlen, View.add], haccepted.trans ?_⟩
    exact ((written_concat hlen data 0).trans (List.append_nil _)).symm
  unfold Writer.write
  split
  · exact hreturn _
  · next hopen =>
    split
    · exact hreturn _
    · refine ⟨Bool.eq_false_iff.mpr hopen, writes, data, rfl, hlen, ?_, ?_, fun _ => rfl⟩
      · exact haccepted.trans (List.append_nil _).symm
      · exact fun d hd => (Option.mem_some.mp hd).symm

theorem Taken.started (hs : w.stage = .starting task) (err : Option (Err ε)) :
    (w.started config task err).state.Taken writes
      ((w.started config task err).actions.foldl View.add v) := by
  have hw : w.stage.pending = task.pending true := by rw [hs]; rfl
  fun_cases Writer.started
  · next data n err =>
    have hn : n = 0 := by
      unfold Taken at h
      rw [hw] at h
      obtain ⟨-, -, -, -, -, -, -, hfresh⟩ := h
      exact hfresh rfl
    subst hn
    exact h.finish hw rfl
  · exact h.returning hw rfl rfl (fun hf => (hf rfl).symm)
  · exact h.goto hw rfl rfl (fun _ => rfl) ⟨rfl, rfl⟩
  iterate 2 exact h.rests hw (rests_abort _ ⟨rfl, rfl⟩)
  · exact h.rests hw rests_commit

theorem Taken.reserved {op : Op} (hs : w.stage = .reserved op task) (err : Option (Err ε)) :
    (w.reserved config op task err).state.Taken writes
      ((w.reserved config op task err).actions.foldl View.add v) := by
  have hw : w.stage.pending = task.pending (!op.request) := by rw [hs]; rfl
  fun_cases Writer.reserved
  · exact h.failTask hw _
  · exact h.returning hw rfl rfl (fun hf => (hf rfl).symm)
  · next data n _ _ =>
    refine h.move hw rfl rfl ⟨(List.append_nil _).symm, rfl⟩ (fun given hgiven hfresh => ?_)
    obtain rfl : n = 0 := hfresh rfl
    exact ⟨List.append_nil _, hgiven, nofun⟩
  · exact h.pump hw rfl ⟨rfl, rfl⟩
  · exact h
  all_goals exact h.goto hw rfl rfl id ⟨rfl, rfl⟩

theorem Taken.uploaded (hs : w.stage = .requesting .uploadPart task) (err : Option (Err ε))
    (etag : String) :
    (w.uploaded config task err etag).state.Taken writes
      ((w.uploaded config task err etag).actions.foldl View.add v) := by
  have hw : w.stage.pending = task.pending false := by rw [hs]; rfl
  unfold Writer.uploaded
  dsimp only
  split
  · exact h.failTask hw _
  split
  · exact h.failTask hw _
  split
  · exact h.pump hw rfl ⟨rfl, rfl⟩
  · exact h.goto hw rfl rfl id ⟨rfl, rfl⟩

/-- **Every step takes over what it was given.** -/
theorem Taken.turn {l : WriterEvent ε} {t : Turn ε} (ht : w.turn config l = some t) :
    t.state.Taken (writes ++ l.written.toList) (t.actions.foldl View.add v) := by
  -- Nothing but a `Write` is given any bytes.
  have hnone (hl : l.written = none) (ht : t.state.Taken writes (t.actions.foldl View.add v)) :
      t.state.Taken (writes ++ l.written.toList) (t.actions.foldl View.add v) := by
    rw [hl, Option.toList_none, List.append_nil]
    exact ht
  have hrests (hl : l.written = none) (hw : w.stage.pending = none) (hr : Rests v t) :
      t.state.Taken (writes ++ l.written.toList) (t.actions.foldl View.add v) :=
    hnone hl (h.rests hw hr)
  cases turned ht with
  | write data hs => exact h.write hs data
  | close hs =>
    refine hrests rfl (by rw [hs]; rfl) ?_
    unfold Writer.close
    split
    · exact ⟨by rw [hs]; rfl, rfl, rfl⟩
    · exact ⟨rfl, rfl, rfl⟩
  | shutdown hs =>
    refine hrests rfl (by rw [hs]; rfl) ?_
    unfold Writer.shutdown
    split
    · exact ⟨by rw [hs]; rfl, rfl, rfl⟩
    · exact rests_abort _ ⟨rfl, rfl⟩
  | stored op err etag ho hs => exact hrests rfl (by rw [hs]; rfl) (rests_committed _)
  | aborted ending err hs => exact hrests rfl (by rw [hs]; rfl) (rests_aborted _ _ ⟨rfl, rfl⟩)
  | departed hs | released hs | notified hs => exact hrests rfl (by rw [hs]; rfl) ⟨rfl, rfl, rfl⟩
  | drained hs =>
    refine hrests rfl (by rw [hs]; rfl) ⟨rfl, ?_⟩
    unfold Writer.drained
    dsimp only
    split
    all_goals exact ⟨rfl, rfl⟩
  | started task err hs => exact hnone rfl (h.started hs err)
  | admitted op task err hs =>
    have hw : w.stage.pending = task.pending (!op.request) := by rw [hs]; rfl
    refine hnone rfl ?_
    cases err with
    | some err => exact h.failTask hw err
    | none => exact h.goto hw rfl rfl id ⟨rfl, rfl⟩
  | answered op task err hs => exact hnone rfl (h.reserved hs err)
  | claimed data err hs =>
    have hw : w.stage.pending = some (some data, 0, false) := by rw [hs]; rfl
    refine hnone rfl ?_
    cases err with
    | some err => exact h.returning hw rfl rfl (fun _ => rfl)
    | none => exact h.pump hw rfl ⟨rfl, rfl⟩
  | created task err uploadID hs =>
    have hw : w.stage.pending = task.pending false := by rw [hs]; rfl
    refine hnone rfl ?_
    unfold Writer.created
    split
    · exact h.failTask hw _
    dsimp only
    split
    · exact Taken.failTask (w := { w with uploadID := uploadID }) h hw _
    · exact h.goto hw rfl rfl id ⟨rfl, rfl⟩
  | uploaded task err etag hs => exact hnone rfl (h.uploaded hs err etag)
  | returned n err hs =>
    have hw : w.stage.pending = some (none, n, false) := by rw [hs]; rfl
    exact hnone rfl (h.finish hw rfl)

end

/-- **What a step says about parts and ends.** A part in the store is the one
that was sent, and the store has answered. -/
theorem marks_of_turn {l : WriterEvent ε} {t : Turn ε} (ht : w.turn config l = some t)
    (v : View ε) :
    let v' := t.actions.foldl View.add v
    (v'.kept = v.kept ∨ ∃ part : CompletedPart, part.number = w.parts.length + 1 ∧
      v'.kept = v.kept ++ [⟨w.uploadID, part, w.held⟩] ∧ w.stage.asks = true ∧
      l = .uploaded none part.etag) ∧
    v.sent ⊆ v'.sent ∧
    (t.state.stage.asks = true →
      (t.state.uploadID, t.state.parts.length + 1, t.state.held) ∈ v'.sent) ∧
    v'.endings = v.endings ++ (if w.closed then [] else l.ends.toList) ∧
    t.state.closed = (w.closed || l.ends.isSome) := by
  cases turned ht
  all_goals
    simp only [write, close, shutdown, started, admitted, reserved, claimed, created, uploaded,
      stored, aborted, depart, abort, committed, commit, failTask, pump, drained, failWrite]
    repeat' split
    all_goals try obtain ⟨op, -, rfl⟩ := flushPart_ok (by assumption)
    all_goals simp_all [goto, held, View.add, Stage.asks, WriterEvent.ends]

/-- **Every step does what it was told.** -/
theorem Told.turn {calls : List (WriterEvent ε)} {l : WriterEvent ε} {t : Turn ε}
    (h : w.Told calls v) (ht : w.turn config l = some t) :
    t.state.Told (calls ++ l.called) (t.actions.foldl View.add v) := by
  obtain ⟨hkept, hsent, hasked, hendings, hclosed⟩ := marks_of_turn ht v
  have hwritten : (calls ++ l.called).filterMap WriterEvent.written
      = calls.filterMap WriterEvent.written ++ l.written.toList := by
    cases l
    all_goals simp [WriterEvent.called, WriterEvent.written]
  have hends : (calls ++ l.called).filterMap WriterEvent.ends
      = calls.filterMap WriterEvent.ends ++ l.ends.toList := by
    cases l
    all_goals simp [WriterEvent.called, WriterEvent.ends]
  refine ⟨?_, fun x hx => ?_, hasked, ?_, ?_⟩
  · rw [hwritten]
    exact h.taken.turn ht
  · have hold (hx : x ∈ v.kept) : _ ∧ .uploaded none x.part.etag ∈ calls ++ l.called :=
      (h.kept x hx).imp (hsent ·) (List.mem_append_left _)
    obtain heq | ⟨part, hnumber, heq, hasks, rfl⟩ := hkept
    · exact hold (heq ▸ hx)
    · obtain hx | hx := List.mem_append.mp (heq ▸ hx)
      · exact hold hx
      · cases List.mem_singleton.mp hx
        exact ⟨hsent (hnumber ▸ h.asked hasks),
          List.mem_append_right _ (List.mem_singleton.mpr rfl)⟩
  · rw [hendings, hends, h.endings, h.closed]
    cases calls.filterMap WriterEvent.ends
    · cases l.ends
      all_goals rfl
    · simp
  · rw [hclosed, hends, h.closed]
    cases l.ends
    all_goals simp

/-- Whoever asks for an object has been closed, and no `Write` is on its way. -/
theorem Told.accepted {calls : List (WriterEvent ε)} (h : w.Told calls v)
    (htrack : w.Track config v) (hne : v.publications ≠ []) :
    v.accepted = Iceberg.written (calls.filterMap WriterEvent.written) v.counts := by
  obtain hk | he := htrack.kept_or_ended
  · exact absurd hk.unpublished hne
  · have htaken := h.taken
    unfold Taken at htaken
    split at htaken
    · exact htaken.2
    · exact nomatch he.closed.symm.trans htaken.1

end Writer

end Iceberg
