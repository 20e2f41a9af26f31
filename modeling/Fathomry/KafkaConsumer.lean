import Fathomry.KafkaScan
import Fathomry.Machine

/-!
# A consumer of one partition

A consumer walks a range of offsets page by page. `Next` reads the position
of the consumer, fetches a page from there and moves the position to the
next offset of the page – under three locks in a row, with `Close` and the
end of the lifetime falling anywhere in between. Nothing but `Next` moves
the position, and `Next` and `Commit` refuse to run beside each other.

The pages that a run of a consumer returns lie end to end
(`Consumer.Contiguous`): each is a cut of the records its fetch returned, so
as long as all fetches read the same log the pages together are the visible
records of that log, up to the position (`Consumer.scan_exact`).
-/

namespace Kafka

variable {ε : Type}

/-! ## Opening -/

def validPosition (value : Settings) (topics : Topics) (p : Position) : Option (Err ε) :=
  match topics p.topic with
  | none => some (failure .identity "position" [])
  | some expected =>
    if p.clusterID ≠ value.clusterID ∨ p.topicID ≠ expected.id then
      some (failure .identity "position" [])
    else if p.partition < 0 ∨ p.offset < 0 ∨ p.offset = maxInt64 then
      some (failure .input "position" [])
    else none

/-- **The range of a consumer**: one that `Consume` accepts. -/
structure Span extends Range where
  ordered : start.offset ≤ finish

def consume (value : Settings) (topics : Topics) (interval : Range) : Except (Err ε) Span :=
  match validPosition value topics interval.start with
  | some err => .error err
  | none =>
    if h : interval.start.offset ≤ interval.finish then .ok ⟨interval, h⟩
    else .error (failure .input "consume-range" [])

/-! ## The consumer -/

/-- The two operations of a consumer. -/
inductive Operation where
  | next
  | commit
deriving DecidableEq

/-- **Where the operation at work is.** -/
inductive Consumer.Stage (ε : Type) where
  | idle
  | entered (op : Operation)
  | begun
  | reading (start : ℤ)
  | fetched (start : ℤ) (x : FetchReply ε)
  /-- `Commit` has read the position it declares. -/
  | committing (next : ℤ)
  | leaving

structure ConsumerProgress where
  next : Position
  finish : ℤ
  received : ℕ
  complete : Bool

structure Consumer (ε : Type) where
  next : ℤ
  received : ℕ
  active : Bool
  closing : Bool
  stopped : Bool
  lifetime : Ctx ε
  stage : Consumer.Stage ε
  report : Option ConsumerProgress

namespace Consumer

variable (value : Settings) (span : Span) (s : Consumer ε)

def init : Consumer ε := ⟨span.start.offset, 0, false, false, false, none, .idle, none⟩

def goto (stage : Stage ε) : Consumer ε := { s with stage := stage }

/-- The range that is left at a position. -/
def interval (start : ℤ) : Range := ⟨span.start.at start, span.finish⟩

def enter (op : Operation) : Consumer ε :=
  if s.closing ∨ s.active ∨ s.lifetime.isSome then s
  else { s with active := true, stage := .entered op }

def leave : Consumer ε := { s with active := false, stage := .idle }

/-- `Next`, after a page without an error. -/
def advance (page : Page) : Consumer ε :=
  { s with
    next := page.next
    received := (s.received + page.records.length) % 2 ^ 64
    stage := .leaving }

/-- `Next`, after its fetch. -/
def settle (start : ℤ) (x : FetchReply ε) : Consumer ε :=
  match fetchPage value (interval span start) x with
  | (page, none) => s.advance page
  | (_, some _) => s.goto .leaving

def close : Consumer ε := { s with closing := true, stopped := true }

def cancel (how : Cancellation Kind Unit (Native ε)) : Consumer ε :=
  { s with lifetime := s.lifetime.or (some how) }

def progress : ConsumerProgress :=
  ⟨span.start.at s.next, span.finish, s.received, span.finish ≤ s.next⟩

/-- **What happens to a consumer.** -/
inductive Event (ε : Type) where
  | enter (op : Operation)
  | begin (err : Option (Err ε))
  | read
  /-- The call of `Next` is over before its fetch. -/
  | refuse
  | fetch (x : FetchReply ε)
  | settle
  /-- The checkpoint of `Commit` is through. -/
  | committed
  | leave
  | close
  | cancel (how : Cancellation Kind Unit (Native ε))
  /-- `run` sees that the consumer is to end. -/
  | stop
  | report

/-- **The step of a consumer.** A reply is one the native parser can give. -/
def step : Event ε → Option (Consumer ε)
  | .enter op => some (s.enter op)
  | .begin err =>
    match s.stage with
    | .entered .next => some (s.goto (if err.isSome then .leaving else .begun))
    | _ => none
  | .read =>
    match s.stage with
    | .begun => some (s.goto (.reading s.next))
    | .entered .commit => some (s.goto (.committing s.next))
    | _ => none
  | .refuse =>
    match s.stage with
    | .reading _ => some (s.goto .leaving)
    | _ => none
  | .fetch x =>
    match s.stage with
    | .reading start =>
      if s.lifetime.isNone ∧ x.Sound start then some (s.goto (.fetched start x)) else none
    | _ => none
  | .settle =>
    match s.stage with
    | .fetched start x => some (s.settle value span start x)
    | _ => none
  | .committed =>
    match s.stage with
    | .committing _ => some (s.goto .leaving)
    | _ => none
  | .leave =>
    match s.stage with
    | .leaving => some s.leave
    | _ => none
  | .close => some s.close
  | .cancel how => some (s.cancel how)
  | .stop => if s.stopped ∨ s.lifetime.isSome then some { s with closing := true } else none
  | .report =>
    if s.closing ∧ s.active = false ∧ s.report.isNone then
      some { s with report := some (s.progress span) }
    else none

/-- **A consumer as a machine.** -/
def machine : Machine (Consumer ε) (Event ε) := ⟨init span, fun s e => s.step value span e⟩

/-- A page that `Next` returns, with where it starts and what was fetched. -/
structure Scan (ε : Type) where
  start : ℤ
  reply : FetchReply ε
  page : Page

def scans : Event ε → List (Scan ε)
  | .settle =>
    match s.stage with
    | .fetched start x =>
      match fetchPage value (interval span start) x with
      | (page, none) => [⟨start, x, page⟩]
      | (_, some _) => []
    | _ => []
  | _ => []

/-! ## What a step can do -/

variable {value span s} {s' : Consumer ε}

/-- **What a step does to the position**: `Next` moves it to the end of the
page it returns, and nothing else does. A step that does not return a page
may take the reply to a fetch or read the position. -/
inductive Moved (value : Settings) (span : Span) (s : Consumer ε) :
    Event ε → Consumer ε → Prop
  | page (start : ℤ) (x : FetchReply ε) (page : Page) (hs : s.stage = .fetched start x)
      (hp : fetchPage value (interval span start) x = (page, none)) :
      Moved value span s .settle (s.advance page)
  | read (e : Event ε) (hsilent : s.scans value span e = []) :
      Moved value span s e (s.goto (.reading s.next))
  | fetch (start : ℤ) (x : FetchReply ε) (hs : s.stage = .reading start) (hx : x.Sound start) :
      Moved value span s (.fetch x) (s.goto (.fetched start x))
  | quiet (e : Event ε) (s' : Consumer ε) (hsilent : s.scans value span e = [])
      (hnext : s'.next = s.next)
      (hstage : s'.stage = s.stage
        ∨ (∀ start, s'.stage ≠ .reading start) ∧ ∀ start x, s'.stage ≠ .fetched start x) :
      Moved value span s e s'

theorem moved {e : Event ε} (h : s.step value span e = some s') : Moved value span s e s' := by
  have hgoto {e : Event ε} {stage : Stage ε} (hsilent : s.scans value span e = [])
      (hr : ∀ start, stage ≠ .reading start) (hf : ∀ start x, stage ≠ .fetched start x) :
      Moved value span s e (s.goto stage) := .quiet e _ hsilent rfl (.inr ⟨hr, hf⟩)
  revert h
  fun_cases step
  all_goals rintro ⟨⟩
  · unfold enter
    split_ifs
    · exact .quiet _ _ rfl rfl (.inl rfl)
    · exact .quiet _ _ rfl rfl (.inr ⟨fun _ => (nomatch ·), fun _ _ => (nomatch ·)⟩)
  · split_ifs
    all_goals exact hgoto rfl (fun _ => (nomatch ·)) (fun _ _ => (nomatch ·))
  · exact .read _ rfl
  iterate 2 exact hgoto rfl (fun _ => (nomatch ·)) (fun _ _ => (nomatch ·))
  · next x start hs hx => exact .fetch start x hs hx.2
  · next start x hs =>
    unfold settle
    split
    · next page hp => exact .page start x page hs hp
    · next page err hp =>
      refine hgoto ?_ (fun _ => (nomatch ·)) (fun _ _ => (nomatch ·))
      simp only [scans, hs, hp]
  · exact hgoto rfl (fun _ => (nomatch ·)) (fun _ _ => (nomatch ·))
  · exact .quiet _ _ rfl rfl (.inr ⟨fun _ => (nomatch ·), fun _ _ => (nomatch ·)⟩)
  all_goals exact .quiet _ _ rfl rfl (.inl rfl)

/-! ## Pages that lie end to end -/

/-- **Pages that lie end to end**, from `a` to `b`. -/
def Contiguous (a : ℤ) : List (Scan ε) → ℤ → Prop
  | [], b => a = b
  | x :: xs, b => x.start = a ∧ Contiguous x.page.next xs b

theorem Contiguous.concat {x : Scan ε} :
    ∀ {xs : List (Scan ε)} {a : ℤ}, Contiguous a xs x.start →
    Contiguous a (xs ++ [x]) x.page.next
  | [], _, h => ⟨h.symm, rfl⟩
  | _ :: _, _, h => ⟨h.1, h.2.concat⟩

/-- A page that was fetched within the range. -/
structure Scan.Exact (value : Settings) (span : Span) (x : Scan ε) : Prop where
  sound : x.reply.Sound x.start
  page : fetchPage value (interval span x.start) x.reply = (x.page, none)
  start_le : x.start ≤ span.finish

/-- The fetch of a page has read a log: it has returned all records of the
log from its start up to where it ends. -/
def Scan.Reads (log : List NativeRecord) (x : Scan ε) : Prop :=
  ∀ p, x.reply.prepared = .ok p → p.records
    = log.filter (fun r => decide (x.start ≤ r.offset) && decide (r.offset < p.next))

namespace Scan

variable {x : Scan ε}

theorem Exact.covers (h : x.Exact value span) :
    x.page.Covers value (interval span x.start) x.reply.records := fetchPage_covers h.sound h.page

theorem Exact.le (h : x.Exact value span) : x.start ≤ x.page.next := by
  obtain ⟨-, hpage⟩ | ⟨p, raw, hne, -⟩ := scan_of_fetchPage h.page
  · rw [hpage]
    exact le_rfl
  · exact (h.covers.progress (lt_of_le_of_ne h.start_le (Ne.symm hne))).le

/-- **The page of a log**: its visible records from start to end. -/
theorem Exact.records_of_reads (h : x.Exact value span) {log : List NativeRecord}
    (hlog : x.Reads log) :
    x.page.records = (visible x.start x.page.next log).map (frozen span.start) := by
  obtain ⟨-, hpage⟩ | ⟨p, raw, hne, hp, hscan⟩ := scan_of_fetchPage h.page
  · have hnext : x.page.next = x.start := by rw [hpage]; rfl
    rw [hnext, visible_self, hpage]
    rfl
  · have hle : x.page.next ≤ p.next :=
      scan_next_le p.records rfl (fun r hr => ((h.sound p hp).inside r hr).2) hscan
    have hrecords : x.reply.records = p.records := by
      unfold FetchReply.records
      rw [hp]
    rw [← visible_filter hle log, ← hlog p hp, ← hrecords]
    exact h.covers.records

theorem Exact.increasing (h : x.Exact value span) :
    x.page.records.Pairwise (fun a b => a.position.offset < b.position.offset)
      ∧ ∀ r ∈ x.page.records, x.start ≤ r.position.offset ∧ r.position.offset < x.page.next := by
  have hsorted : x.reply.records.Pairwise (fun a b => a.offset < b.offset) := by
    unfold FetchReply.records
    split
    · next p hp => exact (h.sound p hp).increasing
    · exact List.Pairwise.nil
  rw [h.covers.records]
  refine ⟨List.pairwise_map.mpr (hsorted.sublist List.filter_sublist), fun r hr => ?_⟩
  obtain ⟨y, hy, rfl⟩ := List.mem_map.mp hr
  have hb := Bool.and_eq_true_iff.mp (Bool.and_eq_true_iff.mp (List.mem_filter.mp hy).2).2
  exact ⟨of_decide_eq_true hb.1, of_decide_eq_true hb.2⟩

end Scan

/-- **Pages that lie end to end are one page.** -/
theorem Contiguous.records_of_reads {log : List NativeRecord}
    (hlog : log.Pairwise (fun a b => a.offset < b.offset)) :
    ∀ {xs : List (Scan ε)} {a b : ℤ}, Contiguous a xs b →
    (∀ x ∈ xs, x.Exact value span) → (∀ x ∈ xs, x.Reads log) →
    a ≤ b ∧ xs.flatMap (·.page.records) = (visible a b log).map (frozen span.start)
  | [], a, b, h, _, _ => by
    obtain rfl : a = b := h
    rw [visible_self]
    exact ⟨le_rfl, rfl⟩
  | x :: xs, a, b, h, hexact, hreads => by
    obtain ⟨rfl, h⟩ := h
    have hx := hexact x (.head _)
    obtain ⟨hle, hrest⟩ := h.records_of_reads hlog (fun y hy => hexact y (.tail _ hy))
      (fun y hy => hreads y (.tail _ hy))
    refine ⟨hx.le.trans hle, ?_⟩
    rw [List.flatMap_cons, hrest, hx.records_of_reads (hreads x (.head _)),
      ← List.map_append, visible_append_visible hx.le hle hlog]

/-- **Pages that lie end to end are in order.** -/
theorem Contiguous.increasing : ∀ {xs : List (Scan ε)} {a b : ℤ}, Contiguous a xs b →
    (∀ x ∈ xs, x.Exact value span) →
    a ≤ b ∧ (xs.flatMap (·.page.records)).Pairwise
      (fun a b => a.position.offset < b.position.offset)
      ∧ ∀ r ∈ xs.flatMap (·.page.records), a ≤ r.position.offset ∧ r.position.offset < b
  | [], _, _, h, _ => ⟨h.le, List.Pairwise.nil, nofun⟩
  | x :: xs, a, b, h, hexact => by
    obtain ⟨rfl, h⟩ := h
    have hx := hexact x List.mem_cons_self
    obtain ⟨hsorted, hin⟩ := hx.increasing
    obtain ⟨hle, hrest, hrin⟩ := h.increasing (fun y hy => hexact y (List.mem_cons_of_mem _ hy))
    refine ⟨hx.le.trans hle, List.pairwise_append.mpr ⟨hsorted, hrest, fun r hr r' hr' => ?_⟩,
      fun r hr => ?_⟩
    · exact (hin r hr).2.trans_le (hrin r' hr').1
    · obtain hr | hr := List.mem_append.mp hr
      · exact ⟨(hin r hr).1, (hin r hr).2.trans_le hle⟩
      · exact ⟨hx.le.trans (hrin r hr).1, (hrin r hr).2⟩

/-- **What is true of a consumer**, with the pages it has returned. -/
structure Inv (value : Settings) (span : Span) (xs : List (Scan ε)) (s : Consumer ε) : Prop where
  reading : ∀ start, s.stage = .reading start → start = s.next
  fetched : ∀ start x, s.stage = .fetched start x → start = s.next ∧ x.Sound start
  exact : ∀ x ∈ xs, x.Exact value span
  contiguous : Contiguous span.start.offset xs s.next
  bounds : span.start.offset ≤ s.next ∧ s.next ≤ span.finish

theorem Inv.step {xs : List (Scan ε)} (h : Inv value span xs s) {e : Event ε}
    (hl : s.step value span e = some s') : Inv value span (xs ++ s.scans value span e) s' := by
  cases moved hl with
  | page start x page hs hp =>
    obtain ⟨rfl, hx⟩ := h.fetched start x hs
    have hscan : s.scans value span .settle = [⟨s.next, x, page⟩] := by
      simp only [scans, hs, hp]
    have hcov := fetchPage_covers hx hp
    rw [hscan]
    refine ⟨fun _ => (nomatch ·), fun _ _ => (nomatch ·), fun y hy => ?_, ?_, ?_, hcov.next_le⟩
    · obtain hy | hy := List.mem_append.mp hy
      · exact h.exact y hy
      · rw [List.mem_singleton.mp hy]
        exact ⟨hx, hp, h.bounds.2⟩
    · exact Contiguous.concat h.contiguous
    · obtain hlt | heq := h.bounds.2.lt_or_eq
      · exact h.bounds.1.trans (hcov.progress hlt).le
      · -- the range is used up, and the page is empty
        obtain ⟨-, rfl⟩ | ⟨p, raw, hne, -⟩ := scan_of_fetchPage hp
        · exact h.bounds.1
        · exact absurd heq.symm hne
  | read e hsilent =>
    rw [hsilent, List.append_nil]
    exact ⟨fun start hs => (Stage.reading.inj hs).symm, fun _ _ => (nomatch ·), h.exact,
      h.contiguous, h.bounds⟩
  | fetch start x hs hx =>
    rw [show s.scans value span (.fetch x) = [] from rfl, List.append_nil]
    refine ⟨fun _ => (nomatch ·), fun start' x' hs' => ?_, h.exact, h.contiguous, h.bounds⟩
    cases hs'
    exact ⟨h.reading start hs, hx⟩
  | quiet e s' hsilent hnext hstage =>
    rw [hsilent, List.append_nil]
    refine ⟨?_, ?_, h.exact, hnext ▸ h.contiguous, hnext ▸ h.bounds⟩
    · obtain hsame | ⟨hr, -⟩ := hstage
      · rw [hsame, hnext]
        exact h.reading
      · exact fun start hs => absurd hs (hr start)
    · obtain hsame | ⟨-, hf⟩ := hstage
      · rw [hsame, hnext]
        exact h.fetched
      · exact fun start x hs => absurd hs (hf start x)

def pages (value : Settings) (span : Span) (tr : List (Event ε)) : List (Scan ε) :=
  (machine value span).outputs (fun s => s.scans value span) (init span) tr

theorem inv_of_run {tr : List (Event ε)} (hr : (machine value span).Run tr s) :
    Inv value span (pages value span tr) s := by
  refine hr.invariant (I := fun tr s => Inv value span (pages value span tr) s) ?_
    (fun hrun h hl => ?_)
  · exact ⟨fun _ => (nomatch ·), fun _ _ => (nomatch ·), fun x hx => absurd hx List.not_mem_nil,
      rfl, le_rfl, span.ordered⟩
  · rw [show pages value span (_ ++ [_]) = _ from hrun.outputs_concat _]
    exact h.step hl

/-! ## What a consumer guarantees -/

namespace Sample

theorem two_records : (1 : ℤ) ≤ 2 ∧ (2 : ℤ) ≤ 4096 := by decide

def settings : Settings where
  clusterID := "c"
  consumerGroup := "g"
  initialOffset := .earliest
  resetOffset := .error
  keyed := false
  maxRecords := 2
  maxRecordBytes := 1024
  maxBatchBytes := 2048
  maxAssignments := 4
  records_bound := two_records
  record_bound := by decide
  batch_bound := by decide
  assignments_bound := by decide

def position (offset : ℤ) : Position := ⟨"c", "t", 7, 0, offset⟩

def record (offset : ℤ) (control : Bool) : NativeRecord :=
  ⟨"t", offset, control, none, none, [], 0, 0⟩

/-- Three offsets of a compacted partition, one of them a marker. -/
def log : List NativeRecord := [record 5 false, record 6 true, record 8 false]

def reply : FetchReply Unit where
  metadata := .ok (fun _ => some ⟨7, 1, [1]⟩)
  fetched := ⟨none, .ok ⟨13, none, [(7, [⟨0, none, 0, 9, 9⟩])]⟩, none⟩
  range := ⟨⟨none, .ok [], none⟩, ⟨none, .ok ⟨13, none, []⟩, none⟩⟩
  prepared := .ok ⟨none, log, 9⟩

def range : Span := ⟨⟨position 5, 20⟩, by decide⟩

def walked : List (Event Unit) :=
  [.enter .next, .begin none, .read, .fetch reply, .settle, .leave]

end Sample

/-- **A scan returns every visible record once, in order.** A page without
an error holds exactly the visible records from its start up to its next
offset, within the limits, and ends with its range at the latest; it gets
ahead, or stays at the start of an empty range. So the pages of a consumer lie end to end
from the start of its range up to its position: if all fetches have read one
log, they are the visible records of that log. Only a step that returns a
page moves the position. -/
theorem scan_exact :
    (∀ (value : Settings) (interval : Range) (x : FetchReply ε) (page : Page),
      x.Sound interval.start.offset → fetchPage value interval x = (page, none) →
      page.Covers value interval x.records)
    ∧ ∀ (value : Settings) (span : Span) (tr : List (Event ε)) (s : Consumer ε),
      (machine value span).Run tr s →
      Contiguous span.start.offset (pages value span tr) s.next
      ∧ (∀ x ∈ pages value span tr,
        x.page.Covers value (interval span x.start) x.reply.records)
      ∧ (span.start.offset ≤ s.next ∧ s.next ≤ span.finish)
      ∧ ((pages value span tr).flatMap (·.page.records)).Pairwise
        (fun a b => a.position.offset < b.position.offset)
      ∧ (∀ log : List NativeRecord, log.Pairwise (fun a b => a.offset < b.offset) →
        (∀ x ∈ pages value span tr, x.Reads log) →
        (pages value span tr).flatMap (·.page.records)
          = (visible span.start.offset s.next log).map (frozen span.start))
      ∧ ∀ e s', s.step value span e = some s' →
        s'.next = s.next ∧ s.scans value span e = []
          ∨ ∃ x, s.scans value span e = [x] ∧ x.start = s.next ∧ s'.next = x.page.next := by
  refine ⟨fun value interval x page hx hp => fetchPage_covers hx hp, fun value span tr s hr => ?_⟩
  have h := inv_of_run hr
  refine ⟨h.contiguous, fun x hx => (h.exact x hx).covers, h.bounds,
    (h.contiguous.increasing h.exact).2.1,
    fun log hlog hreads => (h.contiguous.records_of_reads hlog h.exact hreads).2, fun e s' hl => ?_⟩
  cases moved hl with
  | page start x page hs hp =>
    obtain ⟨rfl, -⟩ := h.fetched start x hs
    exact .inr ⟨⟨s.next, x, page⟩, by simp only [scans, hs, hp], rfl, rfl⟩
  | read e hsilent => exact .inl ⟨rfl, hsilent⟩
  | fetch => exact .inl ⟨rfl, rfl⟩
  | quiet e s' hsilent hnext => exact .inl ⟨hnext, hsilent⟩

/-- A page that passes a marker and a gap: both records of the log, and a
position behind them. -/
theorem scan_exact_walked :
    ∃ s, (machine Sample.settings Sample.range).Run Sample.walked s ∧ s.next = 9
      ∧ (pages Sample.settings Sample.range Sample.walked).flatMap (·.page.records)
        = (visible 5 9 Sample.log).map (frozen (Sample.position 5)) :=
  have hr := (machine Sample.settings Sample.range).run_reached Sample.walked rfl
  have hall := scan_exact.2 Sample.settings Sample.range Sample.walked _ hr
  ⟨_, hr, rfl, hall.2.2.2.2.1 Sample.log (by decide) (fun x hx p hp => by
    obtain rfl := List.mem_singleton.mp hx
    cases hp
    decide)⟩

/-- An empty range is scanned with success, and nothing is got ahead. -/
theorem scan_of_empty_range :
    ∃ page, Sample.reply.Sound 5
      ∧ fetchPage Sample.settings ⟨Sample.position 5, 5⟩ Sample.reply = (page, none)
      ∧ ¬ (5 < page.next) :=
  ⟨_, by decide, rfl, by decide⟩

end Consumer

end Kafka
