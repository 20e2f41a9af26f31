import Fathomry.DuckdbReader
import Fathomry.Paging

/-!
# Chunks are the result, cut

Between two calls of `Next` the rows that have been delivered, the row that
is kept and the rows that the driver still has are the result (`Open`). The
row that is kept is known to fit into a chunk of its own and under the limits
of the whole, which nothing else can use up in between: so the next chunk
begins with it.
-/

namespace Duckdb

open Reader Paging

variable {ε : Type}

def scalarCost : Value → ℤ
  | .null | .fixed _ => 48
  | .time _ => 64
  | .text data | .blob data => data.length + 48
  | .bigInt _ => 96
  | .decimal _ _ _ => 128
  | .other => 0

theorem scalarCost_nonneg (value : Value) : 0 ≤ scalarCost value := by
  cases value
  case text | blob => exact Int.add_nonneg (Int.natCast_nonneg _) (by decide)
  all_goals simp [scalarCost]

/-- **What a row counts for.** -/
def weight (columns : List Column) (row : Row) : ℤ :=
  32 + load (fun x => scalarCost x.1) (row.zip columns)

theorem weight_pos (columns : List Column) (row : Row) : 0 < weight columns row := by
  have := load_nonneg (fun x : Value × Column => scalarCost_nonneg x.1) (row.zip columns)
  unfold weight
  omega

def isLimit : Err ε → Bool
  | .occurrence .limit _ _ _ _ => true
  | _ => false

/-- **What a check has to say**: the cost, or an error that is not one of a
limit. -/
def Sized (cost : ℤ) : Except (Err ε) ℤ → Prop
  | .ok n => n = cost
  | .error err => isLimit err = false

theorem Sized.ite {p : Prop} [Decidable p] {a : ℤ} {err : Err ε} (h : isLimit err = false) :
    Sized a (if p then .ok a else .error err) := by
  split
  · rfl
  · exact h

theorem scalarSize_sized (value : Value) :
    Sized (scalarCost value) (scalarSize value : Except (Err ε) ℤ) := by
  cases value with
  | null | fixed | blob | other => rfl
  | time | text => exact .ite rfl
  | bigInt n | decimal width scale n =>
    cases n with
    | none => rfl
    | some => exact .ite rfl

variable {isFinite : ℤ → Bool}

theorem resultScalarSize_sized (isFinite : ℤ → Bool) (value : Value) (typeName : String) :
    Sized (scalarCost value) (resultScalarSize isFinite value typeName : Except (Err ε) ℤ) := by
  unfold resultScalarSize
  split
  · split
    · rfl
    · exact scalarSize_sized _
  · exact scalarSize_sized value

theorem Reader.rowSize_spec (isFinite : ℤ → Bool) (chunkBytes size : ℤ)
    (cells : List (Value × Column)) :
    match (rowSize isFinite chunkBytes size cells : Except (Bool × Err ε) ℤ) with
    | .ok n => n = size + load (fun x => scalarCost x.1) cells
    | .error (limited, err) => isLimit err = limited := by
  induction cells generalizing size with
  | nil => exact (add_zero _).symm
  | cons x cells ih =>
    have hsized := resultScalarSize_sized (ε := ε) isFinite x.1 x.2.type
    unfold rowSize
    cases hcost : (resultScalarSize isFinite x.1 x.2.type : Except (Err ε) ℤ) with
    | error =>
      rw [hcost] at hsized
      exact hsized
    | ok cost =>
      rw [hcost] at hsized
      dsimp only
      split_ifs
      · rfl
      · rw [load_cons, ← add_assoc, ← show cost = scalarCost x.1 from hsized]
        exact ih (size + cost)

/-! ## One call -/

section Call

variable (isFinite) (config : Config) (stream : List Row)

def Fits (ε : Type) (r : Reader ε) (row : Row) : Prop :=
  ∃ n, (Reader.rowSize isFinite config.readerChunkBytes 32 (row.zip r.columns) :
    Except (Bool × Err ε) ℤ) = .ok n ∧ r.metadataBytes + n ≤ config.readerChunkBytes

def Unsupported (r : Reader ε) (row : Row) : Prop :=
  ∃ err : Err ε, Reader.rowSize isFinite config.readerChunkBytes 32 (row.zip r.columns)
    = .error (false, err)

/-- **A limit is exceeded**, by the row after those that are `taken`. -/
def Exceeded (r : Reader ε) (taken : List Row) : Prop :=
  ∃ row rest, Cut stream taken (row :: rest) ∧
    (¬ Fits isFinite config ε r row ∨ taken.length = config.readerTotalRows ∨
      config.readerTotalBytes
        < r.metadataBytes + load (weight r.columns) taken + weight r.columns row)

/-- Nothing is said by the contexts and no error by the driver. -/
def Moment.quiet (m : Moment ε) : Prop :=
  m.ctx = none ∧ m.life = none ∧ m.reply = none ∧ m.ended = false

/-- **Why a call has failed.** -/
def Reason (moment : ℕ → Moment ε) (r : Reader ε) (taken : List Row) (err : Err ε) : Prop :=
  isLimit err = true ∧ Exceeded isFinite config stream r taken ∨
    isLimit err = false ∧ ((∃ row ∈ stream, Unsupported isFinite config r row) ∨
      ∃ i, ¬ (moment i).quiet)

/-- **What is counted**, with `rows` in this chunk and `done` in those before
it. -/
structure Tally (done rows : List Row) (r : Reader ε) : Prop where
  offset : r.progress.offset = done.length
  count : r.progress.rows = rows.length
  few : rows.length ≤ config.readerChunkRows
  bytes : r.progress.bytes = r.metadataBytes + load (weight r.columns) rows
  small : r.progress.bytes ≤ config.readerChunkBytes
  totalRows : r.progress.totalRows = (done ++ rows).length
  fewAll : r.progress.totalRows ≤ config.readerTotalRows
  totalBytes : r.progress.totalBytes = r.metadataBytes + load (weight r.columns) (done ++ rows)
  smallAll : r.progress.totalBytes ≤ config.readerTotalBytes
  unclosed : r.progress.closed = false
  ready : r.ready = true

/-- The row that is kept fits into a chunk of its own and under the limits of
the whole. -/
def Kept (r : Reader ε) : Prop :=
  ∀ x ∈ r.pending, x.2 = weight r.columns x.1 ∧
    r.metadataBytes + x.2 ≤ config.readerChunkBytes ∧
    r.progress.totalRows < config.readerTotalRows ∧
    r.progress.totalBytes + x.2 ≤ config.readerTotalBytes

/-- What is to come. -/
def Reader.ahead (r : Reader ε) : List Row := (r.pending.map Prod.fst).toList ++ r.rest

/-- **How `consume` ends.** -/
inductive Ends (moment : ℕ → Moment ε) (done : List Row) (c : Consumed ε) : Prop
  | more (err : c.err = none) (complete : c.reader.complete = false) (nonempty : c.rows ≠ [])
      (cut : Cut stream (done ++ c.rows) c.reader.ahead) (kept : Kept config c.reader)
      (reached : c.reached = none)
  | all (err : c.err = none) (complete : c.reader.complete = true)
      (cut : Cut stream (done ++ c.rows) []) (reached : c.reached = some false)
  | failed (e : Err ε) (err : c.err = some e) (complete : c.reader.complete = false)
      (le : done ++ c.rows <+: stream)
      (reason : Reason isFinite config stream moment c.reader (done ++ c.rows) e)
      (reached : c.reached ≠ some false)

/-- What is known in the loop. -/
structure Filling (done rows rest : List Row) (r : Reader ε) : Prop extends
    Tally config done rows r where
  cut : Cut stream (done ++ rows) rest
  pending : r.pending = none
  incomplete : r.complete = false

variable {isFinite config stream}

namespace Reader

/-! ### A round -/

variable {r : Reader ε} {m : Moment ε} {rows : List Row}

/-- A round begins with an error, with the end of a chunk or goes on. -/
theorem poll_spec (config : Config) (r : Reader ε) (m : Moment ε) (rows : List Row) :
    match r.poll config m rows with
    | some (some err) => isLimit err = false ∧ ¬ m.quiet
    | some none => rows.length = config.readerChunkRows
    | none => rows.length = config.readerChunkRows → r.totalBound config = true := by
  unfold poll
  split_ifs with hctx hlife hfull
  · exact ⟨rfl, fun hq => absurd hq.1 (Option.isSome_iff_ne_none.mp hctx)⟩
  · exact ⟨rfl, fun hq => absurd hq.2.1 (Option.isSome_iff_ne_none.mp hlife)⟩
  · exact of_decide_eq_true ((Bool.and_eq_true _ _).mp hfull).1
  · simpa using hfull

theorem interrupted_of_ended (native : Option (Err ε)) (h : m.ended = true) :
    ∃ e, m.interrupted native = some e ∧ isLimit e = false := by
  refine ⟨_, if_pos ?_, rfl⟩
  obtain ⟨c, hc⟩ | ⟨c, hc⟩ := (Bool.or_eq_true _ _).mp h |>.imp Option.isSome_iff_exists.mp
    Option.isSome_iff_exists.mp
  all_goals
    rw [hc]
    simp [Context.err]

/-- **A row is delivered, or there is a reason.** -/
theorem fetch_spec (isFinite : ℤ → Bool) (config : Config) (r : Reader ε) (m : Moment ε)
    (row : Row) : match r.fetch isFinite config m row with
    | .ok size => r.totalBound config = false ∧ size = weight r.columns row ∧
        r.metadataBytes + size ≤ config.readerChunkBytes ∧
        r.progress.totalBytes + size ≤ config.readerTotalBytes
    | .error (r', err) => (∃ limited, r' = { r with limited := limited }) ∧ ∃ e, err = some e ∧
        (isLimit e = true ∧ (r.totalBound config = true ∨ ¬ Fits isFinite config ε r row ∨
            config.readerTotalBytes < r.progress.totalBytes + weight r.columns row) ∨
          isLimit e = false ∧ (Unsupported isFinite config r row ∨ ¬ m.quiet)) := by
  unfold fetch
  by_cases hended : m.ended = true
  · obtain ⟨e, he, hlimit⟩ := interrupted_of_ended (m.reply.map .native) hended
    rw [if_pos hended]
    refine ⟨⟨r.limited, rfl⟩, e, he, .inr ⟨hlimit, .inr (fun hq => ?_)⟩⟩
    exact nomatch hended.symm.trans hq.2.2.2
  rw [if_neg hended]
  cases hreply : m.reply with
  | some =>
    refine ⟨⟨r.limited, rfl⟩, _, rfl, .inr ⟨rfl, .inr (fun hq => ?_)⟩⟩
    exact nomatch hreply.symm.trans hq.2.2.1
  | none =>
    by_cases hbound : r.totalBound config = true
    · rw [if_pos hbound]
      exact ⟨⟨true, rfl⟩, _, rfl, .inl ⟨rfl, .inl hbound⟩⟩
    rw [if_neg hbound]
    have hspec := rowSize_spec (ε := ε) isFinite config.readerChunkBytes 32
      (row.zip r.columns)
    cases hsize : (rowSize isFinite config.readerChunkBytes 32 (row.zip r.columns) :
      Except (Bool × Err ε) ℤ) with
    | error x =>
      obtain ⟨limited, e⟩ := x
      rw [hsize] at hspec
      refine ⟨⟨limited, rfl⟩, e, rfl, ?_⟩
      cases limited with
      | true =>
        refine .inl ⟨hspec, .inr (.inl ?_)⟩
        rintro ⟨n, hn, -⟩
        exact nomatch hsize.symm.trans hn
      | false => exact .inr ⟨hspec, .inl ⟨e, hsize⟩⟩
    | ok size =>
      rw [hsize] at hspec
      have hweight : size = weight r.columns row := hspec
      dsimp only
      by_cases hlong : config.readerChunkBytes - r.metadataBytes < size
      · rw [if_pos (by simp [hlong])]
        refine ⟨⟨true, rfl⟩, _, rfl, .inl ⟨rfl, .inr (.inl ?_)⟩⟩
        rintro ⟨n, hn, hle⟩
        cases hsize.symm.trans hn
        omega
      by_cases htotal : config.readerTotalBytes - r.progress.totalBytes < size
      · rw [if_pos (by simp [htotal])]
        refine ⟨⟨true, rfl⟩, _, rfl, .inl ⟨rfl, .inr (.inr ?_)⟩⟩
        omega
      · rw [if_neg (by simp [hlong, htotal])]
        refine ⟨eq_false_of_ne_true hbound, hweight, ?_, ?_⟩
        · omega
        · omega

end Reader

/-! ### The loop -/

/-- What `consume` has to show for itself. -/
structure Yields (isFinite : ℤ → Bool) (config : Config) (stream : List Row)
    (moment : ℕ → Moment ε) (done : List Row) (r : Reader ε) (c : Consumed ε) : Prop where
  tally : Tally config done c.rows c.reader
  ends : Ends isFinite config stream moment done c
  columns : c.reader.columns = r.columns
  metadata : c.reader.metadataBytes = r.metadataBytes

namespace Filling

variable {moment : ℕ → Moment ε} {done rows rest : List Row} {r : Reader ε} {i : ℕ}

/-- A chunk ends at its number of rows, or with a context. -/
theorem polled {err : Option (Err ε)} (h : Filling config stream done rows rest r)
    (hpoll : r.poll config (moment i) rows = some err) :
    Yields isFinite config stream moment done r ⟨{ r with rest := rest }, rows, err, none⟩ := by
  refine ⟨{ h.toTally with }, ?_, rfl, rfl⟩
  have hspec := r.poll_spec config (moment i) rows
  rw [hpoll] at hspec
  cases err with
  | some e => exact .failed e rfl h.incomplete h.cut.le (.inr ⟨hspec.1, .inr ⟨i, hspec.2⟩⟩) nofun
  | none =>
    refine .more rfl h.incomplete ?_ ?_ ?_ rfl
    · rintro rfl
      exact absurd hspec (Nat.ne_of_lt config.chunkRows_pos)
    · show Cut stream (done ++ rows) ((r.pending.map Prod.fst).toList ++ rest)
      rw [h.pending]
      exact h.cut
    · intro x hx
      rw [h.pending] at hx
      cases hx

/-- A limit that is exceeded by the next row. -/
theorem exceeded {row : Row} (h : Filling config stream done rows (row :: rest) r)
    (hwhy : r.totalBound config = true ∨ ¬ Fits isFinite config ε r row ∨
      config.readerTotalBytes < r.progress.totalBytes + weight r.columns row) :
    Exceeded isFinite config stream r (done ++ rows) := by
  refine ⟨row, rest, h.cut, ?_⟩
  have hpos := weight_pos r.columns row
  have htotal := h.totalBytes
  obtain hbound | hfit | hlong := hwhy
  · obtain hrows | hbytes := (Bool.or_eq_true _ _).mp hbound
    · exact .inr (.inl (h.totalRows.symm.trans (of_decide_eq_true hrows)))
    · have hbytes := of_decide_eq_true hbytes
      refine .inr (.inr ?_)
      omega
  · exact .inl hfit
  · refine .inr (.inr ?_)
    omega

theorem fetchEnd (h : Filling config stream done rows [] r) :
    Yields isFinite config stream moment done r
      (({ r with rest := [] } : Reader ε).fetchEnd (moment i) rows) := by
  unfold Reader.fetchEnd
  split
  · next hended =>
    obtain ⟨e, he, hlimit⟩ := interrupted_of_ended
      (((moment i).reply.map Fault.native).or (some .eof)) hended
    refine ⟨{ h.toTally with }, .failed e he h.incomplete h.cut.le (.inr ⟨hlimit, .inr ⟨i, ?_⟩⟩) ?_,
      rfl, rfl⟩
    · exact fun hq => nomatch hended.symm.trans hq.2.2.2
    · split
      · nofun
      · nofun
  split
  · next e hreply =>
    refine ⟨{ h.toTally with },
      .failed _ rfl h.incomplete h.cut.le (.inr ⟨rfl, .inr ⟨i, ?_⟩⟩) nofun,
      rfl, rfl⟩
    exact fun hq => nomatch hreply.symm.trans hq.2.2.1
  · exact ⟨{ h.toTally with }, .all rfl rfl h.cut rfl, rfl, rfl⟩

theorem take {row : Row} {size : ℤ} (h : Filling config stream done rows (row :: rest) r)
    (hroom : rows.length < config.readerChunkRows) (hsize : size = weight r.columns row)
    (hshort : r.progress.bytes + size ≤ config.readerChunkBytes)
    (hrows : r.progress.totalRows < config.readerTotalRows)
    (hbytes : r.progress.totalBytes + size ≤ config.readerTotalBytes) :
    Filling config stream done (rows ++ [row]) rest (r.take size) := by
  have hlen : (rows ++ [row]).length = rows.length + 1 := List.length_append
  have hload : load (weight r.columns) (rows ++ [row]) = load (weight r.columns) rows + size := by
    rw [load_append, load_cons, load_nil, add_zero, hsize]
  refine ⟨⟨h.offset, ?_, ?_, ?_, hshort, ?_, hrows, ?_, hbytes, h.unclosed, h.ready⟩, ?_, rfl,
    h.incomplete⟩
  · rw [hlen]
    exact congrArg (· + 1) h.count
  · rw [hlen]
    exact hroom
  · show r.progress.bytes + size = r.metadataBytes + load (weight r.columns) (rows ++ [row])
    rw [hload, h.bytes, add_assoc]
  · show r.progress.totalRows + 1 = (done ++ (rows ++ [row])).length
    rw [h.totalRows, List.length_append, List.length_append, hlen]
    rfl
  · show r.progress.totalBytes + size
      = r.metadataBytes + load (weight r.columns) (done ++ (rows ++ [row]))
    rw [h.totalBytes, load_append, load_append, hload]
    omega
  · rw [← List.append_assoc]
    exact Cut.advance h.cut

/-- **The loop.** The induction is on the rows of the driver; each round
without an end moves the first of them into the chunk. -/
theorem fill (h : Filling config stream done rows rest r) :
    Yields isFinite config stream moment done r
      (fill isFinite config moment rest i r rows) := by
  induction rest generalizing i r rows with
  | nil =>
    unfold fill
    split
    · next err hpoll => exact h.polled hpoll
    · exact h.fetchEnd
  | cons row rest ih =>
    unfold fill
    split
    · next err hpoll => exact h.polled hpoll
    next hpoll =>
    split
    · next r' err hfetch =>
      have hspec := ({ r with rest := rest } : Reader ε).fetch_spec isFinite config (moment i) row
      rw [hfetch] at hspec
      obtain ⟨⟨limited, rfl⟩, e, rfl, hwhy⟩ := hspec
      refine ⟨{ h.toTally with }, .failed e rfl h.incomplete h.cut.le ?_ nofun, rfl, rfl⟩
      obtain ⟨hlimit, hwhy⟩ | ⟨hlimit, hbad | hnoisy⟩ := hwhy
      · exact .inl ⟨hlimit, h.exceeded hwhy⟩
      · refine .inr ⟨hlimit, .inl ⟨row, ?_, hbad⟩⟩
        rw [← h.cut]
        exact List.mem_append_right _ (.head _)
      · exact .inr ⟨hlimit, .inr ⟨i, hnoisy⟩⟩
    · next size hfetch =>
      have hspec := ({ r with rest := rest } : Reader ε).fetch_spec isFinite config (moment i) row
      rw [hfetch] at hspec
      obtain ⟨hbound, hsize, hfits, hbytes⟩ := hspec
      have hfits : r.metadataBytes + size ≤ config.readerChunkBytes := hfits
      have hrows : r.progress.totalRows < config.readerTotalRows :=
        lt_of_le_of_ne h.fewAll (of_decide_eq_false (Bool.or_eq_false_iff.mp hbound).1)
      split
      · refine ⟨{ h.toTally with }, .more rfl h.incomplete ?_ h.cut ?_ rfl, rfl, rfl⟩
        · -- an empty chunk has room for every row that was not refused
          rintro rfl
          have hb := h.bytes
          rw [load_nil] at hb
          omega
        · rintro x hx
          cases hx
          exact ⟨hsize, hfits, hrows, hbytes⟩
      · have hroom : rows.length < config.readerChunkRows := by
          have hspec := r.poll_spec config (moment i) rows
          rw [hpoll] at hspec
          exact lt_of_le_of_ne h.few (fun hfull => nomatch (hspec hfull).symm.trans hbound)
        have hnext := ih (i := i + 1)
          (h.take hroom hsize (by omega) hrows hbytes)
        exact { hnext with }

end Filling

/-! ## Between calls -/

/-- **What is known between calls**, with the rows `done` delivered. -/
structure Open (config : Config) (stream done : List Row) (r : Reader ε) : Prop where
  cut : Cut stream done r.ahead
  totalRows : r.progress.totalRows = done.length
  fewAll : r.progress.totalRows ≤ config.readerTotalRows
  totalBytes : r.progress.totalBytes = r.metadataBytes + load (weight r.columns) done
  smallAll : r.progress.totalBytes ≤ config.readerTotalBytes
  metadata : r.metadataBytes ≤ config.readerChunkBytes
  kept : Kept config r
  unclosed : r.progress.closed = false
  ready : r.ready = true
  incomplete : r.complete = false

namespace Open

variable {moment : ℕ → Moment ε} {done : List Row} {r : Reader ε}

theorem tally (h : Open config stream done r) : Tally config done [] r.openChunk := by
  refine ⟨h.totalRows, rfl, Nat.zero_le _, (add_zero _).symm, h.metadata, ?_, h.fewAll, ?_,
    h.smallAll,
    h.unclosed, h.ready⟩
  · rw [List.append_nil]
    exact h.totalRows
  · rw [List.append_nil]
    exact h.totalBytes

theorem consume (h : Open config stream done r) :
    Yields isFinite config stream moment done r (r.openChunk.consume isFinite config moment) := by
  have hcut := h.cut
  unfold Reader.consume
  unfold ahead at hcut
  split
  · next hpending =>
    have hpending : r.pending = none := hpending
    rw [hpending] at hcut
    have hfill : Filling config stream done [] r.rest r.openChunk :=
      ⟨h.tally, by rw [List.append_nil]; exact hcut, hpending, h.incomplete⟩
    have hyields : Yields isFinite config stream moment done r.openChunk _ := hfill.fill (i := 0)
    exact { hyields with }
  · next row size hpending =>
    have hpending : r.pending = some (row, size) := hpending
    rw [hpending] at hcut
    obtain ⟨hsize, hshort, hrows, hbytes⟩ := h.kept (row, size) hpending
    split
    · next err hpoll =>
      have hspec := r.openChunk.poll_spec config (moment 0) []
      rw [hpoll] at hspec
      cases err with
      | some e =>
        refine ⟨h.tally, .failed e rfl h.incomplete ?_ (.inr ⟨hspec.1, .inr ⟨0, hspec.2⟩⟩) nofun,
          rfl, rfl⟩
        rw [List.append_nil]
        exact hcut.le
      | none => exact absurd hspec (Nat.ne_of_lt config.chunkRows_pos)
    · rw [if_neg (by have : r.openChunk.progress.bytes = r.metadataBytes := rfl; omega)]
      have hkeep : Filling config stream done ([] ++ [row]) r.rest (r.openChunk.take size) := by
        have hdrop : Filling config stream done [] (row :: r.rest)
            ({ r.openChunk with pending := none } : Reader ε) := by
          refine ⟨{ h.tally with }, ?_, rfl, h.incomplete⟩
          rw [List.append_nil]
          exact hcut
        exact hdrop.take config.chunkRows_pos hsize hshort hrows hbytes
      have hyields : Yields isFinite config stream moment done (r.openChunk.take size) _ :=
        hkeep.fill (i := 1)
      exact { hyields with }

theorem budget (h : Open config stream done r) (err : ε) :
    Yields isFinite config stream (fun _ => ⟨none, none, some err, none, none⟩) done r
      ⟨r.openChunk, [], some (.native err), none⟩ := by
  refine ⟨h.tally, .failed _ rfl h.incomplete ?_ (.inr ⟨rfl, .inr ⟨0, fun hq => ?_⟩⟩) nofun,
    rfl, rfl⟩
  · rw [List.append_nil]
    exact h.cut.le
  · exact absurd hq.2.2.1 nofun

end Open

def Action.receipt? : Action ε → Option (Receipt ε)
  | .receipt c => some c
  | _ => none

def receipts (log : List (Action ε)) : List (Receipt ε) := log.filterMap Action.receipt?

/-- **The rows that have been delivered.** -/
def delivered (cs : List (Receipt ε)) : List Row := cs.flatMap Receipt.rows

theorem delivered_concat (cs : List (Receipt ε)) (c : Receipt ε) :
    delivered (cs ++ [c]) = delivered cs ++ c.rows := by
  unfold delivered
  rw [List.flatMap_append, List.flatMap_singleton]

/-- **What holds of a receipt**, after those before it. -/
structure Good (isFinite : ℤ → Bool) (config : Config) (stream : List Row) (r : Reader ε)
    (before : List (Receipt ε)) (c : Receipt ε) : Prop where
  offset : c.progress.offset = (delivered before).length
  few : c.rows.length ≤ config.readerChunkRows
  bytes : c.progress.bytes = r.metadataBytes + load (weight r.columns) c.rows
  small : c.progress.bytes ≤ config.readerChunkBytes
  nonempty : c.primary = none → c.complete = false → c.rows ≠ []
  whole : c.complete = true → c.primary = none ∧ delivered before ++ c.rows = stream
  limit : ∀ e, c.primary = some e → isLimit e = true →
    Exceeded isFinite config stream r (delivered before ++ c.rows)

/-- **What a run knows about its reader.** -/
structure Track (isFinite : ℤ → Bool) (config : Config) (stream : List Row) (log : List (Action ε))
    (r : Reader ε) : Prop where
  each : Each (Good isFinite config stream r) (receipts log)
  le : delivered (receipts log) <+: stream
  few : (delivered (receipts log)).length ≤ config.readerTotalRows
  small : r.metadataBytes + load (weight r.columns) (delivered (receipts log))
    ≤ config.readerTotalBytes
  complete : (∃ c ∈ receipts log, c.complete = true) ↔ .reached false ∈ log
  alive : r.ready = true → r.progress.closed = false →
    Open config stream (delivered (receipts log)) r
  fresh : r.ready = false → log = [] ∧ r = .init stream

theorem receipts_append (log more : List (Action ε)) :
    receipts (log ++ more) = receipts log ++ receipts more := List.filterMap_append

section Steps

variable {log : List (Action ε)} {r r' : Reader ε}

/-- What is said of a receipt depends on the columns only. -/
theorem Good.congr {before : List (Receipt ε)} {c : Receipt ε}
    (h : Good isFinite config stream r before c) (hcolumns : r'.columns = r.columns)
    (hmetadata : r'.metadataBytes = r.metadataBytes) : Good isFinite config stream r' before c := by
  refine ⟨h.offset, h.few, ?_, h.small, h.nonempty, h.whole, fun e he hl => ?_⟩
  · rw [hcolumns, hmetadata]
    exact h.bytes
  · have := h.limit e he hl
    unfold Exceeded Fits at this ⊢
    rw [hcolumns, hmetadata]
    exact this

/-- A receipt shows what a call has come to, and the reader is as before or
closed. -/
structure Shows (c : Consumed ε) (s : Reader ε) (x : Receipt ε) : Prop where
  rows : x.rows = c.rows
  offset : x.progress.offset = c.reader.progress.offset
  bytes : x.progress.bytes = c.reader.progress.bytes
  complete : x.complete = c.reader.complete
  primary : x.primary = c.err
  columns : s.columns = c.reader.columns
  metadata : s.metadataBytes = c.reader.metadataBytes
  ready : s.ready = c.reader.ready
  alive : s.progress.closed = false → c.err = none ∧ c.reader.complete = false ∧ s = c.reader

section Outcome

variable {moment : ℕ → Moment ε} {c : Consumed ε} {s : Reader ε} {x : Receipt ε}

theorem Yields.good {before : List (Receipt ε)}
    (hc : Yields isFinite config stream moment (delivered before) r c) (hx : Shows c s x) :
    Good isFinite config stream s before x := by
  refine ⟨hx.offset.trans hc.tally.offset, ?_, ?_, ?_, ?_, ?_, ?_⟩
  all_goals simp only [hx.rows, hx.bytes, hx.complete, hx.primary, hx.columns, hx.metadata]
  · exact hc.tally.few
  · exact hc.tally.bytes
  · exact hc.tally.small
  · intro hp hf
    cases hc.ends with
    | more _ _ hne => exact hne
    | all _ ht => exact nomatch hf.symm.trans ht
    | failed e he => exact nomatch hp.symm.trans he
  · intro ht
    cases hc.ends with
    | more _ hf | failed _ _ hf => exact nomatch ht.symm.trans hf
    | all he _ hcut => exact ⟨he, hcut.whole⟩
  · intro e he hl
    cases hc.ends with
    | more he' | all he' => exact nomatch he.symm.trans he'
    | failed e' he' _ _ hreason =>
      cases he.symm.trans he'
      obtain ⟨-, hex⟩ | ⟨hl', -⟩ := hreason
      · unfold Exceeded Fits at hex ⊢
        rw [hx.columns, hx.metadata]
        exact hex
      · exact nomatch hl.symm.trans hl'

theorem Yields.goesOn {done : List Row} (hc : Yields isFinite config stream moment done r c)
    (hr : Open config stream done r) (he : c.err = none) (hf : c.reader.complete = false) :
    Open config stream (done ++ c.rows) c.reader := by
  cases hc.ends with
  | all _ ht => exact nomatch hf.symm.trans ht
  | failed e he' => exact nomatch he.symm.trans he'
  | more _ _ _ hcut hkept =>
    refine ⟨hcut, hc.tally.totalRows, hc.tally.fewAll, hc.tally.totalBytes, hc.tally.smallAll, ?_,
      hkept, hc.tally.unclosed, hc.tally.ready, hf⟩
    rw [hc.metadata]
    exact hr.metadata

theorem Track.deliver {actions : List (Action ε)} (h : Track isFinite config stream log r)
    (hr : Open config stream (delivered (receipts log)) r)
    (hc : Yields isFinite config stream moment (delivered (receipts log)) r c) (hx : Shows c s x)
    (hnone : receipts actions = [])
    (hreached : .reached false ∈ actions ↔ c.reader.complete = true) :
    Track isFinite config stream (log ++ (actions ++ [.receipt x])) s := by
  have hreceipts : receipts (log ++ (actions ++ [.receipt x])) = receipts log ++ [x] := by
    rw [receipts_append, receipts_append, hnone]
    rfl
  have hdelivered : delivered (receipts log ++ [x]) = delivered (receipts log) ++ c.rows := by
    rw [delivered_concat, hx.rows]
  have hold : Each (Good isFinite config stream s) (receipts log) := h.each.imp (fun _ _ hg =>
    hg.congr (hx.columns.trans hc.columns) (hx.metadata.trans hc.metadata))
  refine ⟨?_, ?_, ?_, ?_, ?_, fun _ hclosed => ?_, fun hf => ?_⟩
  · rw [hreceipts]
    exact hold.concat (hc.good hx)
  · rw [hreceipts, hdelivered]
    cases hc.ends with
    | more _ _ _ hcut | all _ _ hcut => exact hcut.le
    | failed _ _ _ hle => exact hle
  · rw [hreceipts, hdelivered, ← hc.tally.totalRows]
    exact hc.tally.fewAll
  · rw [hreceipts, hdelivered, hx.columns, hx.metadata, ← hc.tally.totalBytes]
    exact hc.tally.smallAll
  · rw [hreceipts]
    simp only [List.mem_append, List.mem_singleton, reduceCtorEq, or_false, hreached, ← h.complete,
      or_and_right, exists_or, exists_eq_left, hx.complete]
  · obtain ⟨he, hf, rfl⟩ := hx.alive hclosed
    rw [hreceipts, hdelivered]
    exact hc.goesOn hr he hf
  · exact nomatch (hx.ready.trans hc.tally.ready).symm.trans hf

theorem Track.conclude (h : Track isFinite config stream log r)
    (hr : Open config stream (delivered (receipts log)) r)
    (hc : Yields isFinite config stream moment (delivered (receipts log)) r c)
    (cleanup : Option (Err ε)) :
    Track isFinite config stream (log ++ (conclude c cleanup).actions)
      (conclude c cleanup).state := by
  have hunclosed := hc.tally.unclosed
  unfold Reader.conclude Reader.finish
  rw [hunclosed]
  cases hc.ends with
  | more he hf _ _ _ hreached =>
    rw [if_neg (by rw [he, hf]; nofun), hreached]
    refine h.deliver hr hc ⟨rfl, rfl, rfl, rfl, rfl, rfl, rfl, rfl, fun _ => ⟨he, hf, rfl⟩⟩ rfl ?_
    simp [hf]
  | all he ht _ hreached =>
    rw [if_pos (by rw [he, ht]; rfl), hreached]
    refine h.deliver hr hc ⟨rfl, rfl, rfl, rfl, rfl, rfl, rfl, rfl, nofun⟩ rfl ?_
    simp [ht]
  | failed e he hf _ _ hreached =>
    rw [if_pos (by rw [he]; rfl)]
    refine h.deliver hr hc ⟨rfl, rfl, rfl, rfl, rfl, rfl, rfl, rfl, nofun⟩ ?_ ?_
    · cases c.reached with
      | none | some => rfl
    · cases hb : c.reached with
      | none => simp [hf]
      | some b =>
        rw [hb] at hreached
        cases b with
        | false => exact absurd rfl hreached
        | true => simp [hf]

end Outcome

theorem Track.quiet {s : Reader ε} {actions : List (Action ε)}
    (h : Track isFinite config stream log r) (hready : r.ready = true)
    (hnone : receipts actions = []) (hreached : .reached false ∉ actions)
    (hsame : s.columns = r.columns ∧ s.metadataBytes = r.metadataBytes ∧ s.ready = true)
    (halive : s.progress.closed = false → s = r) :
    Track isFinite config stream (log ++ actions) s := by
  obtain ⟨hcolumns, hmetadata, hsready⟩ := hsame
  have hreceipts : receipts (log ++ actions) = receipts log := by
    rw [receipts_append, hnone, List.append_nil]
  refine ⟨?_, ?_, ?_, ?_, ?_, fun _ hclosed => ?_, fun hf => nomatch hsready.symm.trans hf⟩
  all_goals rw [hreceipts]
  · exact h.each.imp (fun _ _ hg => hg.congr hcolumns hmetadata)
  · exact h.le
  · exact h.few
  · rw [hcolumns, hmetadata]
    exact h.small
  · rw [h.complete, List.mem_append, or_iff_left hreached]
  · obtain rfl := halive hclosed
    exact h.alive hready hclosed

theorem Track.finish (h : Track isFinite config stream log r) (hready : r.ready = true)
    (primary cleanup : Option (Err ε)) :
    Track isFinite config stream (log ++ (r.finish primary cleanup).actions)
      (r.finish primary cleanup).state := by
  unfold Reader.finish
  split
  · exact h.quiet hready rfl nofun ⟨rfl, rfl, hready⟩ (fun _ => rfl)
  · refine h.quiet hready rfl ?_ ⟨rfl, rfl, hready⟩ nofun
    simp

theorem Track.next (h : Track isFinite config stream log r) (hready : r.ready = true)
    (admission : Option (Err ε)) (budget : Option ε) (moment : ℕ → Moment ε)
    (cleanup : Option (Err ε)) :
    Track isFinite config stream
      (log ++ (r.next isFinite config admission budget moment cleanup).actions)
      (r.next isFinite config admission budget moment cleanup).state := by
  unfold Reader.next
  split
  · refine h.quiet hready rfl ?_ ⟨rfl, rfl, hready⟩ (fun _ => rfl)
    simp
  next hclosed =>
  have hr := h.alive hready (eq_false_of_ne_true hclosed)
  split
  · refine h.quiet hready rfl ?_ ⟨rfl, rfl, hready⟩ (fun _ => rfl)
    simp
  · next err => exact h.conclude hr (hr.budget err) cleanup
  · exact h.conclude hr hr.consume cleanup

/-! ### Setup -/

theorem Schema.read_bytes_le {columns : List Column} {x : Schema ε}
    (h : x.bytes ≤ min config.readerChunkBytes config.readerTotalBytes) :
    (x.read config columns).bytes ≤ min config.readerChunkBytes config.readerTotalBytes := by
  induction columns generalizing x with
  | nil => exact h
  | cons column columns ih =>
    unfold Schema.read
    split
    · exact h
    dsimp only
    split
    · exact h
    · refine ih ?_
      dsimp only
      omega

theorem openSchema_bytes_le (columns : List Column) :
    (openSchema config columns : Schema ε).bytes
      ≤ min config.readerChunkBytes config.readerTotalBytes := by
  have hchunk := config.le_chunkBytes
  have htotal := config.le_totalBytes
  have hzero : (0 : ℤ) ≤ min config.readerChunkBytes config.readerTotalBytes := by omega
  unfold openSchema
  split
  · exact hzero
  · exact Schema.read_bytes_le hzero

theorem track_ready {s : Reader ε} {actions : List (Action ε)} (hnone : receipts actions = [])
    (hreached : .reached false ∉ actions) (hready : s.ready = true)
    (hsmall : s.metadataBytes ≤ config.readerTotalBytes)
    (halive : s.progress.closed = false → Open config stream [] s) :
    Track isFinite config stream actions s := by
  refine ⟨?_, ?_, ?_, ?_, ?_, fun _ hclosed => ?_, fun hf => nomatch hready.symm.trans hf⟩
  all_goals rw [hnone]
  · exact .nil
  · exact List.nil_prefix
  · exact Nat.zero_le _
  · exact (add_zero _).trans_le hsmall
  · exact ⟨nofun, fun hmem => absurd hmem hreached⟩
  · exact halive hclosed

/-- **`open`** leaves a reader that has delivered nothing. -/
theorem open_openRows (columns : List Column) (early : Option (Err ε)) :
    let opened := ({ init stream with ready := true } : Reader ε).openRows config columns early
    opened.1.ready = true ∧ opened.1.progress.closed = false
      ∧ opened.1.metadataBytes ≤ config.readerTotalBytes
      ∧ (opened.2 = none → Open config stream [] opened.1) := by
  have hbytes : (openSchema config columns : Schema ε).bytes
      ≤ min config.readerChunkBytes config.readerTotalBytes := openSchema_bytes_le columns
  have htotal := config.le_totalBytes
  unfold openRows
  split
  · refine ⟨rfl, rfl, ?_, nofun⟩
    show (0 : ℤ) ≤ _
    omega
  dsimp only
  split
  · refine ⟨rfl, rfl, ?_, nofun⟩
    dsimp only
    omega
  · refine ⟨rfl, rfl, ?_, fun _ => ⟨.start stream, rfl, Nat.zero_le _, (add_zero _).symm, ?_, ?_,
      nofun, rfl, rfl, rfl⟩⟩
    all_goals
      dsimp only
      omega

theorem eq_none_of_joined {c : Bool} {kind : Kind} {operation : String} {err : Option (Err ε)}
    {more : List (Option (Err ε))}
    (h : (if c then joined kind operation (err :: more) else err) = none) : err = none := by
  cases err with
  | none => rfl
  | some err =>
    cases c
    · exact nomatch h
    · exact nomatch h

theorem track_setup (budget : Option ε) (columns : List Column) (early : Option (Err ε))
    (phase life : Ctx ε) (cleanup : Option (Err ε)) :
    Track isFinite config stream
      ((init stream).setup config budget columns early phase life cleanup).actions
      ((init stream).setup config budget columns early phase life cleanup).state := by
  have htotal := config.le_totalBytes
  have hfail : ∀ (s : Reader ε) (primary : Option (Err ε)), s.ready = true →
      s.progress.closed = false → s.metadataBytes ≤ config.readerTotalBytes →
      Track isFinite config stream (s.finish primary cleanup).actions
        (s.finish primary cleanup).state := by
    intro s primary hready hclosed hsmall
    unfold finish
    rw [hclosed]
    refine track_ready rfl ?_ hready hsmall nofun
    simp
  obtain ⟨hready, hclosed, hsmall, hopen⟩ :
      let opened := ({ init stream with ready := true } : Reader ε).openRows config columns early
      _ ∧ _ ∧ _ ∧ (_ → Open config stream [] opened.1) := open_openRows columns early
  unfold setup
  cases budget with
  | some err =>
    refine hfail _ _ rfl rfl ?_
    show (0 : ℤ) ≤ _
    omega
  | none =>
    dsimp only
    split
    · exact hfail _ _ hready hclosed hsmall
    · next herr =>
      exact track_ready rfl nofun hready hsmall (fun _ =>
        hopen (eq_none_of_joined (eq_none_of_joined herr)))

/-! ## Runs -/

theorem Track.turn (h : Track isFinite config stream log r) {l : Event ε} {t : Turn ε}
    (ht : r.turn isFinite config l = some t) :
    Track isFinite config stream (log ++ t.actions) t.state := by
  cases l with
  | setup budget columns early phase life cleanup =>
    obtain ⟨hready, rfl⟩ := of_guard_not ht
    obtain ⟨rfl, rfl⟩ := h.fresh (eq_false_of_ne_true hready)
    exact track_setup budget columns early phase life cleanup
  | next admission budget moment cleanup =>
    obtain ⟨hready, rfl⟩ := of_guard ht
    exact h.next hready admission budget moment cleanup
  | expire life cleanup | close life cleanup =>
    obtain ⟨hready, rfl⟩ := of_guard ht
    exact h.finish hready _ cleanup

theorem track_of_run {tr : List (Event ε)}
    (hr : (machine isFinite config stream).machine.Run tr r) :
    Track isFinite config stream ((machine isFinite config stream).log tr) r := by
  have h0 : Track isFinite config stream [] (init stream : Reader ε) := by
    have htotal := config.le_totalBytes
    refine ⟨.nil, List.nil_prefix, Nat.zero_le _, ?_, ⟨nofun, nofun⟩, nofun, fun _ => ⟨rfl, rfl⟩⟩
    show (0 : ℤ) + 0 ≤ _
    omega
  exact Mealy.log_invariant h0 (fun h => h.turn) hr

/-! ## Results within the limits -/

/-- **A result is within the limits**: those of the whole, and its rows those
of a chunk. -/
def Within (isFinite : ℤ → Bool) (config : Config) (stream : List Row) (r : Reader ε) : Prop :=
  stream.length ≤ config.readerTotalRows ∧
    r.metadataBytes + load (weight r.columns) stream ≤ config.readerTotalBytes ∧
    ∀ row ∈ stream, Fits isFinite config ε r row

theorem Within.not_exceeded (h : Within isFinite config stream r) (taken : List Row) :
    ¬ Exceeded isFinite config stream r taken := by
  rintro ⟨row, rest, rfl, hwhy⟩
  obtain ⟨hfew, hsmall, hfits⟩ := h
  obtain hfit | hlen | hlong := hwhy
  · exact hfit (hfits row (List.mem_append_right _ (.head _)))
  · rw [List.length_append, List.length_cons] at hfew
    omega
  · have hrest := load_nonneg (fun row => (weight_pos r.columns row).le) rest
    rw [load_append, load_cons] at hsmall
    omega

def calm : ℕ → Moment ε := fun _ => ⟨none, none, none, none, none⟩

def calmNext : Event ε := .next none none calm none

/-- **A call that nothing disturbs does not fail.** -/
theorem Open.calm_ends {done : List Row} (hr : Open config stream done r)
    (hw : Within isFinite config stream r) :
    (r.openChunk.consume isFinite config calm).err = none := by
  have hc : Yields isFinite config stream calm done r (r.openChunk.consume isFinite config calm) :=
    hr.consume
  cases hc.ends with
  | more he | all he => exact he
  | failed e _ _ _ hreason =>
    exfalso
    obtain ⟨-, hex⟩ | ⟨-, ⟨row, hrow, hbad⟩ | ⟨i, hnoisy⟩⟩ := hreason
    · refine hw.not_exceeded (done ++ (r.openChunk.consume isFinite config calm).rows) ?_
      unfold Exceeded Fits at hex ⊢
      rw [← hc.columns, ← hc.metadata]
      exact hex
    · obtain ⟨err, herr⟩ := hbad
      obtain ⟨n, hn, -⟩ := hw.2.2 row hrow
      rw [hc.columns] at herr
      exact nomatch herr.symm.trans hn
    · exact hnoisy ⟨rfl, rfl, rfl, rfl⟩

theorem exec_closed (hready : r.ready = true) (hclosed : r.progress.closed = true) (n : ℕ) :
    (machine isFinite config stream).machine.exec r (List.replicate n calmNext) = some r := by
  induction n with
  | zero => rfl
  | succ n ih =>
    have hstep : (machine isFinite config stream).machine.step r calmNext = some r := by
      refine Mealy.step_eq_some.mpr ⟨_, if_pos hready, ?_⟩
      unfold next
      rw [if_pos hclosed]
    rw [List.replicate_succ, Machine.exec_cons, hstep]
    exact ih

/-- **A call that nothing disturbs** reports the end or delivers a row. -/
theorem Open.calm_step {done : List Row} (hr : Open config stream done r)
    (hw : Within isFinite config stream r) :
    ∃ r', (machine isFinite config stream).machine.step r calmNext = some r' ∧
      (r'.complete = true ∧ r'.ready = true ∧ r'.progress.closed = true ∨
        ∃ done', Open config stream done' r' ∧ Within isFinite config stream r' ∧
          r'.ahead.length < r.ahead.length) := by
  have hc : Yields isFinite config stream calm done r (r.openChunk.consume isFinite config calm) :=
    hr.consume
  have herr := hr.calm_ends hw
  have hstep : (machine isFinite config stream).machine.step r calmNext
      = some (conclude (r.openChunk.consume isFinite config calm) none).state := by
    refine Mealy.step_eq_some.mpr ⟨_, if_pos hr.ready, ?_⟩
    unfold next
    rw [hr.unclosed]
    rfl
  generalize r.openChunk.consume isFinite config calm = c at hc herr hstep
  refine ⟨_, hstep, ?_⟩
  unfold conclude finish
  rw [herr, hc.tally.unclosed]
  cases hc.ends with
  | failed e he => exact nomatch herr.symm.trans he
  | all _ ht =>
    rw [ht]
    exact .inl ⟨rfl, hc.tally.ready, rfl⟩
  | more _ hf hne hcut =>
    rw [hf]
    refine .inr ⟨done ++ c.rows, hc.goesOn hr herr hf, ?_, ?_⟩
    · obtain ⟨hfew, hsmall, hfits⟩ := hw
      show Within isFinite config stream c.reader
      unfold Within Fits at *
      rw [hc.columns, hc.metadata]
      exact ⟨hfew, hsmall, hfits⟩
    · have hsplit : r.ahead = c.rows ++ c.reader.ahead := by
        have heq := hr.cut.trans hcut.symm
        rw [List.append_assoc] at heq
        exact List.append_cancel_left heq
      have hpos := List.length_pos_iff.mpr hne
      rw [hsplit, List.length_append]
      show c.reader.ahead.length < _
      omega

/-- **A result within the limits is completed**, by one call more than there
are rows to come. -/
theorem exec_calm {done : List Row} {n : ℕ} (hr : Open config stream done r)
    (hw : Within isFinite config stream r) (hn : r.ahead.length < n) :
    ∃ r', (machine isFinite config stream).machine.exec r (List.replicate n calmNext)
      = some r' ∧ r'.complete = true := by
  induction n generalizing r done with
  | zero => cases hn
  | succ n ih =>
    obtain ⟨r', hstep, hnext⟩ := hr.calm_step hw
    rw [List.replicate_succ, Machine.exec_cons, hstep]
    obtain ⟨hcomplete, hready, hclosed⟩ | ⟨done', hr', hw', hlt⟩ := hnext
    · exact ⟨r', exec_closed hready hclosed n, hcomplete⟩
    · exact ih hr' hw' (hlt.trans_le (Nat.le_of_lt_succ hn))

/-- **Chunks are the result, cut.** In every run – whatever is refused,
cancelled or fails – the rows of all receipts are the first ones of the
result, in order, and the offset of a chunk is the number of rows before it.
A call without an error that does not complete delivers a chunk that is not
empty and within its limits. The limits of the whole are kept. `Complete` is
reported if the driver has reported the end while no context had ended, and
then everything has been delivered. A result within the limits does not fail
because of them, and calls that nothing disturbs complete it; and a limit
only fails a call if there is another row. -/
theorem chunks_are_result {tr : List (Event ε)}
    (hr : (Reader.machine isFinite config stream).machine.Run tr r) :
    let log := (Reader.machine isFinite config stream).log tr
    delivered (receipts log) <+: stream ∧
    Each (fun before c => c.progress.offset = (delivered before).length) (receipts log) ∧
    (∀ c ∈ receipts log, c.primary = none → c.complete = false → 1 ≤ c.rows.length ∧
      c.rows.length ≤ config.readerChunkRows ∧
      r.metadataBytes + load (weight r.columns) c.rows ≤ config.readerChunkBytes) ∧
    (delivered (receipts log)).length ≤ config.readerTotalRows ∧
    r.metadataBytes + load (weight r.columns) (delivered (receipts log))
      ≤ config.readerTotalBytes ∧
    ((∃ c ∈ receipts log, c.complete = true) ↔ .reached false ∈ log) ∧
    ((∃ c ∈ receipts log, c.complete = true) → delivered (receipts log) = stream) ∧
    (Within isFinite config stream r →
      (∀ c ∈ receipts log, ∀ e, c.primary = some e → isLimit e = false) ∧
      (r.ready = true → r.progress.closed = false →
        ∃ r', (Reader.machine isFinite config stream).machine.exec r
          (List.replicate (stream.length + 1) calmNext) = some r' ∧ r'.complete = true)) ∧
    Each (fun before c => ∀ e, c.primary = some e → isLimit e = true →
      (delivered before ++ c.rows).length < stream.length) (receipts log) := by
  intro log
  have h : Track isFinite config stream log r := track_of_run hr
  refine ⟨h.le, h.each.imp (fun _ _ hg => hg.offset), fun c hc hp hf => ?_, h.few, h.small,
    h.complete,
    fun ⟨c, hc, ht⟩ => ?_, fun hw => ⟨fun c hc e he => ?_, fun hready hclosed => ?_⟩,
    h.each.imp (fun before c hg e he hl => ?_)⟩
  · obtain ⟨before, hg⟩ := h.each.of_mem hc
    refine ⟨List.length_pos_iff.mpr (hg.nonempty hp hf), hg.few, ?_⟩
    rw [← hg.bytes]
    exact hg.small
  · exact h.each.whole h.le hc (fun _ hg => (hg.whole ht).2)
  · obtain ⟨before, hg⟩ := h.each.of_mem hc
    by_contra hl
    exact hw.not_exceeded _ (hg.limit e he (eq_true_of_ne_false hl))
  · have hopen := h.alive hready hclosed
    refine exec_calm hopen hw ?_
    rw [← hopen.cut, List.length_append]
    omega
  · obtain ⟨row, rest, hcut, -⟩ := hg.limit e he hl
    have hlen : (delivered before ++ c.rows ++ row :: rest).length = stream.length :=
      congrArg List.length hcut
    rw [List.length_append, List.length_cons] at hlen
    omega

end Steps

end Call

/-! ### Examples -/

def sampleConfig : Config where
  readerChunkRows := 1
  readerChunkBytes := 1024
  readerTotalRows := 2
  readerTotalBytes := 1024
  chunkRows_pos := le_rfl
  chunkRows_le := by decide
  le_chunkBytes := Int.le_refl _
  chunkBytes_le := by decide
  totalRows_pos := Nat.le_succ 1
  totalRows_le := by decide
  le_totalBytes := Int.le_refl _
  totalBytes_le := by decide

def sampleSetup : Event Empty := .setup none [⟨"n", "INTEGER"⟩] none none none none

def sampleEnds : Event Empty :=
  .next none none (fun _ => ⟨none, none, none, some ⟨.canceled, .canceled⟩, none⟩) none

/-- Two rows meet the limit and are all. -/
theorem chunks_are_two_rows :
    ∃ r : Reader Empty, (Reader.machine (fun _ => true) sampleConfig
      [[.fixed 1], [.fixed 2]]).machine.Run [sampleSetup, calmNext, calmNext] r ∧
      r.complete = true ∧
      delivered (receipts ((Reader.machine (fun _ => true) sampleConfig
        [[.fixed 1], [.fixed 2]]).log [sampleSetup, calmNext, calmNext]))
        = [[.fixed 1], [.fixed 2]] := by
  have hr := (Reader.machine (fun _ => true) sampleConfig
    [[.fixed 1], [.fixed 2]]).machine.run_reached
    [sampleSetup, calmNext, calmNext] (by decide +kernel)
  refine ⟨_, hr, by decide +kernel, ?_⟩
  obtain ⟨-, -, -, -, -, hcomplete, hwhole, -⟩ := chunks_are_result hr
  exact hwhole (by decide +kernel)

/-- **The end is reached and `Complete` is not reported**: the context of the
call has ended in the meantime. -/
theorem reached_not_complete :
    ∃ r : Reader Empty,
      (Reader.machine (fun _ => true) sampleConfig []).machine.Run [sampleSetup, sampleEnds] r ∧
      .reached true
        ∈ (Reader.machine (fun _ => true) sampleConfig []).log [sampleSetup, sampleEnds] ∧
      ∀ c ∈ receipts ((Reader.machine (fun _ => true) sampleConfig []).log
        [sampleSetup, sampleEnds]), c.complete = false := by
  have hr := (Reader.machine (fun _ => true) sampleConfig []).machine.run_reached
    [sampleSetup, sampleEnds] (by decide +kernel)
  exact ⟨_, hr, List.mem_of_getElem? (i := 0) rfl, by decide +kernel⟩

end Duckdb
