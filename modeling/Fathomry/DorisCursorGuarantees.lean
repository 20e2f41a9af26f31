import Fathomry.DorisCursor
import Fathomry.Paging

/-!
# Pages are the result, cut

Between two calls of `Next` the rows that have been handed out, the row that
is kept and the rows that the driver still has are the result (`Open`). The
row that is kept has been compared with what a page has beside the metadata,
so the next page begins with it; this is why no page without an end is empty.
-/

namespace Doris

open Paging

variable {ε : Type}

def rowBytes (row : Row) : ℤ := load (fun c => (c.text.length : ℤ)) row

def cellOf (formats : Formats) (value : Value) : Cell := (cell formats value).getD ⟨[], true⟩

/-- **The row of the driver as a text.** -/
def rowOf (formats : Formats) (values : List Value) : Row := values.map (cellOf formats)

theorem cells_ok {formats : Formats} {row row' : Row} {size bytes : ℤ} {values : List Value}
    (h : (cells formats row size values : Except (Err ε) (Row × ℤ)) = .ok (row', bytes)) :
    row' = row ++ rowOf formats values ∧ bytes = size + rowBytes (rowOf formats values) := by
  induction values generalizing row size with
  | nil =>
    cases h
    exact ⟨(List.append_nil _).symm, (add_zero _).symm⟩
  | cons value values ih =>
    unfold cells at h
    split at h
    · cases h
    · next c hc =>
      obtain ⟨rfl, rfl⟩ := ih h
      have hcell : cellOf formats value = c := by
        unfold cellOf
        rw [hc]
        rfl
      have hrow : rowOf formats (value :: values) = c :: rowOf formats values := by
        rw [← hcell]
        rfl
      rw [hrow]
      refine ⟨List.append_cons _ _ _ |>.symm, ?_⟩
      unfold rowBytes
      rw [load_cons, add_assoc]

/-- A row that the driver has and the cursor can hand out: its values are
supported, and it fits into a page of its own. -/
def Fits (ε : Type) (formats : Formats) (settings : Settings) (c : Cursor) (values : List Value) :
    Prop :=
  ∃ x, (cells formats [] 0 values : Except (Err ε) (Row × ℤ)) = .ok x ∧
    c.metadataBytes + x.2 ≤ settings.maxPageBytes

/-! ## One call -/

section Call

variable (formats : Formats) (settings : Settings) (stream : List (List Value))

def texts : List Row := stream.map (rowOf formats)

/-- What is to come. -/
def Cursor.ahead (c : Cursor) : List Row := (c.pending.map Prod.fst).toList ++ texts formats c.rest

def Kept (c : Cursor) : Prop :=
  ∀ x ∈ c.pending, x.2 = rowBytes x.1 ∧ c.metadataBytes + x.2 ≤ settings.maxPageBytes

/-- What is known of a page. -/
structure Tally (rows : List Row) (c : Cursor) : Prop where
  few : rows.length ≤ settings.maxPageRows
  small : c.metadataBytes + load rowBytes rows ≤ settings.maxPageBytes
  unclosed : c.closed = false
  ready : c.ready = true

/-- **How the loop of `Next` ends.** -/
inductive Ends (native : ℕ → Option ε) (done : List Row) (f : Filled ε) : Prop
  | more (primary : f.primary = none) (complete : f.complete = false) (nonempty : f.rows ≠ [])
      (cut : Cut (texts formats stream) (done ++ f.rows) (f.cursor.ahead formats))
      (kept : Kept settings f.cursor) (own : ∀ values ∈ f.cursor.rest, values ∈ stream)
  | all (primary : f.primary = none) (complete : f.complete = true)
      (cut : Cut (texts formats stream) (done ++ f.rows) [])
  | failed (e : Err ε) (primary : f.primary = some e) (complete : f.complete = false)
      (le : done ++ f.rows <+: texts formats stream)
      (reason : (∃ values ∈ stream, ¬ Fits ε formats settings f.cursor values) ∨
        ∃ i, native i ≠ none)

/-- What the loop has to show for itself. -/
structure Yields (native : ℕ → Option ε) (done : List Row) (c : Cursor) (f : Filled ε) : Prop where
  tally : Tally settings f.rows f.cursor
  ends : Ends formats settings stream native done f
  metadata : f.cursor.metadataBytes = c.metadataBytes

/-- **What is known in the loop.** -/
structure Filling (done rows : List Row) (size : ℤ) (rest : List (List Value)) (c : Cursor) :
    Prop extends Tally settings rows c where
  cut : Cut (texts formats stream) (done ++ rows) (texts formats rest)
  size : size = c.metadataBytes + load rowBytes rows
  pending : c.pending = none
  own : ∀ values ∈ rest, values ∈ stream

variable {formats settings stream}

namespace Cursor

theorem place_spec (settings : Settings) (c : Cursor) (rows : List Row) (size bytes : ℤ) :
    match c.place settings rows size bytes with
    | .tooLong => settings.maxPageBytes < c.metadataBytes + bytes
    | .keep => c.metadataBytes + bytes ≤ settings.maxPageBytes ∧
        (rows.length = settings.maxPageRows ∨ settings.maxPageBytes < size + bytes)
    | .append => rows.length ≠ settings.maxPageRows ∧ size + bytes ≤ settings.maxPageBytes := by
  unfold place
  split_ifs with hlong hfull
  · exact sub_lt_iff_lt_add'.mp hlong
  · simp only [Bool.or_eq_true, decide_eq_true_eq] at hfull
    exact ⟨by omega, hfull.imp_right sub_lt_iff_lt_add'.mp⟩
  · simp only [Bool.or_eq_true, decide_eq_true_eq, not_or] at hfull
    exact ⟨hfull.1, by omega⟩

end Cursor

section Placed

variable {native : ℕ → Option ε} {done rows : List Row} {size : ℤ} {c : Cursor}

theorem Tally.keep {row : Row} {bytes : ℤ} {c' : Cursor}
    (h : Tally settings rows c) (hsize : size = c.metadataBytes + load rowBytes rows)
    (hfits : c.metadataBytes + bytes ≤ settings.maxPageBytes)
    (hfull : rows.length = settings.maxPageRows ∨ settings.maxPageBytes < size + bytes)
    (hbytes : bytes = rowBytes row)
    (hc' : c'.metadataBytes = c.metadataBytes ∧ c'.closed = c.closed ∧ c'.ready = c.ready ∧
      c'.pending = some (row, bytes))
    (hcut : Cut (texts formats stream) (done ++ rows) (row :: texts formats c'.rest))
    (hown : ∀ values ∈ c'.rest, values ∈ stream) :
    Yields formats settings stream native done c ⟨c', rows, false, none⟩ := by
  obtain ⟨hmetadata, hclosed, hready, hpending⟩ := hc'
  have htally : Tally settings rows c' := by
    refine ⟨h.few, ?_, hclosed.trans h.unclosed, hready.trans h.ready⟩
    rw [hmetadata]
    exact h.small
  refine ⟨htally, .more rfl rfl ?_ ?_ ?_ hown, hmetadata⟩
  · rintro rfl
    rw [load_nil] at hsize
    obtain hfull | hfull := hfull
    · exact absurd settings.pageRows_pos (by rw [← hfull]; nofun)
    · omega
  · show Cut _ _ ((c'.pending.map Prod.fst).toList ++ texts formats c'.rest)
    rw [hpending]
    exact hcut
  · intro x hx
    rw [hpending] at hx
    cases hx
    refine ⟨hbytes, ?_⟩
    show c'.metadataBytes + bytes ≤ _
    rw [hmetadata]
    exact hfits

theorem Tally.append {row : Row} {bytes : ℤ} {c' : Cursor} {rest' : List (List Value)}
    (h : Tally settings rows c) (hsize : size = c.metadataBytes + load rowBytes rows)
    (hroom : rows.length ≠ settings.maxPageRows) (hshort : size + bytes ≤ settings.maxPageBytes)
    (hbytes : bytes = rowBytes row)
    (hc' : c'.metadataBytes = c.metadataBytes ∧ c'.closed = c.closed ∧ c'.ready = c.ready ∧
      c'.pending = none)
    (hcut : Cut (texts formats stream) (done ++ rows) (row :: texts formats rest'))
    (hown : ∀ values ∈ rest', values ∈ stream) :
    Filling formats settings stream done (rows ++ [row]) (size + bytes) rest' c' := by
  obtain ⟨hmetadata, hclosed, hready, hpending⟩ := hc'
  have hload : load rowBytes (rows ++ [row]) = load rowBytes rows + bytes := by
    rw [load_append, load_cons, load_nil, add_zero, hbytes]
  refine ⟨⟨?_, ?_, hclosed.trans h.unclosed, hready.trans h.ready⟩, ?_, ?_, hpending, hown⟩
  · rw [List.length_append, List.length_singleton]
    exact lt_of_le_of_ne h.few hroom
  · omega
  · rw [← List.append_assoc]
    exact Cut.advance hcut
  · omega

end Placed

namespace Filling

variable {native : ℕ → Option ε} {done rows : List Row} {size : ℤ} {rest : List (List Value)}
  {c : Cursor} {i : ℕ}

theorem native_failed {err : ε} (h : Filling formats settings stream done rows size rest c)
    (hnative : native i = some err) :
    Yields formats settings stream native done c
      ⟨{ c with rest := rest }, rows, false, some (.native err)⟩ := by
  refine ⟨{ h.toTally with }, .failed _ rfl rfl h.cut.le (.inr ⟨i, ?_⟩), rfl⟩
  rw [hnative]
  nofun

/-- **The loop.** The induction is on the rows of the driver. -/
theorem fill (h : Filling formats settings stream done rows size rest c) :
    Yields formats settings stream native done c
      (Cursor.fill formats settings native rest i c rows size) := by
  induction rest generalizing i c rows size with
  | nil =>
    unfold Cursor.fill
    split
    · next err hnative => exact h.native_failed hnative
    · exact ⟨{ h.toTally with }, .all rfl rfl h.cut, rfl⟩
  | cons values rest ih =>
    unfold Cursor.fill
    split
    · next err hnative => exact h.native_failed hnative
    have hmem : values ∈ stream := h.own values (.head _)
    have hown : ∀ x ∈ rest, x ∈ stream := fun x hx => h.own x (.tail _ hx)
    dsimp only
    split
    · next err hcells =>
      refine ⟨{ h.toTally with }, .failed err rfl rfl h.cut.le (.inl ⟨values, hmem, ?_⟩), rfl⟩
      rintro ⟨x, hx, -⟩
      exact nomatch hcells.symm.trans hx
    · next row bytes hcells =>
      obtain ⟨rfl, hbytes⟩ := cells_ok hcells
      rw [zero_add] at hbytes
      have hspec := c.place_spec settings rows size bytes
      split
      all_goals
        rename_i hplace
        rw [show c.place settings rows size bytes = _ from hplace] at hspec
      · refine ⟨{ h.toTally with }, .failed _ rfl rfl h.cut.le (.inl ⟨values, hmem, ?_⟩), rfl⟩
        rintro ⟨x, hx, hle⟩
        cases hcells.symm.trans hx
        exact absurd hle (not_le.mpr hspec)
      · exact h.toTally.keep h.size hspec.1 hspec.2 hbytes ⟨rfl, rfl, rfl, rfl⟩ h.cut hown
      · have hnext : Filling formats settings stream done (rows ++ [rowOf formats values])
            (size + bytes) rest
            { c with
              rest := rest
              rowsRead := c.rowsRead + 1
              bytesRead := c.bytesRead + bytes } :=
          h.toTally.append h.size hspec.1 hspec.2 hbytes ⟨rfl, rfl, rfl, h.pending⟩ h.cut hown
        have hyields := ih (i := i + 1) hnext
        exact { hyields with }

end Filling

/-! ## Between calls -/

/-- **What is known between calls**, with the rows `done` handed out. -/
structure Open (formats : Formats) (settings : Settings) (stream : List (List Value))
    (done : List Row) (c : Cursor) : Prop where
  cut : Cut (texts formats stream) done (c.ahead formats)
  metadata : c.metadataBytes ≤ settings.maxPageBytes
  kept : Kept settings c
  own : ∀ values ∈ c.rest, values ∈ stream
  unclosed : c.closed = false
  ready : c.ready = true

namespace Open

variable {native : ℕ → Option ε} {done : List Row} {c : Cursor}

theorem tally (h : Open formats settings stream done c) : Tally settings [] c := by
  refine ⟨Nat.zero_le _, ?_, h.unclosed, h.ready⟩
  rw [load_nil, add_zero]
  exact h.metadata

theorem loop (h : Open formats settings stream done c) :
    Yields formats settings stream native done c (c.loop formats settings native) := by
  have hcut := h.cut
  unfold Cursor.ahead at hcut
  unfold Cursor.loop
  split
  · next hpending =>
    rw [hpending] at hcut
    refine Filling.fill ⟨h.tally, ?_, ?_, hpending, h.own⟩
    · rw [List.append_nil]
      exact hcut
    · rw [load_nil, add_zero]
  · next row bytes hpending =>
    rw [hpending] at hcut
    have hcut : Cut (texts formats stream) (done ++ []) (row :: texts formats c.rest) := by
      rw [List.append_nil]
      exact hcut
    obtain ⟨hbytes, hfits⟩ := h.kept (row, bytes) hpending
    have hpos := settings.pageRows_pos
    -- the row has been compared with the same bounds before
    have hplace : ({ c with pending := none } : Cursor).place settings [] c.metadataBytes bytes
        = .append := by
      unfold Cursor.place
      rw [if_neg (by dsimp only; omega), if_neg]
      simp only [List.length_nil, Bool.or_eq_true, decide_eq_true_eq, not_or, not_lt]
      exact ⟨by omega, by omega⟩
    have hnext : Filling formats settings stream done ([] ++ [row]) (c.metadataBytes + bytes) c.rest
        { c with pending := none } :=
      h.tally.append (add_zero _).symm (Nat.ne_of_lt hpos) hfits hbytes
        ⟨rfl, rfl, rfl, rfl⟩ hcut h.own
    have hyields : Yields formats settings stream native done { c with pending := none } _ :=
      hnext.fill (i := 0)
    dsimp only
    rw [hplace]
    exact { hyields with }

end Open

/-! ## Pages -/

def Action.page? : Action ε → Option (Page ε)
  | .page p => some p
  | _ => none

def Action.isEnded : Action ε → Bool
  | .ended _ _ _ _ _ => true
  | _ => false

def pages (log : List (Action ε)) : List (Page ε) := log.filterMap Action.page?

/-- **The rows that have been handed out.** -/
def delivered (ps : List (Page ε)) : List Row := ps.flatMap Page.rows

theorem pages_append (log more : List (Action ε)) : pages (log ++ more) = pages log ++ pages more :=
  List.filterMap_append

theorem pages_concat (log : List (Action ε)) {a : Action ε} (ha : a.page? = none) :
    pages (log ++ [a]) = pages log := by
  rw [pages_append]
  exact (congrArg _ (List.filterMap_cons_none ha)).trans (List.append_nil _)

theorem delivered_concat (ps : List (Page ε)) (p : Page ε) :
    delivered (ps ++ [p]) = delivered ps ++ p.rows := by
  unfold delivered
  rw [List.flatMap_append, List.flatMap_singleton]

def Page.goesOn (p : Page ε) : Prop := p.primary = none ∧ p.complete = false

/-- **What holds of a page**, after those before it. -/
structure Good (formats : Formats) (settings : Settings) (stream : List (List Value)) (c : Cursor)
    (before : List (Page ε)) (p : Page ε) : Prop where
  few : p.rows.length ≤ settings.maxPageRows
  small : c.metadataBytes + load rowBytes p.rows ≤ settings.maxPageBytes
  nonempty : p.goesOn → p.rows ≠ []
  whole : p.complete = true → p.primary = none ∧ delivered before ++ p.rows = texts formats stream
  alone : ∀ q ∈ before, q.goesOn

/-- **What a run knows about its cursor.** -/
structure Track (formats : Formats) (settings : Settings) (stream : List (List Value))
    (log : List (Action ε)) (c : Cursor) : Prop where
  each : Each (Good formats settings stream c) (pages log)
  le : delivered (pages log) <+: texts formats stream
  complete : (∃ p ∈ pages log, p.complete = true) ↔ .reached false ∈ log
  alive : c.ready = true → c.closed = false →
    Open formats settings stream (delivered (pages log)) c ∧
    (∀ p ∈ pages log, p.goesOn) ∧ log.countP Action.isEnded = 0
  ended : c.closed = true → c.ready = true ∧ log.countP Action.isEnded = 1
  fresh : c.ready = false → log = [] ∧ c = .init stream

section Steps

variable {log : List (Action ε)} {c : Cursor}

/-- What is said of a page depends on the metadata only. -/
theorem Good.congr {before : List (Page ε)} {p : Page ε} {c' : Cursor}
    (h : Good formats settings stream c before p) (hmetadata : c'.metadataBytes = c.metadataBytes) :
    Good formats settings stream c' before p := by
  refine ⟨h.few, ?_, h.nonempty, h.whole, h.alone⟩
  rw [hmetadata]
  exact h.small

variable {primary : Option (Err ε)}

theorem joined_isNone {kind : Kind} {operation : String} :
    joined kind operation [primary] = none ↔ primary = none := by
  cases primary with
  | none => exact ⟨fun _ => rfl, fun _ => rfl⟩
  | some => exact ⟨nofun, nofun⟩

/-- What an outcome of `Next` has to show for itself: the rows of the loop,
and an error if the loop had one. -/
structure Outcome (formats : Formats) (settings : Settings) (stream : List (List Value))
    (done : List Row) (c : Cursor) (f : Filled ε) (primary : Option (Err ε)) : Prop where
  tally : Tally settings f.rows f.cursor
  le : done ++ f.rows <+: texts formats stream
  goesOn : primary = none → f.complete = false → f.rows ≠ [] ∧
    Open formats settings stream (done ++ f.rows) f.cursor
  whole : f.complete = true → done ++ f.rows = texts formats stream
  metadata : f.cursor.metadataBytes = c.metadataBytes

variable {f : Filled ε}

theorem Yields.outcome {native : ℕ → Option ε} {done : List Row}
    (h : Yields formats settings stream native done c f) (hc : Open formats settings stream done c)
    (hprimary : primary = none → f.primary = none) :
    Outcome formats settings stream done c f primary := by
  refine ⟨h.tally, ?_, fun hp hf => ?_, fun ht => ?_, h.metadata⟩
  · cases h.ends with
    | more _ _ _ hcut | all _ _ hcut => exact hcut.le
    | failed _ _ _ hle => exact hle
  · cases h.ends with
    | all _ ht => exact nomatch hf.symm.trans ht
    | failed e he => exact nomatch (hprimary hp).symm.trans he
    | more _ _ hne hcut hkept hown =>
      refine ⟨hne, hcut, ?_, hkept, hown, h.tally.unclosed, h.tally.ready⟩
      rw [h.metadata]
      exact hc.metadata
  · cases h.ends with
    | more _ hf | failed _ _ hf => exact nomatch ht.symm.trans hf
    | all _ _ hcut => exact hcut.whole

theorem Open.budget {done : List Row} (h : Open formats settings stream done c) (err : Err ε) :
    Outcome formats settings stream done c ⟨c, [], false, none⟩ (some err) := by
  refine ⟨h.tally, ?_, nofun, nofun, rfl⟩
  rw [List.append_nil]
  exact h.cut.le

section

variable (h : Track formats settings stream log c)
include h

/-- **A page is handed out.** The cursor goes on, or it is ended with this
page. -/
theorem Track.deliver {s : Cursor} {p : Page ε} {actions : List (Action ε)}
    (hready : c.ready = true) (hclosed : c.closed = false)
    (ho : Outcome formats settings stream (delivered (pages log)) c f primary)
    (hp : p.rows = f.rows ∧ p.complete = (f.complete && primary.isNone)
      ∧ (p.primary = none ↔ primary = none))
    (hs : s.metadataBytes = f.cursor.metadataBytes ∧ s.ready = f.cursor.ready)
    (hnone : pages actions = [])
    (hreached : .reached false ∈ actions ↔ (f.complete && primary.isNone) = true)
    (hend : (s = f.cursor ∧ primary = none ∧ f.complete = false ∧ actions.countP Action.isEnded = 0)
      ∨ (s.closed = true ∧ actions.countP Action.isEnded = 1)) :
    Track formats settings stream (log ++ (actions ++ [.page p])) s := by
  obtain ⟨hopen, hquiet, hzero⟩ := h.alive hready hclosed
  obtain ⟨hrows, hcomplete, hprimary⟩ := hp
  have hpages : pages (log ++ (actions ++ [.page p])) = pages log ++ [p] := by
    rw [pages_append, pages_append, hnone]
    rfl
  have hdelivered : delivered (pages log ++ [p]) = delivered (pages log) ++ f.rows := by
    rw [delivered_concat, hrows]
  have hcount : (log ++ (actions ++ [Action.page p])).countP Action.isEnded
      = actions.countP Action.isEnded := by
    rw [List.countP_append, List.countP_append, hzero]
    exact Nat.zero_add _
  have hmetadata : s.metadataBytes = c.metadataBytes := hs.1.trans ho.metadata
  have hgood : Good formats settings stream s (pages log) p := by
    refine ⟨?_, ?_, fun hg => ?_, fun ht => ?_, hquiet⟩
    · rw [hrows]
      exact ho.tally.few
    · rw [hrows, hs.1]
      exact ho.tally.small
    · have hp := hprimary.mp hg.1
      have hf := hcomplete.symm.trans hg.2
      rw [hp, Bool.and_eq_false_iff, or_iff_left (by nofun)] at hf
      rw [hrows]
      exact (ho.goesOn hp hf).1
    · rw [hcomplete, Bool.and_eq_true] at ht
      rw [hrows]
      exact ⟨hprimary.mpr (Option.isNone_iff_eq_none.mp ht.2), ho.whole ht.1⟩
  refine ⟨?_, ?_, ?_, fun _ hsclosed => ?_, fun hsclosed => ?_, fun hf => ?_⟩
  · rw [hpages]
    exact (h.each.imp (fun _ _ hg => hg.congr hmetadata)).concat hgood
  · rw [hpages, hdelivered]
    exact ho.le
  · rw [hpages]
    simp only [List.mem_append, List.mem_singleton, reduceCtorEq, or_false, hreached, ← h.complete,
      or_and_right, exists_or, exists_eq_left, hcomplete]
  · obtain ⟨rfl, hp, hf, hnot⟩ | ⟨hc, -⟩ := hend
    · rw [hpages, hdelivered, hcount]
      refine ⟨(ho.goesOn hp hf).2, fun q hq => ?_, hnot⟩
      obtain hq | hq := List.mem_append.mp hq
      · exact hquiet q hq
      · obtain rfl := List.mem_singleton.mp hq
        refine ⟨hprimary.mpr hp, ?_⟩
        rw [hcomplete, hf]
        rfl
    · exact nomatch hsclosed.symm.trans hc
  · obtain ⟨rfl, -, -, -⟩ | ⟨-, hone⟩ := hend
    · exact nomatch ho.tally.unclosed.symm.trans hsclosed
    · exact ⟨hs.2.trans ho.tally.ready, hcount.trans hone⟩
  · exact nomatch (hs.2.trans ho.tally.ready).symm.trans hf

theorem Track.conclude (hready : c.ready = true) (hclosed : c.closed = false)
    (ho : Outcome formats settings stream (delivered (pages log)) c f primary)
    (closing : Closing ε) :
    Track formats settings stream (log ++ (Cursor.conclude f primary closing).actions)
      (Cursor.conclude f primary closing).state := by
  have hunclosed := ho.tally.unclosed
  unfold Cursor.conclude Cursor.ending
  dsimp only
  rw [hunclosed]
  by_cases hover : (primary.isSome || f.complete) = true
  · rw [if_pos hover]
    refine h.deliver hready hclosed ho ⟨rfl, rfl, joined_isNone⟩ ⟨rfl, rfl⟩ ?_ ?_ (.inr ⟨rfl, ?_⟩)
    · cases f.complete with
      | true | false => rfl
    · cases f.complete with
      | true => cases primary with
        | none => simp
        | some e => simp
      | false => simp
    · cases f.complete with
      | true | false => rfl
  · rw [if_neg hover]
    simp only [Bool.or_eq_true, not_or, Bool.not_eq_true, Option.isSome_eq_false_iff,
      Option.isNone_iff_eq_none] at hover
    obtain ⟨hp, hf⟩ := hover
    rw [hf]
    refine h.deliver hready hclosed ho ⟨rfl, by rw [hf], joined_isNone⟩ ⟨rfl, rfl⟩ rfl ?_
      (.inl ⟨rfl, hp, hf, rfl⟩)
    simp [hf]

theorem Track.refused (hready : c.ready = true) (err : Err ε) :
    Track formats settings stream (log ++ [.refused err]) c := by
  have hpages : pages (log ++ [.refused err]) = pages log := pages_concat log rfl
  have hcount :
      (log ++ [Action.refused err]).countP Action.isEnded = log.countP Action.isEnded := by
    rw [List.countP_append]
    rfl
  refine ⟨?_, ?_, ?_, ?_, ?_, fun hf => nomatch hready.symm.trans hf⟩
  · rw [hpages]
    exact h.each
  · rw [hpages]
    exact h.le
  · rw [hpages, h.complete]
    simp
  · rw [hpages, hcount]
    exact h.alive
  · rw [hcount]
    exact h.ended

/-- **`end`**, outside of `Next`. -/
theorem Track.ending (hready : c.ready = true) (primary : Option (Err ε)) (closing : Closing ε) :
    Track formats settings stream (log ++ (c.ending primary false closing).actions)
      (c.ending primary false closing).state := by
  unfold Cursor.ending
  split
  · rw [List.append_nil]
    exact h
  next hclosed =>
  obtain ⟨-, -, hzero⟩ := h.alive hready (eq_false_of_ne_true hclosed)
  refine ⟨?_, ?_, ?_, nofun, fun _ => ⟨hready, ?_⟩, fun hf => nomatch hready.symm.trans hf⟩
  · rw [pages_concat log rfl]
    exact h.each.imp (fun _ _ hg => hg.congr rfl)
  · rw [pages_concat log rfl]
    exact h.le
  · rw [pages_concat log rfl, h.complete]
    simp
  · rw [List.countP_append, hzero]
    rfl

omit h in
theorem joined_head {more : List (Option (Err ε))} (h : Fault.joined (primary :: more) = none) :
    primary = none := by
  cases primary with
  | none => rfl
  | some => cases h

theorem Track.next (hready : c.ready = true) (a : Answers ε) :
    Track formats settings stream (log ++ (c.next formats settings a).actions)
      (c.next formats settings a).state := by
  unfold Cursor.next
  split
  · exact h.refused hready _
  next hclosed =>
  have hclosed : c.closed = false := eq_false_of_ne_true hclosed
  obtain ⟨hopen, -, -⟩ := h.alive hready hclosed
  split
  · exact h.refused hready _
  · exact h.conclude hready hclosed (hopen.budget _) a.closing
  · exact h.conclude hready hclosed (hopen.loop.outcome hopen joined_head) a.closing

/-! ### Setup -/

omit h in
theorem readColumns_spec {index : ℕ} {columns : List Column} {d : Cursor}
    {x : Cursor × Option (Err ε)}
    (hx : Cursor.readColumns settings index columns d = x)
    (h : d.metadataBytes ≤ settings.maxPageBytes) :
    (x.2 = none → x.1.metadataBytes ≤ settings.maxPageBytes) ∧ x.1.rest = d.rest ∧
      x.1.pending = d.pending ∧ x.1.closed = d.closed ∧ x.1.ready = d.ready := by
  induction columns generalizing index d with
  | nil =>
    subst hx
    exact ⟨fun _ => h, rfl, rfl, rfl, rfl⟩
  | cons column columns ih =>
    unfold Cursor.readColumns at hx
    split at hx
    · subst hx
      exact ⟨nofun, rfl, rfl, rfl, rfl⟩
    dsimp only at hx
    split at hx
    · subst hx
      exact ⟨nofun, rfl, rfl, rfl, rfl⟩
    · next hfits =>
      have hspec := ih hx (not_lt.mp hfits)
      exact hspec

omit h in
theorem track_setup (columns : List Column) (early late : Option (Err ε)) (closing : Closing ε) :
    Track formats settings stream
      ((Cursor.init stream).setup settings columns early late closing).actions
      ((Cursor.init stream).setup settings columns early late closing).state := by
  have hfail : ∀ (s : Cursor) (err : Err ε), s.ready = true → s.closed = false →
      Track formats settings stream (s.ending (some err) false closing).actions
        (s.ending (some err) false closing).state := by
    intro s err hready hclosed
    unfold Cursor.ending
    rw [hclosed]
    refine ⟨.nil, List.nil_prefix, ⟨nofun, ?_⟩, nofun, fun _ => ⟨hready, rfl⟩,
      fun hf => nomatch hready.symm.trans hf⟩
    simp
  unfold Cursor.setup
  split
  · exact hfail _ _ rfl rfl
  dsimp only
  have hpage : (0 : ℤ) ≤ settings.maxPageBytes := by
    have := settings.le_pageBytes
    omega
  generalize hx : Cursor.readColumns settings 0 columns _ = x
  obtain ⟨hsmall, hrest, hpending, hclosed, hready⟩ := readColumns_spec hx hpage
  split
  · exact hfail _ _ hready hclosed
  · next hnone =>
    refine ⟨.nil, List.nil_prefix, ⟨nofun, nofun⟩,
      fun _ _ => ⟨⟨?_, hsmall (joined_head hnone), ?_, ?_,
      hclosed, hready⟩, nofun, rfl⟩, fun hc => absurd (hclosed.symm.trans hc) nofun,
      fun hf => nomatch hready.symm.trans hf⟩
    · show Cut _ [] ((Option.map Prod.fst _).toList ++ texts formats _)
      rw [hpending, hrest]
      exact .start _
    · intro y hy
      rw [hpending] at hy
      cases hy
    · intro values hv
      rw [hrest] at hv
      exact hv

/-! ## Runs -/

theorem Track.turn {l : Event ε} {t : Turn ε} (ht : c.turn formats settings l = some t) :
    Track formats settings stream (log ++ t.actions) t.state := by
  cases l with
  | setup columns early late closing =>
    obtain ⟨hready, rfl⟩ := of_guard_not ht
    obtain ⟨rfl, rfl⟩ := h.fresh (eq_false_of_ne_true hready)
    exact track_setup columns early late closing
  | next a =>
    obtain ⟨hready, rfl⟩ := of_guard ht
    exact h.next hready a
  | expire err closing =>
    obtain ⟨hready, rfl⟩ := of_guard ht
    exact h.ending hready (some err) closing

omit h in
theorem track_of_run {tr : List (Event ε)}
    (hr : (Cursor.machine formats settings stream).machine.Run tr c) :
    Track formats settings stream ((Cursor.machine formats settings stream).log tr) c := by
  have h0 : Track formats settings stream ([] : List (Action ε)) (Cursor.init stream) :=
    ⟨.nil, List.nil_prefix, ⟨nofun, nofun⟩, nofun, nofun, fun _ => ⟨rfl, rfl⟩⟩
  exact Mealy.log_invariant h0 (fun h => h.turn) hr

/-! ## The end of the result -/

def calmNext : Event ε := .next ⟨none, none, fun _ => none, none, none, none, ⟨none, none⟩⟩

/-- **A call that nothing disturbs** completes the result or hands out a row,
if all rows fit. -/
theorem Track.calm_step (hready : c.ready = true) (hclosed : c.closed = false)
    (hfits : ∀ values ∈ stream, Fits ε formats settings c values) :
    ∃ t : Turn ε, (Cursor.machine formats settings stream).turn c calmNext = some t ∧
      ((∃ p ∈ pages t.actions, p.complete = true) ∨
        t.state.ready = true ∧ t.state.closed = false ∧
          t.state.metadataBytes = c.metadataBytes ∧
          (t.state.ahead formats).length < (c.ahead formats).length) := by
  obtain ⟨hopen, -, -⟩ := h.alive hready hclosed
  have hyields : Yields formats settings stream (fun _ => none) (delivered (pages log)) c
      (c.loop formats settings (fun _ => (none : Option ε))) := hopen.loop
  have hturn : (Cursor.machine formats settings stream).turn c (calmNext : Event ε)
      = some (Cursor.conclude (c.loop formats settings (fun _ => none))
          (Fault.joined [(c.loop formats settings (fun _ => (none : Option ε))).primary, none, none,
            none]) ⟨none, none⟩) := by
    show (if c.ready then some (c.next formats settings _) else none) = _
    rw [if_pos hready]
    unfold Cursor.next
    rw [hclosed]
    rfl
  refine ⟨_, hturn, ?_⟩
  generalize c.loop formats settings (fun _ => (none : Option ε)) = f at hyields
  cases hyields.ends with
  | failed e _ _ _ hreason =>
    exfalso
    obtain ⟨values, hv, hlong⟩ | ⟨i, hi⟩ := hreason
    · refine hlong ?_
      obtain ⟨x, hx, hle⟩ := hfits values hv
      refine ⟨x, hx, ?_⟩
      rw [hyields.metadata]
      exact hle
    · exact hi rfl
  | all hp ht =>
    left
    rw [hp]
    unfold Cursor.conclude Cursor.ending
    rw [ht, hyields.tally.unclosed]
    exact ⟨_, List.mem_singleton.mpr rfl, rfl⟩
  | more hp hf hne hcut =>
    right
    rw [hp]
    unfold Cursor.conclude
    rw [hf]
    refine ⟨hyields.tally.ready, hyields.tally.unclosed, hyields.metadata, ?_⟩
    have hsplit : c.ahead formats = f.rows ++ f.cursor.ahead formats := by
      have heq := hopen.cut.trans hcut.symm
      rw [List.append_assoc] at heq
      exact List.append_cancel_left heq
    have hpos := List.length_pos_iff.mpr hne
    show (f.cursor.ahead formats).length < _
    rw [hsplit, List.length_append]
    omega

end

/-- **Calls that nothing disturbs complete the result**, if all rows fit: at
most one more than there are rows to come. -/
theorem run_calm {tr : List (Event ε)} {n : ℕ}
    (hr : (Cursor.machine formats settings stream).machine.Run tr c) (hready : c.ready = true)
    (hclosed : c.closed = false) (hfits : ∀ values ∈ stream, Fits ε formats settings c values)
    (hn : (c.ahead formats).length < n) :
    ∃ m ≤ n, ∃ c', (Cursor.machine formats settings stream).machine.Run
        (tr ++ List.replicate m calmNext) c' ∧
      ∃ p ∈ pages ((Cursor.machine formats settings stream).log (tr ++ List.replicate m calmNext)),
        p.complete = true := by
  induction n generalizing tr c with
  | zero => cases hn
  | succ n ih =>
    obtain ⟨t, ht, hnext⟩ := (track_of_run hr).calm_step hready hclosed hfits
    have hr' := hr.concat (Mealy.step_eq_some.mpr ⟨t, ht, rfl⟩)
    obtain ⟨p, hp, hc⟩ | ⟨hready', hclosed', hmeta, hlt⟩ := hnext
    · refine ⟨1, Nat.le_add_left 1 n, t.state, hr', p, ?_, hc⟩
      rw [List.replicate_one, Mealy.log_concat hr ht, pages_append]
      exact List.mem_append_right _ hp
    · obtain ⟨m, hm, c', hrun⟩ := ih hr' hready' hclosed' (fun values hv => by
        obtain ⟨x, hx, hle⟩ := hfits values hv
        exact ⟨x, hx, by rw [hmeta]; exact hle⟩) (by omega)
      refine ⟨m + 1, Nat.succ_le_succ hm, c', ?_⟩
      rw [List.replicate_succ, List.append_cons]
      exact hrun

/-- **Pages are the result, cut.** In every run the rows of all pages are the
first ones of the result, in order, and every page is within its limits. A
page without an error that is not complete has rows. If the driver reports
the end, the page is complete unless the call fails; and then everything has
been handed out. Calls that nothing disturbs come to such a page, however
full it is. After a failure or a complete page the cursor has been ended,
once, and there are no more pages. -/
theorem pages_are_result {tr : List (Event ε)}
    (hr : (Cursor.machine formats settings stream).machine.Run tr c) :
    let log := (Cursor.machine formats settings stream).log tr
    delivered (pages log) <+: texts formats stream ∧
    (∀ p ∈ pages log, p.rows.length ≤ settings.maxPageRows ∧
      c.metadataBytes + load rowBytes p.rows ≤ settings.maxPageBytes) ∧
    (∀ p ∈ pages log, p.primary = none → p.complete = false → p.rows ≠ []) ∧
    ((∃ p ∈ pages log, p.complete = true) ↔ .reached false ∈ log) ∧
    ((∃ p ∈ pages log, p.complete = true) → delivered (pages log) = texts formats stream) ∧
    (c.ready = true → c.closed = false → (∀ values ∈ stream, Fits ε formats settings c values) →
      ∃ m ≤ stream.length + 1, ∃ c', (Cursor.machine formats settings stream).machine.Run
          (tr ++ List.replicate m calmNext) c' ∧
        ∃ p ∈ pages ((Cursor.machine formats settings stream).log
          (tr ++ List.replicate m calmNext)), p.complete = true) ∧
    (log.countP Action.isEnded ≤ 1) ∧
    ((∃ p ∈ pages log, p.primary ≠ none ∨ p.complete = true) →
      c.closed = true ∧ log.countP Action.isEnded = 1) ∧
    Each (fun before _ => ∀ q ∈ before, q.primary = none ∧ q.complete = false) (pages log) := by
  intro log
  have h : Track formats settings stream log c := track_of_run hr
  refine ⟨h.le, fun p hp => ?_, fun p hp hprimary hcomplete => ?_, h.complete,
    fun ⟨p, hp, ht⟩ => ?_, fun hready hclosed hfits => ?_, ?_, fun ⟨p, hp, hend⟩ => ?_,
    h.each.imp (fun _ _ hg => hg.alone)⟩
  · obtain ⟨before, hg⟩ := h.each.of_mem hp
    exact ⟨hg.few, hg.small⟩
  · obtain ⟨before, hg⟩ := h.each.of_mem hp
    exact hg.nonempty ⟨hprimary, hcomplete⟩
  · exact h.each.whole h.le hp (fun _ hg => (hg.whole ht).2)
  · obtain ⟨hopen, -, -⟩ := h.alive hready hclosed
    refine run_calm hr hready hclosed hfits ?_
    have hlen := congrArg List.length hopen.cut
    unfold texts at hlen
    rw [List.length_append, List.length_map] at hlen
    omega
  · cases hready : c.ready with
    | false =>
      rw [(h.fresh hready).1]
      exact Nat.zero_le _
    | true =>
      cases hclosed : c.closed with
      | false => exact (h.alive hready hclosed).2.2.trans_le (Nat.zero_le _)
      | true => exact (h.ended hclosed).2.le
  · have hready : c.ready = true := by
      by_contra hf
      obtain ⟨hnil, -⟩ := h.fresh (eq_false_of_ne_true hf)
      rw [hnil] at hp
      cases hp
    have hclosed : c.closed = true := by
      by_contra hf
      obtain ⟨-, hquiet, -⟩ := h.alive hready (eq_false_of_ne_true hf)
      obtain ⟨hprimary, hcomplete⟩ := hquiet p hp
      obtain hend | hend := hend
      · exact hend hprimary
      · exact nomatch hend.symm.trans hcomplete
    exact ⟨hclosed, (h.ended hclosed).2⟩

end Steps

end Call

/-! ### Examples -/

def sampleSettings : Settings where
  maxPageRows := 2
  maxPageBytes := 1024
  pageRows_pos := by decide
  pageRows_le := by decide
  le_pageBytes := le_rfl
  pageBytes_le := by decide

def sampleFormats : Formats := ⟨fun _ => [], fun _ => []⟩

def sampleSetup : Event Empty := .setup [⟨"n", "INT"⟩] none none ⟨none, none⟩

/-- A page that is full is complete. -/
theorem pages_are_two_rows :
    ∃ c, (Cursor.machine sampleFormats sampleSettings
        [[.bytes [49]], [.bytes [50]]]).machine.Run [sampleSetup, calmNext] c ∧
      c.closed = true ∧
      delivered (pages ((Cursor.machine sampleFormats sampleSettings
        [[.bytes [49]], [.bytes [50]]]).log [sampleSetup, calmNext]))
        = [[⟨[49], false⟩], [⟨[50], false⟩]] := by
  have hr := (Cursor.machine sampleFormats sampleSettings
    [[.bytes [49]], [.bytes [50]]]).machine.run_reached [sampleSetup, calmNext] (by decide +kernel)
  refine ⟨_, hr, by decide +kernel, ?_⟩
  obtain ⟨-, -, -, -, hwhole, -⟩ := pages_are_result hr
  exact hwhole (by decide +kernel)

end Doris
