import Fathomry.LogSteps

/-!
# What is kept of a log

Over a whole run, with any process gone at any time and others after it: the
records whose `Write` succeeded are those carried by the directory in
sequence order, after those of the archives that retention has removed
(`Kept`). Archives are made with greater and greater numbers and never
overwritten, a file that has been written to successfully is within its
bounds, and a file that has failed is left alone.
-/

namespace LogFile

variable {ε : Type} {codec : Codec}

def Event.starts : Event ε → Bool
  | .start _ _ => true
  | _ => false

def Event.record : Event ε → Option Bytes
  | .write data => some data
  | _ => none

def Stage.busy : Stage → Bool
  | .creating _ | .measuring _ | .announcing | .idle => false
  | _ => true

namespace State

/-- **A failure**: a system call that fails, a write that is short, or a
sequence that is exhausted. A record that is too long is refused before
anything is done. -/
def fails (s : State ε) : Event ε → Bool
  | .call (some _) | .copied _ (some _) | .sync (some _) => true
  | .call none => s.process.any (fun p =>
      match p.stage with
      | .writing count => count ≠ p.data.length
      | _ => false)
  | .write data => s.process.any (fun p =>
      !p.closed && p.failed.isNone && data.length ≤ p.options.maxFileBytes
        && p.options.maxFileBytes < p.size + data.length && p.sequence = maxUint64)
  | _ => false

/-- No process can write: it is gone, sealed or closed. -/
def Dead (s : State ε) : Prop :=
  ∀ p, s.process = some p → p.failed.isSome = true ∨ p.closed = true

def Right (codec : Codec) (s : State ε) : Prop := ∀ p, s.process = some p → p.Ok codec s.dir

variable {s s' : State ε} {l : Event ε}

/-! ## Failures -/

theorem dead_of_poison (p : Process ε) (err : Err ε) (d : Directory) :
    Dead (become (p.poison err) d) := by
  intro q hq
  cases hq
  exact .inl (poisoned p err).2

theorem dead_of_wrote {p : Process ε} {count : ℕ} {err : Option (Err ε)}
    (h : err.isSome = true ∨ count ≠ p.data.length) (d : Directory) :
    Dead (become (p.wrote count err) d) := by
  intro q hq
  cases hq
  exact .inl (wrote_failed h).2

/-- **A failure seals the file.** -/
theorem dead_of_fails (hf : s.fails l = true) (h : s.step codec l = some s') : s'.Dead := by
  revert h
  fun_cases State.step
  all_goals intro h
  any_goals cases h
  · cases hf
  · next data =>
    cases hp : s.process with
    | none =>
      rw [fails, hp] at hf
      cases hf
    | some p =>
      rw [fails, hp, Option.any_some] at hf
      simp only [Bool.and_eq_true, Bool.not_eq_true', Option.isNone_iff_eq_none,
        decide_eq_true_eq] at hf
      obtain ⟨⟨⟨⟨hopen, hgood⟩, hfits⟩, hroom⟩, hseq⟩ := hf
      rw [enter, hp] at h
      obtain ⟨-, rfl⟩ := of_guard h
      have hwrite : p.write data = p.poison (failure .limit "archive-sequence" []) := by
        unfold Process.write
        rw [if_neg, if_pos hroom, if_pos hseq]
        simp [hopen, hgood, hfits]
      rw [hwrite]
      exact dead_of_poison _ _ _
  · next p hp =>
    rw [fails, hp, Option.any_some] at hf
    split at hf
    · next count hst =>
      simp only [succeed, hst] at h
      cases h
      exact dead_of_wrote (.inr (of_decide_eq_true hf)) _
    · cases hf
  · unfold fail at h
    split at h
    all_goals cases h
    iterate 3 exact fun _ hq => by cases hq
    · exact dead_of_wrote (.inl rfl) _
    · exact dead_of_poison _ _ _
  · cases hf
  · next err _ _ _ =>
    cases err with
    | none => cases hf
    | some =>
      cases h
      exact dead_of_poison _ _ _
  · next err =>
    cases err with
    | none => cases hf
    | some =>
      unfold enter at h
      split at h
      · next p hp =>
        obtain ⟨-, rfl⟩ := of_guard h
        intro q hq
        cases hq
        unfold Process.sync
        dsimp only [Option.map_some]
        split
        · next hdead => exact hdead.symm
        · exact .inl (poisoned p _).2
      · cases h
  · cases hf
  · cases hf

/-- **A file that is sealed is left alone**, until it is opened again. -/
theorem Dead.step (hd : s.Dead) (hok : s.Right codec) (hl : l.starts = false)
    (h : s.step codec l = some s') : s'.dir = s.dir ∧ s'.Dead := by
  have hidle : ∀ p, s.process = some p → p.stage = .idle := fun p hp =>
    idle_of_dead (hok p hp) (hd p hp)
  have henter : ∀ {f : Process ε → Process ε}, s.enter f = some s' →
      (∀ p, p.failed.isSome = true ∨ p.closed = true →
        (f p).failed.isSome = true ∨ (f p).closed = true) → s'.dir = s.dir ∧ s'.Dead := by
    intro f h hf
    unfold enter at h
    split at h
    · next p hp =>
      obtain ⟨-, rfl⟩ := of_guard h
      refine ⟨rfl, fun q hq => ?_⟩
      cases hq
      exact hf p (hd p hp)
    · cases h
  revert h
  fun_cases State.step
  all_goals intro h
  any_goals cases h
  · cases hl
  · refine henter h (fun p hp => ?_)
    unfold Process.write
    rw [if_pos (by rw [← or_assoc]; exact .inl hp.symm)]
    exact hp
  · next p hp =>
    rw [succeed, hidle p hp] at h
    cases h
  · next p err hp =>
    rw [fail, hidle p hp] at h
    cases h
  · next p hp count hst => cases hst.symm.trans (hidle p hp)
  · next p hp hst => cases hst.symm.trans (hidle p hp)
  · refine henter h (fun p hp => ?_)
    unfold Process.sync
    split
    · rw [if_pos hp.symm]
      exact hp
    · exact hp
  · exact henter h (fun p _ => .inr rfl)
  · exact ⟨rfl, fun _ hp => by cases hp⟩

/-! ## Runs -/

section Runs

variable {d : Directory} {tr : List (Event ε)}

/-- **What is known of a run.** -/
structure History (codec : Codec) (d : Directory) (tr : List (Event ε)) (s : State ε) : Prop where
  right : s.Right codec
  kept : Kept ((machine codec d).outputs accepted ⟨d, none⟩ tr)
    ((machine codec d).outputs (fun s l => (s.retired l).map (s.dir.textOf codec)) ⟨d, none⟩ tr)
    (s.settled codec)
  newest : ∀ q ∈ (machine codec d).outputs numbered ⟨d, none⟩ tr,
    ∃ n ∈ s.dir.archives, q ≤ n.sequence
  initial : ∀ n ∈ d.archives, ∃ m ∈ s.dir.archives, n.sequence ≤ m.sequence
  increasing : ((machine codec d).outputs numbered ⟨d, none⟩ tr).Pairwise (· < ·)
  after : ∀ n ∈ d.archives, ∀ q ∈ (machine codec d).outputs numbered ⟨d, none⟩ tr, n.sequence < q
  oldest : ∀ n ∈ (machine codec d).outputs retired ⟨d, none⟩ tr,
    (∀ m ∈ s.dir.archives, n.sequence < m.sequence) ∧ s.dir.archives ≠ []

theorem History.init : History codec d ([] : List (Event ε)) ⟨d, none⟩ where
  right := nofun
  kept := Kept.nil _
  newest := nofun
  initial n hn := ⟨n, hn, le_rfl⟩
  increasing := List.Pairwise.nil
  after := nofun
  oldest := nofun

theorem History.step (hr : (machine codec d).Run tr s) (h : History codec d tr s)
    (hl : s.step codec l = some s') : History codec d (tr ++ [l]) s' := by
  have hm := moved h.right hl
  have hout : ∀ {Λ : Type} (out : State ε → Event ε → List Λ),
      (machine codec d).outputs out ⟨d, none⟩ (tr ++ [l])
        = (machine codec d).outputs out ⟨d, none⟩ tr ++ out s l := fun out => hr.outputs_concat l
  refine ⟨hm.ok, ?_, fun q hq => ?_, fun n hn => ?_, ?_, fun n hn q hq => ?_, fun n hn => ?_⟩
  · rw [hout, hout]
    exact hm.kept _ _ h.kept
  · rw [hout] at hq
    obtain hq | hq := List.mem_append.mp hq
    · obtain ⟨n, hn, hle⟩ := h.newest q hq
      obtain ⟨m, hm', hle'⟩ := hm.archives.newest n hn
      exact ⟨m, hm', hle.trans hle'⟩
    · exact (hm.archives.numbered q hq).2
  · obtain ⟨m, hm', hle⟩ := h.initial n hn
    obtain ⟨m', hm'', hle'⟩ := hm.archives.newest m hm'
    exact ⟨m', hm'', hle.trans hle'⟩
  · rw [hout, List.pairwise_append]
    refine ⟨h.increasing, ?_, fun q hq q' hq' => ?_⟩
    · unfold numbered
      split
      · split
        · split
          · exact List.pairwise_singleton _ _
          · exact List.Pairwise.nil
        · exact List.Pairwise.nil
      · exact List.Pairwise.nil
    · obtain ⟨n, hn, hle⟩ := h.newest q hq
      exact hle.trans_lt ((hm.archives.numbered q' hq').1 n hn)
  · rw [hout] at hq
    obtain hq | hq := List.mem_append.mp hq
    · exact h.after n hn q hq
    · obtain ⟨m, hm', hle⟩ := h.initial n hn
      exact hle.trans_lt ((hm.archives.numbered q hq).1 m hm')
  · rw [hout] at hn
    obtain hn | hn := List.mem_append.mp hn
    · obtain ⟨hlt, hne⟩ := h.oldest n hn
      obtain ⟨x, hx⟩ := List.exists_mem_of_ne_nil _ hne
      refine ⟨fun m hm' => ?_, ?_⟩
      · obtain hold | hnew := hm.archives.fresh m hm'
        · exact hlt m hold
        · exact (hlt x hx).trans_le (hnew x hx)
      · obtain ⟨m, hm', -⟩ := hm.archives.newest x hx
        exact List.ne_nil_of_mem hm'
    · obtain ⟨hin, hlt⟩ := hm.archives.retired n hn
      obtain ⟨m, hm', -⟩ := hm.archives.newest n hin
      exact ⟨hlt, List.ne_nil_of_mem hm'⟩

theorem history_of_run (hr : (machine codec d).Run tr s) : History codec d tr s :=
  hr.invariant .init (fun hr h => h.step hr)

/-- After a record has been accepted the file is within its bounds. -/
theorem bounded_of_accepted (h : s.Right codec) (hl : s.step codec l = some s')
    (ha : s.accepted l ≠ []) : ∃ p f, s'.process = some p ∧ s'.dir.lookup .current = some f
      ∧ f.content.length ≤ p.options.maxFileBytes
      ∧ s'.dir.archives.length ≤ p.options.maxBackups := by
  have hok := (moved h hl).ok
  unfold accepted at ha
  split at ha
  · split at ha
    · next p hp =>
      split at ha
      · next hst =>
        have hat := h p hp
        rw [Process.Ok, hst] at hat
        obtain ⟨hw, -⟩ := hat
        simp only [step, hp, succeed, hst] at hl
        cases hl
        have hwrote : p.wrote p.data.length none
            = { p with size := p.size + p.data.length, stage := .idle } := by
          unfold Process.wrote
          simp
        have hidle := hok _ rfl
        rw [hwrote] at hidle
        obtain ⟨hw', hfew, f, hf, hsize, hmax⟩ := hidle hw.failed hw.closed
        refine ⟨_, f, rfl, hf, ?_, ?_⟩
        · rw [hwrote]
          exact hsize.trans_le hmax
        · rw [hwrote]
          refine (congrArg List.length hw'.archives).trans_le ?_
          rw [List.append_nil]
          exact hfew
      · exact absurd rfl ha
    · exact absurd rfl ha
  · exact absurd rfl ha

theorem dir_of_dead {tr' : List (Event ε)} (hr : (machine codec d).Run tr s) (hd : s.Dead)
    (hs : ∀ x ∈ tr', x.starts = false) (he : (machine codec d).exec s tr' = some s') :
    s'.dir = s.dir := by
  induction tr' generalizing tr s with
  | nil =>
    cases he
    rfl
  | cons x tr' ih =>
    obtain ⟨t, ht, he⟩ := Option.bind_eq_some_iff.mp he
    obtain ⟨hdir, hdead⟩ := hd.step (history_of_run hr).right (hs x (.head _)) ht
    have hrest := ih (hr.concat ht) hdead (fun y hy => hs y (.tail _ hy)) he
    exact hrest.trans hdir

theorem data_of_step (hl : s.step codec l = some s') {p' : Process ε} (hp : s'.process = some p')
    (hb : p'.stage.busy = true) : l = .write p'.data
      ∨ l.record = none ∧ ∃ p, s.process = some p ∧ p.stage.busy = true ∧ p'.data = p.data := by
  cases l with
  | start options err =>
    obtain ⟨-, hl⟩ := Option.ite_none_right_eq_some.mp hl
    cases hl
    grind [start, Stage.busy]
  | write data =>
    change s.enter _ = some s' at hl
    grind [enter, Process.write, Process.poison, Stage.busy]
  | call err =>
    refine .inr ⟨rfl, ?_⟩
    dsimp only [step] at hl
    split at hl
    · next p hs =>
      refine ⟨p, hs, ?_⟩
      revert hl
      fun_cases succeed
      all_goals intro hl
      any_goals obtain ⟨d, -, rfl⟩ := Option.map_eq_some_iff.mp hl
      any_goals cases hl
      all_goals cases hp
      all_goals grind [Process.goto, Process.wrote, Process.poison, Process.archived,
        Process.retain, Stage.busy]
    · next p err hs =>
      refine ⟨p, hs, ?_⟩
      revert hl
      fun_cases fail
      all_goals rintro ⟨⟩
      all_goals cases hp
      all_goals grind [Process.wrote, Process.poison, Stage.busy]
    · cases hl
  | append n =>
    dsimp only [step, append] at hl
    grind [become, Process.goto, Stage.busy, Event.record]
  | copied bytes err =>
    dsimp only [step, copied] at hl
    grind [become, Process.goto, Process.poison, Stage.busy, Event.record]
  | sync err =>
    change s.enter _ = some s' at hl
    cases err
    all_goals grind [enter, Process.sync, Process.poison, Stage.busy]
  | close =>
    change s.enter _ = some s' at hl
    grind [enter, Stage.busy]
  | crash =>
    cases hl
    cases hp

theorem record_of_run (hr : (machine codec d).Run tr s) {p : Process ε} (hp : s.process = some p)
    (hb : p.stage.busy = true) : (tr.filterMap Event.record).getLast? = some p.data := by
  refine hr.invariant (I := fun tr s => ∀ p, s.process = some p → p.stage.busy = true →
    (tr.filterMap Event.record).getLast? = some p.data) nofun
    (fun {tr s l s'} _ ih hl p' hp' hb' => ?_) p hp hb
  obtain rfl | ⟨hnone, p, hp, hb, hdata⟩ := data_of_step hl hp' hb'
  · simp [Event.record]
  · rw [List.filterMap_append, List.filterMap_cons_none hnone, hdata]
    simpa using ih p hp hb

/-- **What is accepted is what `Write` was called with**, the last time. -/
theorem record_of_accepted (hr : (machine codec d).Run tr s) {data : Bytes}
    (hm : data ∈ s.accepted l) : (tr.filterMap Event.record).getLast? = some data := by
  revert hm
  fun_cases accepted
  · next p hp hs =>
    intro hm
    rw [List.mem_singleton.mp hm]
    exact record_of_run hr hp (by rw [hs]; rfl)
  all_goals exact nofun

/-- **Accepted records are kept.** In every run, from any directory: the
directory in sequence order carries every accepted record, in order, but for
those in the oldest archives, which retention has removed as a whole; no
archive is overwritten; archives are numbered upwards; after a record has
been accepted the current file and the number of archives are within bounds;
after a failure nothing is written until the directory is opened again; and
an accepted record is what `Write` was called with. -/
theorem records_kept (hr : (machine codec d).Run tr s) :
    Kept ((machine codec d).outputs accepted ⟨d, none⟩ tr)
      ((machine codec d).outputs (fun s l => (s.retired l).map (s.dir.textOf codec)) ⟨d, none⟩ tr)
      (s.dir.contents codec) ∧
    (∀ n ∈ (machine codec d).outputs retired ⟨d, none⟩ tr,
      ∀ m ∈ s.dir.archives, n.sequence < m.sequence) ∧
    (∀ l s', s.step codec l = some s' → ∀ n, n.isArchive = true → ∀ f,
      s.dir.lookup n = some f → s'.dir.lookup n = some f ∨ s'.dir.lookup n = none) ∧
    ((machine codec d).outputs numbered ⟨d, none⟩ tr).Pairwise (· < ·) ∧
    (∀ n ∈ d.archives, ∀ q ∈ (machine codec d).outputs numbered ⟨d, none⟩ tr, n.sequence < q) ∧
    (∀ l s', s.step codec l = some s' → s.accepted l ≠ [] →
      ∃ p f, s'.process = some p ∧ s'.dir.lookup .current = some f
        ∧ f.content.length ≤ p.options.maxFileBytes
        ∧ s'.dir.archives.length ≤ p.options.maxBackups) ∧
    (∀ tr₁ l tr₂ t u, tr = tr₁ ++ l :: tr₂ → (machine codec d).Run tr₁ t →
      t.step codec l = some u → t.fails l = true → (∀ x ∈ tr₂, x.starts = false) →
      s.dir = u.dir) ∧
    (∀ l, ∀ data ∈ s.accepted l, (tr.filterMap Event.record).getLast? = some data) := by
  have hh := history_of_run hr
  refine ⟨?_, fun n hn => (hh.oldest n hn).1, fun l s' hl => (moved hh.right hl).files,
    hh.increasing, hh.after, fun l s' hl => bounded_of_accepted hh.right hl, ?_,
    fun l data => record_of_accepted hr⟩
  · have hkept := hh.kept
    cases hp : s.process with
    | none =>
      rw [settled, hp] at hkept
      exact hkept
    | some p =>
      rw [settled_some hp] at hkept
      exact kept_contents (hh.right p hp) hkept
  · rintro tr₁ l tr₂ t u rfl ht hl hf hs
    obtain ⟨t', u', ht', hl', he⟩ := hr.split
    obtain rfl : t = t' := Option.some.inj (ht.symm.trans ht')
    obtain rfl : u = u' := Option.some.inj (hl.symm.trans hl')
    exact dir_of_dead (ht.concat hl) (dead_of_fails hf hl) hs he

end Runs

namespace Sample

def plain : Codec := ⟨id, some, fun _ => rfl⟩

def options : Options := ⟨2, 1, true, by decide, by decide⟩

def record (b : UInt8) : Bytes := [b, 10]

def written : List (Event Unit) := [.append 2, .call none]

def rotated : List (Event Unit) :=
  List.replicate 6 (.call none) ++ [.copied [] none] ++ List.replicate 6 (.call none)

/-- Three records, of which the first is in an archive that is removed; a
fourth one that is lost with its process, in the middle of a rotation. -/
def run : List (Event Unit) :=
  [.start options none] ++ List.replicate 3 (.call none)
    ++ [.write (record 1)] ++ written
    ++ [.write (record 2)] ++ rotated ++ List.replicate 2 (.call none) ++ written
    ++ [.write (record 3)] ++ rotated ++ List.replicate 4 (.call none) ++ written
    ++ [.write (record 4)] ++ List.replicate 4 (.call none) ++ [.crash]

end Sample

/-- The first record is gone with its archive, and the other two are where a
reader of the directory finds them. -/
theorem records_kept_crashed :
    ∃ s : State Unit, (machine Sample.plain ∅).Run Sample.run s
      ∧ s.dir.lookup (.archive 2 true) = some ⟨Sample.record 2, true⟩
      ∧ s.dir.lookup (.archive 3 false) = some ⟨Sample.record 3, true⟩
      ∧ Kept [Sample.record 1, Sample.record 2, Sample.record 3] [Sample.record 1]
        (s.dir.contents Sample.plain) := by
  have hr := (machine Sample.plain ∅).run_reached Sample.run (by decide +kernel)
  have hacc : (machine Sample.plain ∅).outputs accepted ⟨∅, none⟩ Sample.run
      = [Sample.record 1, Sample.record 2, Sample.record 3] := by decide +kernel
  have hret : (machine Sample.plain ∅).outputs
      (fun s l => (s.retired l).map (s.dir.textOf Sample.plain)) ⟨∅, none⟩ Sample.run
      = [Sample.record 1] := by decide +kernel
  have hkept := (records_kept hr).1
  rw [hacc, hret] at hkept
  exact ⟨_, hr, by decide +kernel, by decide +kernel, hkept⟩

end State

end LogFile
