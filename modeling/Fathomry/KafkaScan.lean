import Fathomry.KafkaPage
import Mathlib.Algebra.BigOperators.Group.List.Basic
import Mathlib.Data.List.Pairwise

/-!
# A page is a cut of the log

A page may end for six reasons – its range ends, the page is full, a record
is too large for it or for any page, the parsed records are used up – and
each of them sets the next offset in its own way. What has to come out is
the same in all cases: the page holds the visible records from its start up
to its next offset, all of them and nothing else (`Page.Covers`).

The loop keeps the records it has passed apart from those to come. The cut
is always at the first record to come or at the end of the range, and since
offsets increase this is what separates the two.
-/

namespace Kafka

variable {ε : Type} {value : Settings} {interval : Range}

/-- What the native parser promises of its records: offsets that increase,
from the offset of the fetch up to the offset it returns. -/
structure Parsed.Sound (start : ℤ) (p : Parsed ε) : Prop where
  increasing : p.records.Pairwise (fun a b => a.offset < b.offset)
  inside : ∀ r ∈ p.records, start ≤ r.offset ∧ r.offset < p.next

/-- The visible records. -/
def data (rs : List NativeRecord) : List NativeRecord := rs.filter (fun r => !r.control)

/-- **The visible records of a range of offsets.** -/
def visible (start finish : ℤ) (rs : List NativeRecord) : List NativeRecord :=
  rs.filter (fun r => !r.control && (decide (start ≤ r.offset) && decide (r.offset < finish)))

/-- What the native parser promises, of a reply. -/
def FetchReply.Sound (start : ℤ) (x : FetchReply ε) : Prop :=
  ∀ p, x.prepared = .ok p → p.Sound start

def FetchReply.records (x : FetchReply ε) : List NativeRecord :=
  match x.prepared with
  | .ok p => p.records
  | .error _ => []

/-- **What a page says about the records it was cut from.** -/
structure Page.Covers (value : Settings) (interval : Range) (rs : List NativeRecord)
    (page : Page) : Prop where
  records : page.records
    = (visible interval.start.offset page.next rs).map (frozen interval.start)
  next_le : page.next ≤ interval.finish
  progress : interval.start.offset < interval.finish → interval.start.offset < page.next
  empty : interval.finish = interval.start.offset → page.next = interval.start.offset
  count : (page.records.length : ℤ) ≤ value.maxRecords
  bytes : ((visible interval.start.offset page.next rs).map nativeRecordSize).sum
    ≤ value.maxBatchBytes
  complete : page.complete = true → interval.finish ≤ page.next

instance (start : ℤ) (p : Parsed ε) : Decidable (p.Sound start) :=
  decidable_of_iff (p.records.Pairwise (fun a b => a.offset < b.offset)
      ∧ ∀ r ∈ p.records, start ≤ r.offset ∧ r.offset < p.next)
    ⟨fun h => ⟨h.1, h.2⟩, fun h => ⟨h.increasing, h.inside⟩⟩

instance (start : ℤ) (x : FetchReply ε) : Decidable (x.Sound start) :=
  match h : x.prepared with
  | .ok p => decidable_of_iff (p.Sound start)
      ⟨fun hp _ hq => Except.ok.inj (h.symm.trans hq) ▸ hp, fun hx => hx p h⟩
  | .error _ => .isTrue (fun _ hq => nomatch h.symm.trans hq)

/-! ## Visible records -/

theorem visible_append (start finish : ℤ) (rs rs' : List NativeRecord) :
    visible start finish (rs ++ rs') = visible start finish rs ++ visible start finish rs' :=
  List.filter_append _ _

theorem visible_eq_data {start finish : ℤ} {rs : List NativeRecord}
    (h : ∀ r ∈ rs, start ≤ r.offset ∧ r.offset < finish) : visible start finish rs = data rs := by
  refine List.filter_congr (fun r hr => ?_)
  rw [decide_eq_true (h r hr).1, decide_eq_true (h r hr).2, Bool.and_true, Bool.and_true]

theorem visible_eq_nil {start finish : ℤ} {rs : List NativeRecord}
    (h : ∀ r ∈ rs, finish ≤ r.offset) : visible start finish rs = [] := by
  refine List.filter_eq_nil_iff.mpr (fun r hr hv => ?_)
  have hlt := (Bool.and_eq_true_iff.mp (Bool.and_eq_true_iff.mp hv).2).2
  exact absurd (of_decide_eq_true hlt) (not_lt.mpr (h r hr))

theorem visible_self (start : ℤ) (rs : List NativeRecord) : visible start start rs = [] := by
  refine List.filter_eq_nil_iff.mpr (fun r _ hv => ?_)
  have hb := Bool.and_eq_true_iff.mp (Bool.and_eq_true_iff.mp hv).2
  exact absurd (of_decide_eq_true hb.2) (not_lt.mpr (of_decide_eq_true hb.1))

theorem visible_filter {start finish next : ℤ} (h : finish ≤ next) (rs : List NativeRecord) :
    visible start finish
        (rs.filter (fun r => decide (start ≤ r.offset) && decide (r.offset < next)))
      = visible start finish rs := by
  unfold visible
  rw [List.filter_filter]
  refine List.filter_congr (fun r _ => ?_)
  by_cases hr : r.offset < finish
  · rw [decide_eq_true (hr.trans_le h), Bool.and_true, decide_eq_true hr, Bool.and_true,
      Bool.and_assoc, Bool.and_self]
  · rw [decide_eq_false hr, Bool.and_false, Bool.and_false, Bool.false_and]

/-- **A cut between two lists of records.** -/
theorem visible_cut {start finish : ℤ} {done rest : List NativeRecord}
    (hdone : ∀ r ∈ done, start ≤ r.offset ∧ r.offset < finish)
    (hrest : ∀ r ∈ rest, finish ≤ r.offset) : visible start finish (done ++ rest) = data done := by
  rw [visible_append, visible_eq_data hdone, visible_eq_nil hrest, List.append_nil]

/-- **Ranges that meet.** The visible records of two ranges in a row are
those of both. -/
theorem visible_append_visible {a b c : ℤ} (hab : a ≤ b) (hbc : b ≤ c) :
    ∀ {rs : List NativeRecord}, rs.Pairwise (fun x y => x.offset < y.offset) →
    visible a b rs ++ visible b c rs = visible a c rs := by
  intro rs hrs
  induction rs with
  | nil => rfl
  | cons r rs ih =>
    obtain ⟨hr, hrs'⟩ := List.pairwise_cons.mp hrs
    by_cases hlt : r.offset < b
    · -- the record is before the meeting point
      have hsecond : visible b c (r :: rs) = visible b c rs := by
        refine List.filter_cons_of_neg ?_
        rw [decide_eq_false (not_le.mpr hlt), Bool.false_and, Bool.and_false]
        exact Bool.false_ne_true
      have hboth : visible a b [r] = visible a c [r] := by
        refine List.filter_congr (fun x hx => ?_)
        rw [List.mem_singleton.mp hx, decide_eq_true hlt, decide_eq_true (hlt.trans_le hbc)]
      rw [hsecond, ← List.singleton_append, visible_append a b, visible_append a c, hboth,
        List.append_assoc, ih hrs']
    · -- so are all that follow it not
      rw [not_lt] at hlt
      have hge : ∀ x ∈ r :: rs, b ≤ x.offset := by
        intro x hx
        obtain rfl | hx := List.mem_cons.mp hx
        · exact hlt
        · exact hlt.trans (hr x hx).le
      rw [visible_eq_nil hge, List.nil_append]
      refine List.filter_congr (fun x hx => ?_)
      rw [decide_eq_true (hge x hx), decide_eq_true (hab.trans (hge x hx))]

/-! ## The loop -/

/-- **Where the loop is**: `done` has been passed and put into the page. -/
structure Scanning (value : Settings) (interval : Range) (done : List NativeRecord) (page : Page)
    (total : ℤ) : Prop where
  records : page.records = (data done).map (frozen interval.start)
  next : page.next = interval.start.offset
  complete : page.complete = false
  passed : ∀ r ∈ done, interval.start.offset ≤ r.offset ∧ r.offset < interval.finish
  sum : total = ((data done).map nativeRecordSize).sum
  count : (page.records.length : ℤ) ≤ value.maxRecords
  bytes : total ≤ value.maxBatchBytes

namespace Scanning

variable {done rest : List NativeRecord} {r : NativeRecord} {page : Page} {total : ℤ}

variable (h : Scanning value interval done page total)
include h

theorem control (hr : r.control = true)
    (hs : interval.start.offset ≤ r.offset ∧ r.offset < interval.finish) :
    Scanning value interval (done ++ [r]) page total := by
  have hdata : data (done ++ [r]) = data done := by
    unfold data
    rw [List.filter_append, List.filter_cons_of_neg (by rw [hr]; decide), List.filter_nil,
      List.append_nil]
  refine { h with
    records := hdata ▸ h.records
    passed := fun x hx => ?_
    sum := hdata ▸ h.sum }
  obtain hx | hx := List.mem_append.mp hx
  · exact h.passed x hx
  · rw [List.mem_singleton.mp hx]
    exact hs

theorem append (hr : r.control = false)
    (hs : interval.start.offset ≤ r.offset ∧ r.offset < interval.finish)
    (hcount : (page.records.length : ℤ) ≠ value.maxRecords)
    (hbytes : nativeRecordSize r ≤ value.maxBatchBytes - total) :
    Scanning value interval (done ++ [r]) (page.append (frozen interval.start r))
      (total + nativeRecordSize r) := by
  have hdata : data (done ++ [r]) = data done ++ [r] := by
    unfold data
    rw [List.filter_append, List.filter_cons_of_pos (by rw [hr]; rfl), List.filter_nil]
  refine ⟨?_, h.next, h.complete, fun x hx => ?_, ?_, ?_, ?_⟩
  · show page.records ++ [_] = _
    rw [hdata, h.records, List.map_append, List.map_singleton]
  · obtain hx | hx := List.mem_append.mp hx
    · exact h.passed x hx
    · rw [List.mem_singleton.mp hx]
      exact hs
  · rw [hdata, List.map_append, List.sum_append, List.map_singleton, List.sum_singleton, h.sum]
  · show ((page.records ++ [_]).length : ℤ) ≤ _
    rw [List.length_append, List.length_singleton]
    have := h.count
    omega
  · omega

/-- **A page that ends before its range**, at the next record. -/
theorem covers_cut (hrest : ∀ x ∈ rest, r.offset ≤ x.offset)
    (hdone : ∀ x ∈ done, x.offset < r.offset) (hend : r.offset < interval.finish)
    (hne : page.records ≠ []) : (page.cut r.offset).Covers value interval (done ++ rest) := by
  have hcut : visible interval.start.offset r.offset (done ++ rest) = data done :=
    visible_cut (fun x hx => ⟨(h.passed x hx).1, hdone x hx⟩) hrest
  have hdata : data done ≠ [] := by
    intro hn
    rw [h.records, hn] at hne
    exact hne rfl
  obtain ⟨x, hx⟩ := List.exists_mem_of_ne_nil _ hdata
  have hx' : x ∈ done := List.mem_of_mem_filter hx
  have hlt : interval.start.offset < r.offset := (h.passed x hx').1.trans_lt (hdone x hx')
  refine ⟨?_, hend.le, fun _ => hlt, fun he => absurd he (hlt.trans hend).ne', h.count, ?_,
    fun hc => ?_⟩
  · show page.records = (visible _ r.offset _).map _
    rw [hcut, h.records]
  · show ((visible _ r.offset _).map _).sum ≤ _
    rw [hcut, ← h.sum]
    exact h.bytes
  · exact nomatch h.complete.symm.trans hc

theorem covers_finish (hrest : ∀ x ∈ rest, interval.finish ≤ x.offset) :
    (page.finish interval.finish).Covers value interval (done ++ rest) := by
  have hcut : visible interval.start.offset interval.finish (done ++ rest) = data done :=
    visible_cut h.passed hrest
  refine ⟨?_, le_rfl, id, id, h.count, ?_, fun _ => le_rfl⟩
  · show page.records = (visible _ interval.finish _).map _
    rw [hcut, h.records]
  · show ((visible _ interval.finish _).map _).sum ≤ _
    rw [hcut, ← h.sum]
    exact h.bytes

/-- **A page of everything that was parsed.** -/
theorem covers_scanned {next : ℤ} {page' : Page} (hin : ∀ x ∈ done, x.offset < next)
    (hs : scanned (ε := ε) interval next page = (page', none)) :
    page'.Covers value interval done := by
  obtain ⟨rfl, herr⟩ := Prod.mk.inj hs
  have hmove : reached interval next page ≠ interval.start.offset := fun hn =>
    nomatch (if_pos hn).symm.trans herr
  have hlt : page.next < next := by
    by_contra hn
    unfold reached at hmove
    rw [if_neg hn] at hmove
    exact hmove h.next
  have hreach : reached interval next page = min next interval.finish := if_pos hlt
  have hcut : visible interval.start.offset (reached interval next page) done = data done :=
    visible_eq_data (fun x hx => ⟨(h.passed x hx).1, hreach ▸ lt_min (hin x hx) (h.passed x hx).2⟩)
  refine ⟨?_, ?_, fun hp => ?_, fun he => ?_, h.count, ?_, fun hc => of_decide_eq_true hc⟩
  · show page.records = (visible _ (reached interval next page) _).map _
    rw [hcut, h.records]
  · show reached interval next page ≤ _
    rw [hreach]
    exact min_le_right _ _
  · show _ < reached interval next page
    rw [hreach]
    exact lt_min (h.next ▸ hlt) hp
  · show reached interval next page = _
    rw [hreach, he]
    exact min_eq_right (h.next ▸ hlt).le
  · show ((visible _ (reached interval next page) _).map _).sum ≤ _
    rw [hcut, ← h.sum]
    exact h.bytes

end Scanning

/-- A page that has room for no record of bounded size is not empty. -/
theorem Scanning.ne_nil_of_full {done : List NativeRecord} {page : Page} {total : ℤ}
    (h : Scanning value interval done page total) {size : ℤ} (hsize : size ≤ value.maxRecordBytes)
    (hfull : value.maxBatchBytes - total < size) : page.records ≠ [] := by
  intro hn
  rw [h.records, List.map_eq_nil_iff] at hn
  have hzero : total = 0 := by rw [h.sum, hn]; rfl
  have hbatch := value.batch_bound.1
  omega

/-- **The loop returns a cut of the parsed records.** By induction on the
records to come. -/
theorem scan_covers {next : ℤ} {page' : Page} (rest : List NativeRecord) :
    ∀ {done : List NativeRecord} {page : Page} {total : ℤ},
    Scanning value interval done page total →
    (done ++ rest).Pairwise (fun a b => a.offset < b.offset) →
    (∀ r ∈ done ++ rest, interval.start.offset ≤ r.offset ∧ r.offset < next) →
    scan (ε := ε) value interval next rest page total = (page', none) →
    page'.Covers value interval (done ++ rest) := by
  induction rest with
  | nil =>
    intro done page total h _ hin hs
    rw [List.append_nil] at hin ⊢
    exact h.covers_scanned (fun x hx => (hin x hx).2) hs
  | cons r rest ih =>
    intro done page total h hsorted hin hs
    obtain ⟨-, hrest, hacross⟩ := List.pairwise_append.mp hsorted
    have hle : ∀ x ∈ r :: rest, r.offset ≤ x.offset := by
      intro x hx
      obtain rfl | hx := List.mem_cons.mp hx
      · exact le_rfl
      · exact ((List.pairwise_cons.mp hrest).1 x hx).le
    have hdone : ∀ x ∈ done, x.offset < r.offset := fun x hx =>
      hacross x hx r (.head _)
    have hstart := (hin r (List.mem_append_right _ (.head _))).1
    have happend : done ++ r :: rest = (done ++ [r]) ++ rest := List.append_cons _ _ _
    unfold scan at hs
    split_ifs at hs with hend hout hctl hfull hbig hsome hbytes
    · cases hs
      exact h.covers_finish (fun x hx => hend.trans (hle x hx))
    all_goals rw [not_le] at hend
    · exact nomatch (Prod.mk.inj hs).2
    · rw [happend] at hsorted hin ⊢
      exact ih (h.control hctl ⟨hstart, hend⟩) hsorted hin hs
    · cases hs
      refine h.covers_cut hle hdone hend (fun hn => ?_)
      have hpos := value.records_bound.1
      rw [hn, List.length_nil] at hfull
      exact nomatch hfull ▸ hpos
    · cases hs
      exact h.covers_cut hle hdone hend (List.ne_nil_of_length_pos hsome)
    · exact nomatch (Prod.mk.inj hs).2
    · cases hs
      exact h.covers_cut hle hdone hend (h.ne_nil_of_full (not_lt.mp hbig) hbytes)
    · rw [happend] at hsorted hin ⊢
      exact ih (h.append (eq_false_of_ne_true hctl) ⟨hstart, hend⟩ hfull (not_lt.mp hbytes))
        hsorted hin hs

/-- A page does not go past what was parsed. -/
theorem scan_next_le {next : ℤ} {page' : Page} (rest : List NativeRecord) :
    ∀ {page : Page} {total : ℤ}, page.next = interval.start.offset →
    (∀ r ∈ rest, r.offset < next) →
    scan (ε := ε) value interval next rest page total = (page', none) → page'.next ≤ next := by
  induction rest with
  | nil =>
    intro page total hnext _ hs
    obtain ⟨rfl, herr⟩ := Prod.mk.inj hs
    show reached interval next page ≤ next
    by_cases hlt : page.next < next
    · rw [show reached interval next page = _ from if_pos hlt]
      exact min_le_left _ _
    · have hsame : reached interval next page = interval.start.offset := (if_neg hlt).trans hnext
      exact nomatch (if_pos hsame).symm.trans herr
  | cons r rest ih =>
    intro page total hnext hin hs
    have hr := (hin r (.head _)).le
    have hrest : ∀ x ∈ rest, x.offset < next := fun x hx => hin x (.tail _ hx)
    unfold scan at hs
    split_ifs at hs with hend hout hctl hfull hbig hsome hbytes
    · cases hs
      exact hend.trans hr
    · exact nomatch (Prod.mk.inj hs).2
    · exact ih hnext hrest hs
    · cases hs
      exact hr
    · cases hs
      exact hr
    · exact nomatch (Prod.mk.inj hs).2
    · cases hs
      exact hr
    · exact ih (show (page.append _).next = _ from hnext) hrest hs

/-! ## The page -/

/-- **Where a page comes from**: its range is empty, or the parsed records
were scanned. -/
theorem scan_of_fetchPage {x : FetchReply ε} {page : Page}
    (h : fetchPage value interval x = (page, none)) :
    (interval.finish = interval.start.offset
      ∧ page = (Page.new interval.start.offset).finish interval.start.offset)
    ∨ ∃ p raw, interval.finish ≠ interval.start.offset ∧ x.prepared = .ok p
      ∧ scan (ε := ε) value interval p.next p.records
        (((Page.new interval.start.offset).watermarks (ε := ε) raw).observe) 0 = (page, none) := by
  have hnever {page' : Page} {err : Err ε} {P : Prop} (hn : (page', some err) = (page, none)) : P :=
    nomatch (Prod.mk.inj hn).2
  unfold fetchPage readPage parsePage at h
  repeat' split at h
  all_goals try exact hnever h
  · next hempty => exact .inl ⟨hempty, (Prod.mk.inj h).1.symm⟩
  · next hempty _ raw _ _ _ _ _ _ _ p hp _ _ _ => exact .inr ⟨p, raw, hempty, hp, h⟩

/-- **A page is a cut of the records of its reply.** -/
theorem fetchPage_covers {x : FetchReply ε} {page : Page} (hx : x.Sound interval.start.offset)
    (h : fetchPage value interval x = (page, none)) : page.Covers value interval x.records := by
  obtain ⟨hempty, rfl⟩ | ⟨p, raw, -, hp, hs⟩ := scan_of_fetchPage h
  · -- an empty range has nothing to show
    have hnil := visible_self interval.start.offset x.records
    refine ⟨?_, hempty.ge, fun hlt => absurd hempty hlt.ne', fun _ => rfl, ?_, ?_,
      fun _ => hempty.le⟩
    · show [] = (visible _ interval.start.offset _).map _
      rw [hnil, List.map_nil]
    · exact zero_le_one.trans value.records_bound.1
    · show ((visible _ interval.start.offset _).map _).sum ≤ _
      rw [hnil]
      have := value.record_bound.1
      have := value.batch_bound.1
      show (0 : ℤ) ≤ _
      omega
  · have hrecords : x.records = p.records := by
      unfold FetchReply.records
      rw [hp]
    have hsound := hx p hp
    have hroom : 0 ≤ value.maxBatchBytes := by
      have := value.record_bound.1
      have := value.batch_bound.1
      omega
    have hbegin : Scanning value interval []
        (((Page.new interval.start.offset).watermarks raw).observe) 0 :=
      ⟨rfl, rfl, rfl, nofun, rfl, zero_le_one.trans value.records_bound.1, hroom⟩
    rw [hrecords]
    exact scan_covers p.records hbegin hsound.increasing hsound.inside hs

end Kafka
