import Fathomry.Carried
import Fathomry.LogLayout

/-!
# Every step of a rotation

At each system call the directory looks different: there is a current file or
there is none, the archive being made is there once, twice or not at all.
`Ok` says what the directory is while a process is at a stage, so far as the
process depends on it. `Process.settled` is what the records are kept in at
that stage. It is the directory in sequence order, but for two moments: while
a record is being written it does not count, and an archive that is there
twice counts once.
-/

namespace LogFile

variable {ε : Type} {codec : Codec} {d d' : Directory} {p : Process ε}

/-! ## What the directory is at a stage -/

def Stage.whole : Stage → Bool
  | .published | .discarding | .writing _ => false
  | _ => true

def Stage.mute : Stage → Bool
  | .shifting | .removing | .writing _ => false
  | _ => true

namespace Process

/-- A process at work, and the archives it is still to list. -/
structure AtWork (d : Directory) (p : Process ε) (names : List Name) : Prop where
  archives : d.archives = p.archives ++ names
  kind : ∀ n ∈ p.archives, ∃ q, n = .archive q p.options.compress
  sequence : ∀ n ∈ d.archives, n.sequence ≤ p.sequence
  bounded : p.sequence ≤ maxUint64
  failed : p.failed = none
  closed : p.closed = false

/-- Only the archives count. -/
theorem AtWork.congr {names : List Name} (h : AtWork d p names) (ha : d'.archives = d.archives) :
    AtWork d' p names :=
  { h with archives := ha.trans h.archives, sequence := ha ▸ h.sequence }

def Few (p : Process ε) : Prop := p.archives.length ≤ p.options.maxBackups

def Fits (p : Process ε) : Prop := p.data.length ≤ p.options.maxFileBytes

/-- The current file is there, as long as the process thinks. -/
def Measured (d : Directory) (p : Process ε) : Prop :=
  ∃ f, d.lookup .current = some f ∧ f.content.length = p.size ∧ p.size ≤ p.options.maxFileBytes

def Doubled (codec : Codec) (d : Directory) (m n : Name) : Prop :=
  ∃ f g, d.lookup m = some f ∧ d.lookup n = some g ∧ g.content = codec.gzip f.content

/-- **What the directory is while a process is at a stage.** -/
def Ok (codec : Codec) (d : Directory) (p : Process ε) : Prop :=
  match p.stage with
  | .creating present => AtWork d p [] ∧ p.Few ∧ present = (d.lookup .current).isSome
      ∧ ∀ f, d.lookup .current = some f → f.content.length ≤ p.options.maxFileBytes
  | .measuring _ => AtWork d p [] ∧ p.Few
      ∧ ∃ f, d.lookup .current = some f ∧ f.content.length ≤ p.options.maxFileBytes
  | .announcing => AtWork d p [] ∧ p.Few ∧ Measured d p
  | .idle => p.failed = none → p.closed = false → AtWork d p [] ∧ p.Few ∧ Measured d p
  | .syncing | .closing => AtWork d p [] ∧ p.Few ∧ p.Fits ∧ Measured d p ∧ p.sequence < maxUint64
  | .shifting => AtWork d p [] ∧ p.Few ∧ p.Fits ∧ Measured d p
      ∧ ∀ n ∈ d.archives, n.sequence < p.sequence
  | .shifted => AtWork d p [p.raw] ∧ p.Fits ∧ d.lookup .current = none
  | .opening | .exclusive | .copying => AtWork d p [p.raw] ∧ p.Fits
      ∧ d.lookup .current = none ∧ p.options.compress = true
  | .flushing | .releasing | .publishing => AtWork d p [p.raw] ∧ p.Fits
      ∧ d.lookup .current = none ∧ p.options.compress = true
      ∧ Doubled codec d p.raw (.temporary p.sequence)
  | .published | .discarding => AtWork d p [p.raw, p.packed] ∧ p.Fits
      ∧ d.lookup .current = none ∧ p.options.compress = true ∧ Doubled codec d p.raw p.packed
  | .discarded => AtWork d p [p.packed] ∧ p.Fits ∧ d.lookup .current = none
      ∧ p.options.compress = true
  | .removing => AtWork d p [] ∧ p.Fits ∧ d.lookup .current = none
      ∧ p.options.maxBackups < p.archives.length
  | .removed => AtWork d p [] ∧ p.Fits ∧ d.lookup .current = none
  | .recreating => AtWork d p [] ∧ p.Few ∧ p.Fits ∧ d.lookup .current = none
  | .recreated => AtWork d p [] ∧ p.Few ∧ p.Fits ∧ p.size = 0
      ∧ ∃ f, d.lookup .current = some f ∧ f.content = []
  | .writing count => AtWork d p [] ∧ p.Few ∧ count ≤ p.data.length
      ∧ p.size + p.data.length ≤ p.options.maxFileBytes
      ∧ ∃ f base, d.lookup .current = some f ∧ f.content = base ++ p.data.take count
        ∧ base.length = p.size

/-- **What the records are kept in.** -/
def settled (codec : Codec) (d : Directory) (p : Process ε) : List Bytes :=
  match p.stage with
  | .published | .discarding => (p.archives ++ [p.raw]).map (d.textOf codec)
  | .writing _ => d.archives.map (d.textOf codec) ++ [(d.textOf codec .current).take p.size]
  | _ => d.contents codec

theorem settled_of_whole (h : p.stage.whole = true) (codec : Codec) (d : Directory) :
    p.settled codec d = d.contents codec := by
  unfold settled
  split
  iterate 3
    next hst =>
    rw [hst] at h
    exact nomatch h
  · rfl

end Process

/-! ## Opening -/

theorem le_foldl_max (l : List ℕ) (a : ℕ) : a ≤ l.foldl max a ∧ ∀ n ∈ l, n ≤ l.foldl max a := by
  induction l generalizing a with
  | nil => exact ⟨le_rfl, nofun⟩
  | cons b l ih =>
    obtain ⟨ha, hl⟩ := ih (max a b)
    refine ⟨(le_max_left a b).trans ha, fun n hn => ?_⟩
    obtain rfl | hn := List.mem_cons.mp hn
    · exact (le_max_right a n).trans ha
    · exact hl n hn

theorem foldl_max_le {l : List ℕ} {a b : ℕ} (ha : a ≤ b) (h : ∀ n ∈ l, n ≤ b) :
    l.foldl max a ≤ b := by
  induction l generalizing a with
  | nil => exact ha
  | cons c l ih =>
    exact ih (max_le ha (h c (.head _))) (fun n hn => h n (.tail _ hn))

theorem parse_eq_some {options : Options} {n : Name} {q : ℕ} (h : options.parse n = some q) :
    n = .archive q options.compress ∧ q ≤ maxUint64 := by
  cases n with
  | archive =>
    obtain ⟨⟨rfl, -, hle⟩, hq⟩ := Option.ite_none_right_eq_some.mp h
    cases hq
    exact ⟨rfl, hle⟩
  | _ => cases h

/-- **What a process that opens a directory knows of it.** -/
structure Inspected (options : Options) (d : Directory) (names : List Name) : Prop where
  archives : d.archives = names
  kind : ∀ n ∈ names, ∃ q, n = .archive q options.compress ∧ q ≤ maxUint64
  few : names.length ≤ options.maxBackups
  current : ∀ f, d.lookup .current = some f → f.content.length ≤ options.maxFileBytes

theorem inspectFile_eq_none {options : Options} {n : Name} {f : File}
    (h : (options.inspectFile n f : Option (Err ε)) = none) :
    (n ≠ .current → ∃ q, n = .archive q options.compress ∧ q ≤ maxUint64)
      ∧ f.content.length ≤ options.maximum n := by
  unfold Options.inspectFile at h
  split at h
  · cases h
  next hname =>
  split at h
  · cases h
  next hmeta =>
  refine ⟨fun hn => ?_, Nat.le_of_not_lt (not_or.mp hmeta).2⟩
  obtain ⟨q, hq⟩ := Option.ne_none_iff_exists'.mp (fun hx => hname ⟨hn, hx⟩)
  exact ⟨q, parse_eq_some hq⟩

/-- Archives of one kind that are sorted as text are in order. -/
theorem pairwise_key_of_text {names : List Name} {c : Bool}
    (hkind : ∀ n ∈ names, ∃ q, n = .archive q c ∧ q ≤ maxUint64) (hnodup : names.Nodup) :
    (names.mergeSort (fun m n => m.text ≤ n.text)).Pairwise (fun m n => m.key < n.key) := by
  have hle := pairwise_mergeSort_le Name.text names
  have hnodup' := (List.mergeSort_perm names (fun m n => m.text ≤ n.text)).nodup_iff.mpr hnodup
  refine (hle.and hnodup').imp_of_mem (fun {m n} hm hn h => ?_)
  obtain ⟨i, rfl, hi⟩ := hkind m (List.mem_mergeSort.mp hm)
  obtain ⟨j, rfl, -⟩ := hkind n (List.mem_mergeSort.mp hn)
  obtain hlt | rfl | hgt := lt_trichotomy i j
  · show 2 * i + c.toNat < 2 * j + c.toNat
    omega
  · exact absurd rfl h.2
  · exact absurd (Name.text_lt hgt hi c) (not_lt.mpr h.1)

theorem inspected {options : Options} {names : List Name}
    (h : (options.inspect d : Except (Err ε) (List Name)) = .ok names) :
    Inspected options d names := by
  unfold Options.inspect at h
  split at h
  · cases h
  split at h
  · cases h
  next hfind =>
  split at h
  · cases h
  next hfew =>
  cases h
  have hfile : ∀ n f, ⟨n, f⟩ ∈ d.entries → (options.inspectFile n f : Option (Err ε)) = none :=
    fun n f hx => List.findSome?_eq_none_iff.mp hfind ⟨n, f⟩ hx
  have hkind : ∀ n ∈ d.keys.filter (· ≠ .current),
      ∃ q, n = .archive q options.compress ∧ q ≤ maxUint64 := by
    intro n hn
    obtain ⟨hkey, hne⟩ := List.mem_filter.mp hn
    obtain ⟨x, hx, rfl⟩ := List.mem_map.mp hkey
    exact (inspectFile_eq_none (hfile x.1 x.2 hx)).1 (of_decide_eq_true hne)
  refine ⟨?_, fun n hn => hkind n (List.mem_mergeSort.mp hn), ?_, fun f hf => ?_⟩
  · refine Directory.archives_eq (fun n => ?_)
      (pairwise_key_of_text hkind (d.keys_nodup.filter _))
    rw [List.mem_mergeSort]
    constructor
    · intro hn
      obtain ⟨q, rfl, -⟩ := hkind n hn
      exact ⟨rfl, AList.mem_keys.mpr (List.mem_filter.mp hn).1⟩
    · rintro ⟨harch, hn⟩
      refine List.mem_filter.mpr ⟨AList.mem_keys.mp hn, decide_eq_true ?_⟩
      rintro rfl
      exact nomatch harch
  · rw [List.length_mergeSort]
    exact Nat.le_of_not_lt hfew
  · exact (inspectFile_eq_none (hfile _ f (AList.mem_lookup_iff.mp hf))).2

/-! ## What a step does -/

namespace State

variable (codec) (s : State ε)

/-- What the records are kept in. -/
def settled : List Bytes :=
  match s.process with
  | some p => p.settled codec s.dir
  | none => s.dir.contents codec

/-- **What a step does with the archives.** The newest one stays, a new one
has a greater number than any, and one that goes for good has the least. -/
structure Renewed (l : Event ε) (s' : State ε) : Prop where
  newest : ∀ n ∈ s.dir.archives, ∃ m ∈ s'.dir.archives, n.sequence ≤ m.sequence
  numbered : ∀ q ∈ s.numbered l, (∀ n ∈ s.dir.archives, n.sequence < q)
    ∧ ∃ m ∈ s'.dir.archives, q ≤ m.sequence
  retired : ∀ n ∈ s.retired l, n ∈ s.dir.archives ∧ ∀ m ∈ s'.dir.archives, n.sequence < m.sequence
  fresh : ∀ m ∈ s'.dir.archives, m ∈ s.dir.archives ∨ ∀ n ∈ s.dir.archives, n.sequence ≤ m.sequence

/-- **What a step does.** -/
structure Moved (l : Event ε) (s' : State ε) : Prop where
  ok : ∀ p, s'.process = some p → p.Ok codec s'.dir
  kept : ∀ r g, Kept r g (s.settled codec) →
    Kept (r ++ s.accepted l) (g ++ (s.retired l).map (s.dir.textOf codec)) (s'.settled codec)
  archives : s.Renewed l s'
  files : ∀ n, n.isArchive = true → ∀ f, s.dir.lookup n = some f →
    s'.dir.lookup n = some f ∨ s'.dir.lookup n = none

variable {codec s} {s' : State ε} {l : Event ε}

structure Silent (s : State ε) (l : Event ε) : Prop where
  accepted : s.accepted l = []
  retired : s.retired l = []
  numbered : s.numbered l = []

theorem Renewed.same (hl : s.Silent l) (h : s'.dir.archives = s.dir.archives) : s.Renewed l s' := by
  refine ⟨fun n hn => ⟨n, h ▸ hn, le_rfl⟩, fun q hq => ?_, fun n hn => ?_,
    fun m hm => .inl (h ▸ hm)⟩
  · rw [hl.numbered] at hq
    cases hq
  · rw [hl.retired] at hn
    cases hn

theorem Renewed.last {n : Name} (h : s'.dir.archives = s.dir.archives ++ [n])
    (hle : ∀ m ∈ s.dir.archives, m.sequence ≤ n.sequence)
    (hn : ∀ q ∈ s.numbered l, q = n.sequence ∧ ∀ m ∈ s.dir.archives, m.sequence < q)
    (hr : s.retired l = []) : s.Renewed l s' := by
  refine ⟨fun m hm => ⟨m, ?_, le_rfl⟩, fun q hq => ?_, fun m hm => ?_, fun m hm => ?_⟩
  · rw [h]
    exact List.mem_append_left _ hm
  · obtain ⟨rfl, hlt⟩ := hn q hq
    refine ⟨hlt, n, ?_, le_rfl⟩
    rw [h]
    exact List.mem_append_right _ (.head _)
  · rw [hr] at hm
    cases hm
  · rw [h] at hm
    refine (List.mem_append.mp hm).imp_right (fun hm => ?_)
    rw [List.mem_singleton.mp hm]
    exact hle

theorem Moved.other (hl : s.Silent l) (ha : s'.dir.archives = s.dir.archives)
    (hf : ∀ n, n.isArchive = true → s'.dir.lookup n = s.dir.lookup n)
    (hok : ∀ p, s'.process = some p → p.Ok codec s'.dir)
    (hk : ∀ r g, Kept r g (s.settled codec) → Kept r g (s'.settled codec)) :
    Moved codec s l s' where
  ok := hok
  kept r g h := by
    rw [hl.accepted, hl.retired, List.append_nil, List.map_nil, List.append_nil]
    exact hk r g h
  archives := .same hl ha
  files n hn f h := .inl ((hf n hn).trans h)

theorem Moved.stay (hl : s.Silent l) (hd : s'.dir = s.dir)
    (hok : ∀ p, s'.process = some p → p.Ok codec s.dir)
    (hk : ∀ r g, Kept r g (s.settled codec) → Kept r g (s'.settled codec)) : Moved codec s l s' :=
  .other hl (by rw [hd]) (fun _ _ => by rw [hd]) (by rw [hd]; exact hok) hk

theorem silent_of_mute {p : Process ε} (hp : s.process = some p) (h : p.stage.mute = true) :
    s.Silent (.call none) := by
  have hne : ∀ stage, stage.mute = false → p.stage ≠ stage := by
    rintro stage hs rfl
    exact nomatch hs.symm.trans h
  refine ⟨?_, ?_, ?_⟩
  · simp [accepted, hp, hne (.writing p.data.length) rfl]
  · simp [retired, hp, hne .removing rfl]
  · simp [numbered, hp, hne .shifting rfl]

theorem settled_some {p : Process ε} (hp : s.process = some p) :
    s.settled codec = p.settled codec s.dir := by
  unfold settled
  rw [hp]

/-- **The whole directory keeps what is kept.** -/
theorem kept_contents {p : Process ε} (h : p.Ok codec d) {r g : List Bytes}
    (hk : Kept r g (p.settled codec d)) : Kept r g (d.contents codec) := by
  unfold Process.Ok at h
  unfold Process.settled at hk
  have hdouble : Process.AtWork d p [p.raw, p.packed] → d.lookup .current = none →
      Kept r g ((p.archives ++ [p.raw]).map (d.textOf codec)) → Kept r g (d.contents codec) := by
    intro hw hnone hk
    rw [Directory.contents_of_none hnone, hw.archives,
      show p.archives ++ [p.raw, p.packed] = (p.archives ++ [p.raw]) ++ [p.packed] by simp,
      List.map_append]
    exact hk.extend _
  split at hk
  iterate 2
    next hst =>
    rw [hst] at h
    exact hdouble h.1 h.2.2.1 hk
  · next count hst =>
    rw [hst] at h
    obtain ⟨-, -, -, -, f, -, hf, -, -⟩ := h
    rw [Directory.contents_of_current hf]
    rw [Directory.textOf_of_lookup hf] at hk
    have hsplit : f.content = f.content.take p.size ++ f.content.drop p.size :=
      (List.take_append_drop _ _).symm
    rw [hsplit]
    exact hk.append _
  · exact hk

theorem Moved.over {p : Process ε} (hp : s.process = some p) (hok : p.Ok codec s.dir)
    (hl : s.Silent l) (hd : s'.dir = s.dir)
    (hs : ∀ q, s'.process = some q → q.stage = .idle ∧ (q.failed.isSome = true ∨ q.closed = true)) :
    Moved codec s l s' := by
  refine .stay hl hd (fun q hq => ?_) (fun r g hk => ?_)
  · obtain ⟨hst, hdead⟩ := hs q hq
    unfold Process.Ok
    rw [hst]
    intro hf hc
    obtain hdead | hdead := hdead
    · rw [hf] at hdead
      exact nomatch hdead
    · exact nomatch hc.symm.trans hdead
  · rw [settled_some hp] at hk
    have hall := kept_contents hok hk
    rw [← hd] at hall
    unfold settled
    split
    · next q hq =>
      unfold Process.settled
      rw [(hs q hq).1]
      exact hall
    · exact hall

end State

end LogFile
