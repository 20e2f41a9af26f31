import Fathomry.LogRuns

/-!
# One system call after the other

For each stage: what the system call does to the directory, and that the
process is right about it afterwards. Together they are `moved`: every step
of the machine does what `Moved` says.
-/

namespace LogFile

open Directory

variable {ε : Type} {codec : Codec}

/-! ## What succeeds -/

namespace Directory

variable {d d' : Directory} {m n : Name}

theorem rename_eq_some (h : rename d m n = some d') :
    ∃ f, d.lookup m = some f ∧ d.lookup n = none ∧ d' = (d.erase m).insert n f := by
  unfold rename at h
  split at h
  · next f hm hn => exact ⟨f, hm, hn, (Option.some.inj h).symm⟩
  · cases h

theorem create_eq_some (h : create d n = some d') :
    d.lookup n = none ∧ d' = d.insert n ⟨[], true⟩ := by
  unfold create at h
  split at h
  · next hn => exact ⟨hn, (Option.some.inj h).symm⟩
  · cases h

theorem remove_eq_some (h : remove d n = some d') : d' = d.erase n := by
  unfold remove at h
  split at h
  · exact (Option.some.inj h).symm
  · cases h

theorem openAt_eq_some (h : openAt d n = some d') : (∃ f, d.lookup n = some f) ∧ d' = d := by
  unfold openAt at h
  split at h
  · next f hn => exact ⟨⟨f, hn⟩, (Option.some.inj h).symm⟩
  · cases h

end Directory

namespace State

variable {s s' : State ε} {p q : Process ε} {l : Event ε}

theorem Moved.remain (hp : s.process = some p) (hl : s.Silent l) (hok : q.Ok codec s.dir)
    (hset : q.settled codec s.dir = p.settled codec s.dir) : Moved codec s l (become q s.dir) := by
  refine .stay hl rfl (fun q' hq' => ?_) (fun r g hk => ?_)
  · cases hq'
    exact hok
  · rw [settled_some hp, ← hset] at hk
    exact hk

theorem Moved.next (hp : s.process = some p) (hm : p.stage.mute = true)
    (hw : p.stage.whole = true) (hw' : q.stage.whole = true) (hok : q.Ok codec s.dir) :
    Moved codec s (.call none) (become q s.dir) := by
  refine .remain hp (silent_of_mute hp hm) hok ?_
  rw [Process.settled_of_whole hw', Process.settled_of_whole hw]

theorem Moved.sealed (hp : s.process = some p) (hok : p.Ok codec s.dir) (hl : s.Silent l)
    (hq : q.stage = .idle ∧ q.failed.isSome = true) : Moved codec s l (become q s.dir) := by
  refine .over hp hok hl rfl (fun q' hq' => ?_)
  cases hq'
  exact hq.imp_right .inl

/-! ## The current file -/

variable {n : Name} {d : Directory} {f : File}

theorem Moved.insert (hl : s.Silent l) (hp : s.process = some p) (hw : p.stage.whole = true)
    (hw' : q.stage.whole = true) (hn : n.isArchive = false) (hok : q.Ok codec (s.dir.insert n f))
    (hk : ∀ {r g}, Kept r g (s.dir.contents codec) →
      Kept r g (contents (s.dir.insert n f) codec)) :
    Moved codec s l (become q (s.dir.insert n f)) := by
  refine .other hl (archives_insert_other hn)
    (fun m => lookup_insert_other hn) (fun q' hq' => ?_) (fun r g h => ?_)
  · cases hq'
    exact hok
  · rw [settled_some hp, Process.settled_of_whole hw] at h
    rw [settled_some rfl, Process.settled_of_whole hw']
    exact hk h

theorem Moved.create (hl : s.Silent l) (hp : s.process = some p) (hw : p.stage.whole = true)
    (hw' : q.stage.whole = true) (hnone : s.dir.lookup .current = none)
    (hok : q.Ok codec (s.dir.insert .current ⟨[], true⟩)) :
    Moved codec s l (become q (s.dir.insert .current ⟨[], true⟩)) := by
  refine .insert hl hp hw hw' rfl hok (fun hk => ?_)
  rw [contents_of_current (AList.lookup_insert _), map_textOf_insert rfl,
    ← contents_of_none hnone]
  exact hk.extend []

theorem Moved.scratch (hl : s.Silent l) (hp : s.process = some p) (hw : p.stage.whole = true)
    (hw' : q.stage.whole = true) (hnone : s.dir.lookup .current = none) {n : ℕ}
    (hok : q.Ok codec (s.dir.insert (.temporary n) f)) :
    Moved codec s l (become q (s.dir.insert (.temporary n) f)) := by
  have hnone' : (s.dir.insert (.temporary n) f).lookup .current = none := by
    rw [AList.lookup_insert_ne (by exact nofun)]
    exact hnone
  refine .insert hl hp hw hw' rfl hok (fun hk => ?_)
  rw [contents_of_none hnone', map_textOf_insert rfl,
    ← contents_of_none hnone]
  exact hk

/-! ## Opening -/

section

variable (hp : s.process = some p) (hok : p.Ok codec s.dir) (h : s.succeed p = some s')
include hp hok h

theorem moved_creating {present : Bool} (hst : p.stage = .creating present) :
    Moved codec s (.call none) s' := by
  have hm : p.stage.mute = true ∧ p.stage.whole = true := by
    rw [hst]
    exact ⟨rfl, rfl⟩
  rw [Process.Ok, hst] at hok
  obtain ⟨hw, hfew, -, hlen⟩ := hok
  rw [succeed, hst] at h
  cases present with
  | true =>
    obtain ⟨d, hd, rfl⟩ := Option.map_eq_some_iff.mp h
    obtain ⟨⟨f, hf⟩, rfl⟩ := openAt_eq_some hd
    exact .next hp hm.1 hm.2 rfl ⟨{ hw with }, hfew, f, hf, hlen f hf⟩
  | false =>
    obtain ⟨d, hd, rfl⟩ := Option.map_eq_some_iff.mp h
    obtain ⟨hnone, rfl⟩ := create_eq_some hd
    have hw' : p.AtWork (s.dir.insert .current ⟨[], true⟩) [] :=
      hw.congr (archives_insert_other rfl)
    exact .create (silent_of_mute hp hm.1) hp hm.2 rfl hnone
      ⟨{ hw' with }, hfew, ⟨[], true⟩, AList.lookup_insert _, Nat.zero_le _⟩

theorem moved_measuring {present : Bool} (hst : p.stage = .measuring present) :
    Moved codec s (.call none) s' := by
  have hm : p.stage.mute = true ∧ p.stage.whole = true := by
    rw [hst]
    exact ⟨rfl, rfl⟩
  rw [Process.Ok, hst] at hok
  obtain ⟨hw, hfew, f, hf, hlen⟩ := hok
  rw [succeed, hst] at h
  cases h
  have hsize : s.currentSize = f.content.length := by
    unfold currentSize
    rw [hf]
    rfl
  cases present with
  | true =>
    exact .next hp hm.1 hm.2 rfl
      (fun _ _ => ⟨{ hw with }, hfew, f, hf, hsize.symm, hsize.trans_le hlen⟩)
  | false =>
    exact .next hp hm.1 hm.2 rfl ⟨{ hw with }, hfew, f, hf, hsize.symm, hsize.trans_le hlen⟩

/-! ## Making an archive -/

omit hp hok h in
/-- The file is closed, and the next number taken. -/
theorem ok_closing (hok : p.Ok codec d) (hst : p.stage = .closing) :
    Process.Ok codec d { p with sequence := increment p.sequence, stage := .shifting } := by
  rw [Process.Ok, hst] at hok
  obtain ⟨hw, hfew, hfits, hmeas, hlt⟩ := hok
  have hnext : increment p.sequence = p.sequence + 1 := increment_of_lt hlt
  refine ⟨{ hw with sequence := fun n hn => ?_, bounded := ?_ }, hfew, hfits, hmeas, fun n hn => ?_⟩
  · rw [hnext]
    exact (hw.sequence n hn).trans (Nat.le_succ _)
  · rw [hnext]
    exact hlt
  · rw [hnext]
    exact Nat.lt_succ_of_le (hw.sequence n hn)

omit hp hok h in
theorem key_lt_raw {q : ℕ} (hn : n.isArchive = true) (h : n.sequence < q) (c : Bool) :
    n.key < (Name.archive q c).key := by
  cases n with
  | archive i b =>
    have hi : i < q := h
    have hb := Bool.toNat_le b
    show 2 * i + b.toNat < 2 * q + c.toNat
    omega
  | _ => exact nomatch hn

omit hp hok h in
theorem lookup_renamed {m k : Name} {f' : File} (hm : m.isArchive = false) (hn : d.lookup n = none)
    (hk : k.isArchive = true) (hf : d.lookup k = some f') :
    ((d.erase m).insert n f).lookup k = some f' := by
  refine (Directory.lookup_rename hm hk ?_).trans hf
  rintro rfl
  exact nomatch hn.symm.trans hf

omit hp hok h in
theorem AtWork.last {d' : Directory} {names : List Name} (hw : p.AtWork d names)
    (harch : d'.archives = d.archives ++ [n]) (hn : n.sequence = p.sequence) :
    p.AtWork d' (names ++ [n]) := by
  refine { hw with archives := ?_, sequence := fun m hm => ?_ }
  · rw [harch, hw.archives, List.append_assoc]
  · obtain hm | hm := List.mem_append.mp (harch ▸ hm)
    · exact hw.sequence m hm
    · rw [List.mem_singleton.mp hm, hn]

/-- **The current file becomes the newest archive.** -/
theorem moved_shifting (hst : p.stage = .shifting) : Moved codec s (.call none) s' := by
  rw [Process.Ok, hst] at hok
  obtain ⟨hw, -, hfits, -, hlt⟩ := hok
  rw [succeed, hst] at h
  obtain ⟨d, hd, rfl⟩ := Option.map_eq_some_iff.mp h
  obtain ⟨f, hf, hraw, rfl⟩ := rename_eq_some hd
  have hmem : ∀ n ∈ s.dir.archives, n.isArchive = true ∧ n ≠ p.raw := fun n hn =>
    ⟨((mem_archives _).mp hn).1, ne_of_mem_archives hraw hn⟩
  have harch : archives ((s.dir.erase .current).insert p.raw f)
      = s.dir.archives ++ [p.raw] :=
    archives_rename rfl rfl (fun n hn => key_lt_raw (hmem n hn).1 (hlt n hn) false)
  have hnone : ((s.dir.erase .current).insert p.raw f).lookup .current = none := by
    rw [AList.lookup_insert_ne (by exact nofun), AList.lookup_erase]
  have hsaid : s.accepted (.call none) = [] ∧ s.retired (.call none) = []
      ∧ s.numbered (.call none) = [p.sequence] := by
    simp [accepted, retired, numbered, hp, hst]
  refine ⟨fun q hq => ?_, fun r g hk => ?_, .last harch (fun n hn => (hlt n hn).le)
    (fun q hq => ?_) hsaid.2.1, fun n hn f' hf' => .inl (lookup_renamed rfl hraw hn hf')⟩
  · cases hq
    have hw' := AtWork.last hw harch rfl
    exact ⟨{ hw' with }, hfits, hnone⟩
  · rw [hsaid.1, hsaid.2.1, List.append_nil, List.map_nil, List.append_nil]
    rw [settled_some hp, Process.settled_of_whole (by rw [hst]; rfl),
      contents_of_current hf] at hk
    show Kept r g (contents ((s.dir.erase .current).insert p.raw f) codec)
    rw [contents_of_none hnone, harch, List.map_append, List.map_singleton,
      textOf_of_lookup (AList.lookup_insert _), map_textOf_congr
      (fun m hm => lookup_rename rfl (hmem m hm).1 (hmem m hm).2)]
    exact hk
  · rw [hsaid.2.2] at hq
    rw [List.mem_singleton.mp hq]
    exact ⟨rfl, hlt⟩

omit hp hok h in
theorem atWork_archived {name : Name} (hw : p.AtWork d [name])
    (hk : ∃ q, name = .archive q p.options.compress) :
    Process.AtWork d { p with archives := p.archives ++ [name] } [] := by
  refine { hw with archives := hw.archives.trans (List.append_nil _).symm, kind := fun n hn => ?_ }
  obtain hn | hn := List.mem_append.mp hn
  · exact hw.kind n hn
  · rw [List.mem_singleton.mp hn]
    exact hk

omit hp hok h in
theorem ok_retain (codec : Codec) (hw : p.AtWork d []) (hfits : p.Fits)
    (hnone : d.lookup .current = none) : p.retain.Ok codec d ∧ p.retain.stage.whole = true := by
  unfold Process.retain
  split
  · next hlt => exact ⟨⟨{ hw with }, hfits, hnone, hlt⟩, rfl⟩
  · next hle => exact ⟨⟨{ hw with }, Nat.le_of_not_lt hle, hfits, hnone⟩, rfl⟩

theorem moved_shifted (hst : p.stage = .shifted) : Moved codec s (.call none) s' := by
  have hm : p.stage.mute = true ∧ p.stage.whole = true := by
    rw [hst]
    exact ⟨rfl, rfl⟩
  rw [Process.Ok, hst] at hok
  obtain ⟨hw, hfits, hnone⟩ := hok
  rw [succeed, hst] at h
  cases h
  cases hc : p.options.compress with
  | true => exact .next hp hm.1 hm.2 rfl ⟨{ hw with }, hfits, hnone, hc⟩
  | false =>
    have hw' := atWork_archived hw ⟨p.sequence, by rw [hc]; rfl⟩
    have hret := ok_retain codec hw' hfits hnone
    exact .next hp hm.1 hm.2 hret.2 hret.1

/-! ## Compressing it -/

omit h in
theorem moved_copied (hst : p.stage = .copying) {bytes : Bytes} {err : Option (Err ε)}
    (h : s.copied codec p bytes err = some s') : Moved codec s (.copied bytes err) s' := by
  rw [Process.Ok, hst] at hok
  obtain ⟨hw, hfits, hnone, hc⟩ := hok
  have hwhole : p.stage.whole = true := by
    rw [hst]
    rfl
  have hl : s.Silent (.copied bytes err) := ⟨rfl, rfl, rfl⟩
  unfold copied at h
  split at h
  · next err =>
    cases h
    refine .scratch hl hp hwhole rfl hnone (fun hf => ?_)
    have hf' : p.failed.or (some (failure .file "maintenance-or-write" [some err])) = none := hf
    rw [hw.failed] at hf'
    cases hf'
  · next f hf =>
    obtain ⟨-, rfl⟩ := of_guard h
    refine .scratch hl hp hwhole rfl hnone ?_
    have hw' :
        p.AtWork (s.dir.insert (.temporary p.sequence) ⟨codec.gzip f.content, true⟩) [p.raw] :=
      hw.congr (Directory.archives_insert_other rfl)
    refine ⟨{ hw' with }, hfits, ?_, hc, f, _, ?_, AList.lookup_insert _, rfl⟩
    · rw [AList.lookup_insert_ne (by exact nofun)]
      exact hnone
    · exact (Directory.lookup_insert_other rfl rfl).trans hf
  · cases h

/-- **The compressed archive is published.** It comes after the other one,
which is still there. -/
theorem moved_publishing (hst : p.stage = .publishing) : Moved codec s (.call none) s' := by
  have hl : s.Silent (.call none) := silent_of_mute hp (by rw [hst]; rfl)
  rw [Process.Ok, hst] at hok
  obtain ⟨hw, hfits, hnone, hc, f, z, hf, hz, hgz⟩ := hok
  rw [succeed, hst] at h
  obtain ⟨d, hd, rfl⟩ := Option.map_eq_some_iff.mp h
  obtain ⟨z', hz', hpacked, rfl⟩ := rename_eq_some hd
  obtain rfl : z = z' := Option.some.inj (hz.symm.trans hz')
  have hmem : ∀ n ∈ s.dir.archives, n.isArchive = true ∧ n ≠ p.packed := fun n hn =>
    ⟨((mem_archives _).mp hn).1, ne_of_mem_archives hpacked hn⟩
  -- Every archive but the one being compressed comes before that one.
  have hkey : ∀ n ∈ s.dir.archives, n.key < p.packed.key := by
    intro n hn
    have hraw : p.raw.key < p.packed.key := Nat.lt_add_one _
    have hsorted := s.dir.archives_sorted
    rw [hw.archives] at hn hsorted
    obtain hn | hn := List.mem_append.mp hn
    · exact ((List.pairwise_append.mp hsorted).2.2 n hn _ (.head _)).trans hraw
    · rw [List.mem_singleton.mp hn]
      exact hraw
  have harch : archives ((s.dir.erase (.temporary p.sequence)).insert p.packed z)
      = s.dir.archives ++ [p.packed] := archives_rename rfl rfl hkey
  have hnone' :
      ((s.dir.erase (.temporary p.sequence)).insert p.packed z).lookup .current = none := by
    rw [AList.lookup_insert_ne (by exact nofun), AList.lookup_erase_ne (by exact nofun)]
    exact hnone
  refine ⟨fun q hq => ?_, fun r g hk => ?_, .last harch hw.sequence (fun q hq => ?_) hl.retired,
    fun n hn f' hf' => .inl (lookup_renamed rfl hpacked hn hf')⟩
  · cases hq
    have hw' := AtWork.last hw harch rfl
    exact ⟨{ hw' with }, hfits, hnone', hc, f, z, lookup_renamed rfl hpacked rfl hf,
      AList.lookup_insert _, hgz⟩
  · rw [hl.accepted, hl.retired, List.append_nil, List.map_nil, List.append_nil]
    rw [settled_some hp, Process.settled_of_whole (by rw [hst]; rfl),
      contents_of_none hnone, hw.archives] at hk
    have hsame : (p.archives ++ [p.raw]).map
        (textOf ((s.dir.erase (.temporary p.sequence)).insert p.packed z) codec)
        = (p.archives ++ [p.raw]).map (s.dir.textOf codec) := by
      refine map_textOf_congr (fun m hm => ?_)
      rw [← hw.archives] at hm
      exact lookup_rename rfl (hmem m hm).1 (hmem m hm).2
    rw [← hsame] at hk
    exact hk
  · rw [hl.numbered] at hq
    cases hq

omit hp hok h in
theorem lookup_erased {k : Name} (hf : d.lookup k = some f) :
    (d.erase n).lookup k = some f ∨ (d.erase n).lookup k = none := by
  by_cases hx : k = n
  · subst hx
    exact .inr (AList.lookup_erase _ _)
  · exact .inl ((AList.lookup_erase_ne hx).trans hf)

/-- **The archive that is there twice** is given up once: both say the same. -/
theorem moved_discarding (hst : p.stage = .discarding) : Moved codec s (.call none) s' := by
  have hl : s.Silent (.call none) := silent_of_mute hp (by rw [hst]; rfl)
  have hset : p.settled codec s.dir = (p.archives ++ [p.raw]).map (s.dir.textOf codec) := by
    rw [Process.settled, hst]
  rw [Process.Ok, hst] at hok
  obtain ⟨hw, hfits, hnone, hc, f, z, hf, hz, hgz⟩ := hok
  rw [succeed, hst] at h
  obtain ⟨d, hd, rfl⟩ := Option.map_eq_some_iff.mp h
  obtain rfl := remove_eq_some hd
  have harch : archives (s.dir.erase p.raw) = p.archives ++ [p.packed] :=
    archives_erase hw.archives
  have hnone' : (s.dir.erase p.raw).lookup .current = none := by
    rw [AList.lookup_erase_ne (by exact nofun)]
    exact hnone
  have hpr : p.packed ≠ p.raw := by
    unfold Process.raw Process.packed
    simp
  have hsub : ∀ n ∈ p.archives ++ [p.packed], n ∈ s.dir.archives := by
    intro n hn
    rw [hw.archives]
    obtain hn | hn := List.mem_append.mp hn
    · exact List.mem_append_left _ hn
    · exact List.mem_append_right _ (.tail _ hn)
  have hne : ∀ n ∈ p.archives, n ≠ p.raw := by
    rintro n hn rfl
    have hnodup := s.dir.archives_nodup
    rw [hw.archives] at hnodup
    exact (List.nodup_append.mp hnodup).2.2 _ hn _ (.head _) rfl
  refine ⟨fun q hq => ?_, fun r g hk => ?_, ⟨fun n hn => ?_, fun q hq => ?_, fun n hn => ?_,
    fun m hm => .inl (hsub m (harch ▸ hm))⟩, fun n hn f' hf' => lookup_erased hf'⟩
  · cases hq
    exact ⟨{ hw with
        archives := harch, sequence := fun n hn => hw.sequence n (hsub n (harch ▸ hn)) },
      hfits, hnone', hc⟩
  · rw [hl.accepted, hl.retired, List.append_nil, List.map_nil, List.append_nil]
    rw [settled_some hp, hset, List.map_append, List.map_singleton,
      textOf_of_lookup hf] at hk
    show Kept r g (contents (s.dir.erase p.raw) codec)
    have htext : textOf (s.dir.erase p.raw) codec p.packed = f.content := by
      rw [textOf_of_lookup ((AList.lookup_erase_ne hpr).trans hz)]
      show (codec.gunzip z.content).getD [] = f.content
      rw [hgz, codec.gunzip_gzip]
      rfl
    rw [contents_of_none hnone', harch, List.map_append, List.map_singleton, htext,
      map_textOf_congr (fun m hm => AList.lookup_erase_ne (hne m hm))]
    exact hk
  · rw [hw.archives] at hn
    have hlast : p.packed ∈ archives (s.dir.erase p.raw) := by
      rw [harch]
      exact List.mem_append_right _ (.head _)
    refine ⟨p.packed, hlast, ?_⟩
    exact hw.sequence n (by rw [hw.archives]; exact hn)
  · rw [hl.numbered] at hq
    cases hq
  · rw [hl.retired] at hn
    cases hn

/-! ## Retention -/

/-- **The oldest archive goes for good.** There is a newer one, since one
backup at least is kept. -/
theorem moved_removing (hst : p.stage = .removing) : Moved codec s (.call none) s' := by
  rw [Process.Ok, hst] at hok
  obtain ⟨hw, hfits, hnone, hmany⟩ := hok
  rw [succeed, hst] at h
  dsimp only at h
  split at h
  · cases h
  next name rest hnames =>
  obtain ⟨d, hd, rfl⟩ := Option.map_eq_some_iff.mp h
  obtain rfl := remove_eq_some hd
  have hdir : s.dir.archives = name :: rest := by
    rw [hw.archives, List.append_nil, hnames]
  have harch : archives (s.dir.erase name) = rest :=
    archives_erase (l := []) hdir
  have hsorted := s.dir.archives_sorted
  rw [hdir] at hsorted
  have hless : ∀ m ∈ rest, name.sequence < m.sequence := by
    intro m hm
    have hkey := (List.pairwise_cons.mp hsorted).1 m hm
    obtain ⟨i, rfl⟩ := hw.kind name (by rw [hnames]; exact .head _)
    obtain ⟨j, rfl⟩ := hw.kind m (by rw [hnames]; exact .tail _ hm)
    have hkey' : 2 * i + p.options.compress.toNat < 2 * j + p.options.compress.toNat := hkey
    show i < j
    omega
  have hsaid : s.accepted (.call none) = [] ∧ s.retired (.call none) = [name]
      ∧ s.numbered (.call none) = [] := by
    simp [accepted, retired, numbered, hp, hst, hnames]
  have hnone' : (s.dir.erase name).lookup .current = none := by
    by_cases hx : Name.current = name
    · rw [hx, AList.lookup_erase]
    · rw [AList.lookup_erase_ne hx]
      exact hnone
  have hnodup := s.dir.archives_nodup
  rw [hdir] at hnodup
  refine ⟨fun q hq => ?_, fun r g hk => ?_, ⟨fun n hn => ?_, fun q hq => ?_, fun n hn => ?_,
    fun m hm => .inl ?_⟩, fun n hn f' hf' => lookup_erased hf'⟩
  · cases hq
    refine ⟨⟨harch.trans (List.append_nil _).symm, fun n hn => ?_, fun n hn => ?_, hw.bounded,
      hw.failed, hw.closed⟩, hfits, hnone'⟩
    · exact hw.kind n (by rw [hnames]; exact .tail _ hn)
    · exact hw.sequence n (by rw [hdir]; exact .tail _ (harch ▸ hn))
  · rw [hsaid.1, hsaid.2.1, List.append_nil]
    rw [settled_some hp, Process.settled_of_whole (by rw [hst]; rfl),
      contents_of_none hnone, hdir, List.map_cons] at hk
    show Kept r _ (contents (s.dir.erase name) codec)
    rw [contents_of_none hnone', harch, map_textOf_congr
      (fun m hm => AList.lookup_erase_ne ?_)]
    · exact hk.retire
    · rintro rfl
      exact (List.nodup_cons.mp hnodup).1 hm
  · -- The list has two elements at least, and the last one is the newest.
    have hpos := p.options.backups_pos
    rw [hnames, List.length_cons] at hmany
    cases rest with
    | nil =>
      simp at hmany
      omega
    | cons m =>
      have hm : m ∈ archives (s.dir.erase name) := by
        rw [harch]
        exact .head _
      rw [hdir] at hn
      obtain rfl | hn := List.mem_cons.mp hn
      · exact ⟨m, hm, (hless m (.head _)).le⟩
      · exact ⟨n, harch ▸ hn, le_rfl⟩
  · rw [hsaid.2.2] at hq
    cases hq
  · rw [hsaid.2.1] at hn
    rw [List.mem_singleton.mp hn]
    refine ⟨?_, fun m hm => hless m (harch ▸ hm)⟩
    rw [hdir]
    exact .head _
  · rw [hdir]
    exact .tail _ (harch ▸ hm)

end

/-! ## Writing -/

variable {count : ℕ}

theorem settled_writing (hst : p.stage = .writing count) (hf : d.lookup .current = some f) :
    p.settled codec d = d.archives.map (d.textOf codec) ++ [f.content.take p.size] := by
  rw [Process.settled, hst]
  rw [textOf_of_lookup hf]
  rfl

section

variable (hp : s.process = some p)
include hp

theorem Moved.begin {r : Bytes} (hl : s.Silent l) (hw : p.stage.whole = true)
    (hat : p.AtWork s.dir []) (hfew : p.Few) (hfit : p.size + r.length ≤ p.options.maxFileBytes)
    (hf : s.dir.lookup .current = some f) (hsize : f.content.length = p.size) :
    Moved codec s l (become { p with data := r, stage := .writing 0 } s.dir) := by
  refine .remain hp hl ⟨{ hat with }, hfew, Nat.zero_le _, hfit, f, f.content, hf,
    (List.append_nil _).symm, hsize⟩ ?_
  rw [settled_writing rfl hf, Process.settled_of_whole hw, contents_of_current hf]
  exact congrArg (_ ++ [·]) (List.take_of_length_le hsize.le)

/-- **A piece of the record reaches the file.** -/
theorem moved_append {n : ℕ} (hok : p.Ok codec s.dir) (hst : p.stage = .writing count)
    (h : s.append p count n = some s') : Moved codec s (.append n) s' := by
  rw [Process.Ok, hst] at hok
  obtain ⟨hw, hfew, -, hfit, f, base, hf, hcontent, hbase⟩ := hok
  rw [append, hf] at h
  obtain ⟨hle, rfl⟩ := of_guard h
  have hw' : p.AtWork (s.dir.insert .current
      { f with content := f.content ++ (p.data.drop count).take n }) [] :=
    hw.congr (archives_insert_other rfl)
  have hnew : f.content ++ (p.data.drop count).take n = base ++ p.data.take (count + n) := by
    rw [hcontent, List.append_assoc, List.take_add]
  have hsize : p.size ≤ f.content.length := by
    rw [hcontent, List.length_append, hbase]
    exact Nat.le_add_right _ _
  refine .other ⟨rfl, rfl, rfl⟩ (archives_insert_other rfl)
    (fun m => lookup_insert_other rfl) (fun q hq => ?_) (fun r g hk => ?_)
  · cases hq
    exact ⟨{ hw' with }, hfew, hle, hfit, _, base, AList.lookup_insert _, hnew, hbase⟩
  · rw [settled_some hp, settled_writing hst hf, ← List.take_append_of_le_length hsize] at hk
    have hset : (p.goto (.writing (count + n))).settled codec (s.dir.insert .current
        { f with content := f.content ++ (p.data.drop count).take n }) = _ :=
      settled_writing rfl (AList.lookup_insert _)
    rw [map_textOf_insert rfl] at hset
    rw [settled_some rfl]
    exact hset ▸ hk

/-- **All of the record is in the file**, and `Write` says so. -/
theorem moved_wrote (hok : p.Ok codec s.dir) (hst : p.stage = .writing p.data.length) :
    Moved codec s (.call none) (become (p.wrote p.data.length none) s.dir) := by
  have hset := hst
  rw [Process.Ok, hst] at hok
  obtain ⟨hw, hfew, -, hfit, f, base, hf, hcontent, hbase⟩ := hok
  rw [List.take_length] at hcontent
  have hwrote : p.wrote p.data.length none
      = { p with size := p.size + p.data.length, stage := .idle } := by
    unfold Process.wrote
    simp
  have hsaid : s.accepted (.call none) = [p.data] ∧ s.retired (.call none) = []
      ∧ s.numbered (.call none) = [] := by
    simp [accepted, retired, numbered, hp, hst]
  rw [hwrote]
  refine ⟨fun q hq => ?_, fun r g hk => ?_, ⟨fun n hn => ⟨n, hn, le_rfl⟩, fun q hq => ?_,
    fun n hn => ?_, fun m hm => .inl hm⟩, fun n _ f' hf' => .inl hf'⟩
  · cases hq
    refine fun _ _ => ⟨{ hw with }, hfew, f, hf, ?_, hfit⟩
    rw [hcontent, List.length_append, hbase]
  · rw [hsaid.1, hsaid.2.1, List.map_nil, List.append_nil]
    rw [settled_some hp, settled_writing hset hf, hcontent, List.take_left' hbase] at hk
    show Kept _ g (s.dir.contents codec)
    rw [contents_of_current hf, hcontent]
    exact hk.accept _
  · rw [hsaid.2.2] at hq
    cases hq
  · rw [hsaid.2.1] at hn
    cases hn

omit hp in
theorem poisoned (p : Process ε) (err : Err ε) :
    (p.poison err).stage = .idle ∧ (p.poison err).failed.isSome = true := by
  refine ⟨rfl, ?_⟩
  unfold Process.poison
  cases p.failed with
  | none | some => rfl

omit hp in
theorem wrote_failed {err : Option (Err ε)} (h : err.isSome = true ∨ count ≠ p.data.length) :
    (p.wrote count err).stage = .idle ∧ (p.wrote count err).failed.isSome = true := by
  have hsome : ∃ e, err.or (if count ≠ p.data.length then some (.native .shortWrite) else none)
      = some e := by
    cases err with
    | some e => exact ⟨e, rfl⟩
    | none =>
      have hne := h.resolve_left (by exact nofun)
      exact ⟨_, by rw [Option.none_or, if_pos hne]⟩
  obtain ⟨e, he⟩ := hsome
  unfold Process.wrote
  rw [he]
  exact poisoned _ e

theorem moved_writing (hok : p.Ok codec s.dir) (hst : p.stage = .writing count)
    (h : s.succeed p = some s') : Moved codec s (.call none) s' := by
  rw [succeed, hst] at h
  cases h
  by_cases hc : count = p.data.length
  · subst hc
    exact moved_wrote hp hok hst
  · have hl : s.Silent (.call none) := by
      refine ⟨?_, ?_, ?_⟩
      · simp [accepted, hp, hst, hc]
      · simp [retired, hp, hst]
      · simp [numbered, hp, hst]
    exact .sealed hp hok hl (wrote_failed (.inr hc))

/-! ## Every step -/

theorem moved_succeed (hok : p.Ok codec s.dir) (h : s.succeed p = some s') :
    Moved codec s (.call none) s' := by
  -- with the stage known, both `hok` and `h` compute
  obtain ⟨options, size, sequence, archives, failed, closed, data, stage⟩ := p
  have hnext : ∀ {q : Process ε}, some (become q s.dir) = some s' → stage.mute = true →
      stage.whole = true → q.stage.whole = true → q.Ok codec s.dir →
      Moved codec s (.call none) s' := by
    intro q h hm hw hw' hq
    cases h
    exact .next hp hm hw hw' hq
  cases stage with
  | creating => exact moved_creating hp hok h rfl
  | measuring => exact moved_measuring hp hok h rfl
  | announcing => exact hnext h rfl rfl rfl (fun _ _ => ⟨{ hok.1 with }, hok.2⟩)
  | idle | copying => cases h
  | syncing | flushing | releasing => exact hnext h rfl rfl rfl ⟨{ hok.1 with }, hok.2⟩
  | closing => exact hnext h rfl rfl rfl (ok_closing hok rfl)
  | shifting => exact moved_shifting hp hok h rfl
  | shifted => exact moved_shifted hp hok h rfl
  | opening =>
    obtain ⟨d, hd, rfl⟩ := Option.map_eq_some_iff.mp h
    obtain ⟨-, rfl⟩ := openAt_eq_some hd
    exact hnext rfl rfl rfl rfl ⟨{ hok.1 with }, hok.2⟩
  | exclusive =>
    obtain ⟨hw, hfits, hnone, hc⟩ := hok
    obtain ⟨d, hd, rfl⟩ := Option.map_eq_some_iff.mp h
    obtain ⟨-, rfl⟩ := create_eq_some hd
    have hw' := hw.congr (archives_insert_other (n := .temporary sequence)
      (f := ⟨[], true⟩) rfl)
    refine .scratch (silent_of_mute hp rfl) hp rfl rfl hnone ⟨{ hw' with }, hfits, ?_, hc⟩
    rw [AList.lookup_insert_ne (by exact nofun)]
    exact hnone
  | publishing => exact moved_publishing hp hok h rfl
  | published =>
    cases h
    exact .remain hp (silent_of_mute hp rfl) ⟨{ hok.1 with }, hok.2⟩ rfl
  | discarding => exact moved_discarding hp hok h rfl
  | discarded =>
    obtain ⟨hw, hfits, hnone, hc⟩ := hok
    have hret := ok_retain codec (atWork_archived hw ⟨sequence, by rw [hc]; rfl⟩) hfits hnone
    exact hnext h rfl rfl hret.2 hret.1
  | removing => exact moved_removing hp hok h rfl
  | removed =>
    obtain ⟨hw, hfits, hnone⟩ := hok
    have hret := ok_retain codec hw hfits hnone
    exact hnext h rfl rfl hret.2 hret.1
  | recreating =>
    obtain ⟨hw, hfew, hfits, -⟩ := hok
    obtain ⟨d, hd, rfl⟩ := Option.map_eq_some_iff.mp h
    obtain ⟨hnone, rfl⟩ := create_eq_some hd
    have hw' := hw.congr (archives_insert_other (n := .current) (f := ⟨[], true⟩) rfl)
    exact .create (silent_of_mute hp rfl) hp rfl rfl hnone
      ⟨{ hw' with }, hfew, hfits, rfl, _, AList.lookup_insert _, rfl⟩
  | recreated =>
    obtain ⟨hw, hfew, hfits, hzero, f, hf, hempty⟩ := hok
    cases h
    refine .begin hp (silent_of_mute hp rfl) rfl hw hfew ?_ hf ?_
    · rw [hzero, Nat.zero_add]
      exact hfits
    · rw [hempty, hzero]
      rfl
  | writing => exact moved_writing hp hok rfl h

theorem moved_fail {err : ε} (hok : p.Ok codec s.dir) (h : s.fail p (systemErr err) = some s') :
    Moved codec s (.call (some err)) s' := by
  have hl : s.Silent (.call (some err)) := ⟨rfl, rfl, rfl⟩
  unfold fail at h
  split at h
  all_goals cases h
  iterate 3 exact .over hp hok hl rfl nofun
  · exact .sealed hp hok hl (wrote_failed (.inl rfl))
  · exact .sealed hp hok hl (poisoned p _)

omit hp in
theorem idle_of_dead (hok : p.Ok codec d) (h : p.failed.isSome = true ∨ p.closed = true) :
    p.stage = .idle := by
  have hnot : ∀ {names : List Name}, p.AtWork d names → False := by
    intro names hw
    obtain h | h := h
    · rw [hw.failed] at h
      exact nomatch h
    · exact nomatch hw.closed.symm.trans h
  rw [Process.Ok] at hok
  cases hst : p.stage with
  | idle => rfl
  | _ =>
    rw [hst] at hok
    exact (hnot hok.1).elim

omit hp in
/-- **The calls from outside**, by a process that is idle. -/
theorem moved_enter {f : Process ε → Process ε}
    (hok : ∀ p, s.process = some p → p.Ok codec s.dir) (h : s.enter f = some s')
    (hf : ∀ p, s.process = some p → p.stage = .idle → p.Ok codec s.dir →
      Moved codec s l (become (f p) s.dir)) : Moved codec s l s' := by
  unfold enter at h
  split at h
  · next p hp =>
    obtain ⟨hst, rfl⟩ := of_guard h
    exact hf p hp hst (hok p hp)
  · cases h

theorem moved_write (hst : p.stage = .idle) (hok : p.Ok codec s.dir) (data : Bytes) :
    Moved codec s (.write data) (become (p.write data) s.dir) := by
  have hl : s.Silent (.write data) := ⟨rfl, rfl, rfl⟩
  unfold Process.write
  split
  · exact Moved.remain hp hl hok rfl
  next hlive =>
  obtain ⟨hopen, hgood, hfits⟩ := not_or.mp hlive |>.imp_right not_or.mp
  have hidle := hok
  rw [Process.Ok, hst] at hidle
  obtain ⟨hw, hfew, f, hf, hsize, hmax⟩ := hidle
    (Option.not_isSome_iff_eq_none.mp hgood) (eq_false_of_ne_true hopen)
  split
  · split
    · exact .sealed hp hok hl (poisoned p _)
    · next hseq =>
      refine .remain hp hl ⟨{ hw with }, hfew, Nat.le_of_not_lt hfits, ⟨f, hf, hsize, hmax⟩,
        hw.bounded.lt_of_ne hseq⟩ ?_
      rw [Process.settled_of_whole (p := p) (by rw [hst]; rfl)]
      rfl
  · next hroom =>
    exact .begin hp hl (by rw [hst]; rfl) hw hfew (Nat.le_of_not_lt hroom) hf hsize

end

theorem moved_start (hok : ∀ p, s.process = some p → p.Ok codec s.dir)
    (hfree : s.process.all (fun p => p.closed) = true) (options : Options) (err : Option ε) :
    Moved codec s (.start options err) (if err.isSome then ⟨s.dir, none⟩ else s.start options) := by
  have hl : s.Silent (.start options err) := ⟨rfl, rfl, rfl⟩
  have hset : s.settled codec = s.dir.contents codec := by
    unfold settled
    split
    · next p hp =>
      rw [hp] at hfree
      refine Process.settled_of_whole ?_ _ _
      rw [idle_of_dead (hok p hp) (.inr hfree)]
      rfl
    · rfl
  have hgone : Moved codec s (.start options err) ⟨s.dir, none⟩ := by
    refine .stay hl rfl nofun (fun r g hk => ?_)
    rw [hset] at hk
    exact hk
  split
  · exact hgone
  unfold start
  split
  · exact hgone
  · next names hnames =>
    have hin := inspected hnames
    refine .stay hl rfl (fun q hq => ?_) (fun r g hk => ?_)
    · cases hq
      refine ⟨⟨?_, fun n hn => ?_, fun n hn => ?_, ?_, rfl, rfl⟩, hin.few, rfl, hin.current⟩
      · exact hin.archives.trans (List.append_nil _).symm
      · obtain ⟨q, hq, -⟩ := hin.kind n hn
        exact ⟨q, hq⟩
      · rw [hin.archives] at hn
        exact (le_foldl_max _ 0).2 _ (List.mem_map_of_mem hn)
      · refine foldl_max_le (Nat.zero_le _) (fun q hq => ?_)
        obtain ⟨n, hn, rfl⟩ := List.mem_map.mp hq
        obtain ⟨i, rfl, hi⟩ := hin.kind n hn
        exact hi
    · rw [hset] at hk
      exact hk

theorem moved (hok : ∀ p, s.process = some p → p.Ok codec s.dir)
    (h : s.step codec l = some s') : Moved codec s l s' := by
  revert h
  fun_cases step
  all_goals intro h
  any_goals cases h
  · next options err hfree => exact moved_start hok hfree options err
  · next data => exact moved_enter hok h (fun p hp hst hp' => moved_write hp hst hp' data)
  · next p hp => exact moved_succeed hp (hok p hp) h
  · next p err hp => exact moved_fail hp (hok p hp) h
  · next p hp count hst => exact moved_append hp (hok p hp) hst h
  · next p hp hst => exact moved_copied hp (hok p hp) hst h
  · next err =>
    refine moved_enter hok h (fun p hp hst hp' => ?_)
    have hl : s.Silent (.sync err) := ⟨rfl, rfl, rfl⟩
    unfold Process.sync
    split
    · split
      · exact .remain hp hl hp' rfl
      · exact .sealed hp hp' hl (poisoned p _)
    · exact .remain hp hl hp' rfl
  · refine moved_enter hok h (fun p hp hst hp' => .over hp hp' ⟨rfl, rfl, rfl⟩ rfl (fun q hq => ?_))
    cases hq
    exact ⟨hst, .inr rfl⟩
  · cases hp : s.process with
    | none =>
      refine .stay ⟨rfl, rfl, rfl⟩ rfl nofun (fun r g hk => ?_)
      rw [settled, hp] at hk
      exact hk
    | some p => exact .over hp (hok p hp) ⟨rfl, rfl, rfl⟩ rfl nofun

end State

end LogFile
