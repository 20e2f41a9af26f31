import Fathomry.LogFile

/-!
# The archives of a directory

A directory has no order; its archives have one, by their number, and with
the compressed one after the other when both are there. Since no two names
have the same place, a list of the archives in order is *the* list of the
archives (`Directory.archives_eq`), and every change of a directory shows in
it at one end: a new archive comes last, and the oldest one is the first.
-/

namespace LogFile

theorem pairwise_mergeSort_le {α β : Type} [LinearOrder β] (key : α → β) (l : List α) :
    (l.mergeSort (fun a b => key a ≤ key b)).Pairwise (fun a b => key a ≤ key b) := by
  refine (List.pairwise_mergeSort ?_ ?_ _).imp of_decide_eq_true
  · intro a b c hab hbc
    exact decide_eq_true ((of_decide_eq_true hab).trans (of_decide_eq_true hbc))
  · intro a b
    simp only [Bool.or_eq_true, decide_eq_true_eq]
    exact le_total _ _

/-! ## Names -/

theorem Name.key_injective {m n : Name} (hm : m.isArchive = true) (hn : n.isArchive = true)
    (h : m.key = n.key) : m = n := by
  cases m with
  | archive i b =>
    cases n with
    | archive j c =>
      unfold Name.key at h
      cases b with
      | false => cases c with
        | false => rw [show i = j by simp at h; omega]
        | true => simp at h; omega
      | true => cases c with
        | false => simp at h; omega
        | true => rw [show i = j by simp at h; omega]
    | _ => cases hn
  | _ => cases hm

/-- **Archives of one kind are in order as text.** -/
theorem Name.text_lt {m n : ℕ} (h : m < n) (hn : n ≤ maxUint64) (c : Bool) :
    (Name.archive m c).text < (Name.archive n c).text := by
  refine List.append_left_lt (padded_lt h (hn.trans_lt ?_) _ _)
  decide

namespace Directory

variable (d : Directory)

/-! ## The archives in order -/

theorem mem_archives {n : Name} : n ∈ archives d ↔ n.isArchive = true ∧ n ∈ d := by
  unfold archives
  rw [List.mem_mergeSort, List.mem_filter, ← AList.mem_keys]
  exact And.comm

theorem archives_nodup : (archives d).Nodup :=
  (List.mergeSort_perm _ _).nodup_iff.mpr (d.keys_nodup.filter _)

theorem archives_sorted : (archives d).Pairwise (fun m n => m.key < n.key) := by
  have hle : (archives d).Pairwise (fun m n => m.key ≤ n.key) := pairwise_mergeSort_le Name.key _
  refine (hle.and (archives_nodup d)).imp_of_mem (fun {m n} hm hn h => ?_)
  refine h.1.lt_of_ne (fun heq => h.2 ?_)
  exact Name.key_injective ((mem_archives d).mp hm).1 ((mem_archives d).mp hn).1 heq

variable {d}

/-- **A list of the archives in order is the list of the archives.** -/
theorem archives_eq {l : List Name} (hmem : ∀ n, n ∈ l ↔ n.isArchive = true ∧ n ∈ d)
    (hl : l.Pairwise (fun m n => m.key < n.key)) : archives d = l := by
  have hperm : (archives d).Perm l := by
    refine (List.perm_ext_iff_of_nodup (archives_nodup d) ?_).mpr (fun n => ?_)
    · exact hl.imp (fun h heq => absurd (congrArg Name.key heq) h.ne)
    · rw [mem_archives, hmem]
  exact hperm.eq_of_pairwise (fun _ _ _ _ h h' => absurd h h'.asymm) (archives_sorted d) hl

variable {n : Name} {f : File}

theorem archives_insert_other (hn : n.isArchive = false) :
    archives (d.insert n f) = archives d := by
  refine archives_eq (fun m => ?_) (archives_sorted d)
  rw [mem_archives, AList.mem_insert]
  refine and_congr_right (fun hm => ⟨.inr, fun h => h.resolve_left ?_⟩)
  rintro rfl
  exact nomatch hn.symm.trans hm

theorem archives_erase_other (hn : n.isArchive = false) : archives (d.erase n) = archives d := by
  refine archives_eq (fun m => ?_) (archives_sorted d)
  rw [mem_archives, AList.mem_erase]
  refine and_congr_right (fun hm => ⟨fun h => ⟨?_, h⟩, And.right⟩)
  rintro rfl
  exact nomatch hn.symm.trans hm

theorem archives_insert_last (hn : n.isArchive = true) (h : ∀ m ∈ archives d, m.key < n.key) :
    archives (d.insert n f) = archives d ++ [n] := by
  refine archives_eq (fun m => ?_) ?_
  · rw [List.mem_append, List.mem_singleton, mem_archives, AList.mem_insert]
    constructor
    · rintro (⟨hm, hd⟩ | rfl)
      · exact ⟨hm, .inr hd⟩
      · exact ⟨hn, .inl rfl⟩
    · rintro ⟨hm, rfl | hd⟩
      · exact .inr rfl
      · exact .inl ⟨hm, hd⟩
  · rw [List.pairwise_append]
    refine ⟨archives_sorted d, List.pairwise_singleton _ _, fun m hm m' hm' => ?_⟩
    rw [List.mem_singleton.mp hm']
    exact h m hm

theorem archives_rename {m : Name} (hm : m.isArchive = false) (hn : n.isArchive = true)
    (h : ∀ x ∈ archives d, x.key < n.key) :
    archives ((d.erase m).insert n f) = archives d ++ [n] := by
  rw [archives_insert_last hn, archives_erase_other hm]
  rw [archives_erase_other hm]
  exact h

theorem lookup_rename {m x : Name} (hm : m.isArchive = false) (hx : x.isArchive = true)
    (hne : x ≠ n) : ((d.erase m).insert n f).lookup x = d.lookup x := by
  rw [AList.lookup_insert_ne hne, AList.lookup_erase_ne]
  rintro rfl
  exact nomatch hm.symm.trans hx

theorem ne_of_mem_archives {m : Name} (hm : d.lookup m = none) (hn : n ∈ archives d) : n ≠ m := by
  rintro rfl
  exact AList.lookup_eq_none.mp hm ((mem_archives d).mp hn).2

theorem archives_erase {l r : List Name} (h : archives d = l ++ n :: r) :
    archives (d.erase n) = l ++ r := by
  have hsorted := archives_sorted d
  have hnodup := archives_nodup d
  rw [h] at hsorted hnodup
  refine archives_eq (fun m => ?_) (hsorted.sublist ?_)
  · rw [AList.mem_erase]
    have hm := mem_archives d (n := m)
    rw [h, List.mem_append, List.mem_cons] at hm
    rw [List.mem_append]
    constructor
    · intro hx
      have hmem := hm.mp (hx.imp_right .inr)
      refine ⟨hmem.1, ?_, hmem.2⟩
      rintro rfl
      obtain ⟨-, hnr, hdis⟩ := List.nodup_append.mp hnodup
      obtain hx | hx := hx
      · exact hdis _ hx _ (.head _) rfl
      · exact (List.nodup_cons.mp hnr).1 hx
    · rintro ⟨harch, hne, hd⟩
      exact (hm.mpr ⟨harch, hd⟩).imp_right (fun hx => hx.resolve_left hne)
  · exact (List.Sublist.refl l).append (List.sublist_cons_self n r)

/-! ## What a reader finds -/

variable {codec : Codec}

theorem textOf_of_lookup (h : d.lookup n = some f) :
    d.textOf codec n = codec.decode n f.content := by
  unfold textOf
  rw [h]
  rfl

theorem contents_of_current (h : d.lookup .current = some f) :
    d.contents codec = (archives d).map (d.textOf codec) ++ [f.content] := by
  unfold contents
  have hmem : Name.current ∈ d.keys := AList.mem_keys.mp (AList.lookup_isSome.mp (by rw [h]; rfl))
  have hfilter : d.keys.filter (· = Name.current)
      = List.replicate (d.keys.count .current) .current :=
    List.filter_beq _
  rw [List.map_append, hfilter, List.count_eq_one_of_mem d.keys_nodup hmem]
  simp [textOf_of_lookup h, Codec.decode]

theorem contents_of_none (h : d.lookup .current = none) :
    d.contents codec = (archives d).map (d.textOf codec) := by
  unfold contents
  have hmem : Name.current ∉ d.keys := fun hx => AList.lookup_eq_none.mp h (AList.mem_keys.mpr hx)
  have hfilter : d.keys.filter (· = Name.current) = [] :=
    List.filter_eq_nil_iff.mpr (fun m hm hx => hmem (of_decide_eq_true hx ▸ hm))
  rw [hfilter, List.append_nil]

/-- Archives that are left alone say the same. -/
theorem map_textOf_congr {d' : Directory} {l : List Name}
    (h : ∀ m ∈ l, d'.lookup m = d.lookup m) : l.map (d'.textOf codec) = l.map (d.textOf codec) := by
  refine List.map_congr_left (fun m hm => ?_)
  unfold textOf
  rw [h m hm]

theorem lookup_insert_other {m : Name} (hn : n.isArchive = false) (hm : m.isArchive = true) :
    (d.insert n f).lookup m = d.lookup m := by
  refine AList.lookup_insert_ne ?_
  rintro rfl
  exact nomatch hn.symm.trans hm

theorem map_textOf_insert (hn : n.isArchive = false) :
    (archives (d.insert n f)).map (textOf (d.insert n f) codec)
      = (archives d).map (d.textOf codec) := by
  rw [archives_insert_other hn]
  exact map_textOf_congr (fun m hm => lookup_insert_other hn ((mem_archives d).mp hm).1)

end Directory

end LogFile
