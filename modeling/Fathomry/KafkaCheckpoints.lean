import Fathomry.KafkaConsumer
import Fathomry.KafkaGroup

/-!
# Checkpoints

`CommitOffsets` asks the cluster to store offsets for partitions that nobody has assigned to
it, and reports for each of them what it has seen. The response is read once, in its own
order: an entry is looked up among the partitions that were asked for, and its item is marked
at once. An entry that nobody asked for, or that has been seen, ends the call.

Whether the call succeeds and what an item says are two different things, and both are
functions of **the part of the response that has been read** (`Tallied`). A call that returns
no error has read all of it. One that has been ended leaves its items as they are: an item
that was marked before its partition came up for the second time stays marked.
-/

namespace Kafka

variable {ε : Type}

structure Checkpoint where
  topic : String
  topicID : TopicID
  partition : ℤ
  next : ℤ

/-- `checkpointKey`. -/
abbrev CheckpointKey := TopicID × ℤ

def Checkpoint.key (c : Checkpoint) : CheckpointKey := (c.topicID, c.partition)

inductive CheckpointState where
  | unobserved
  | unknown
  | committed
  | observed
  | absent
deriving DecidableEq

structure CheckpointResult (ε : Type) where
  checkpoint : Checkpoint
  state : CheckpointState
  err : Option (Err ε)

def checkpointError (topics : Topics) (commit : Bool) (seen : List CheckpointKey)
    (c : Checkpoint) : Option (Err ε) :=
  if (topics c.topic).map (fun topic => topic.id) ≠ some c.topicID then
    some (failure .identity "checkpoint-topic" [])
  else if c.partition < 0 ∨ ((topics c.topic).getD default).partitions ≤ c.partition
      ∨ commit ∧ (c.next < 0 ∨ c.next = maxInt64) then
    some (failure .input "checkpoint" [])
  else if c.key ∈ seen then some (failure .input "duplicate-checkpoint" [])
  else none

def validLoop (topics : Topics) (commit : Bool) (seen : List CheckpointKey) :
    List Checkpoint → Option (Err ε)
  | [] => none
  | c :: rest =>
    (checkpointError topics commit seen c).or (validLoop topics commit (c.key :: seen) rest)

def validCheckpoints (value : Settings) (topics : Topics) (group : String)
    (cs : List Checkpoint) (commit : Bool) : Option (Err ε) :=
  if group = "" then some (failure .unsupported "offset-group" [])
  else if cs = [] ∨ value.maxRecords < cs.length then some (failure .limit "checkpoints" [])
  else validLoop topics commit [] cs

def freshItems (cs : List Checkpoint) : List (CheckpointResult ε) :=
  cs.map (fun c => ⟨c, .unknown, none⟩)

/-- `indices`: an entry is that of the last item with its key. -/
def itemIndex (k : CheckpointKey) : List Checkpoint → Option ℕ
  | [] => none
  | c :: rest => ((itemIndex k rest).map (· + 1)).or (if c.key = k then some 0 else none)

/-! ## Committing -/

def addTopic (topics : List (String × TopicID × List (ℤ × ℤ))) (c : Checkpoint) :
    List (String × TopicID × List (ℤ × ℤ)) :=
  if topics.any (fun topic => topic.2.1 = c.topicID) then
    topics.map (fun topic => if topic.2.1 = c.topicID
      then (topic.1, topic.2.1, topic.2.2 ++ [(c.partition, c.next)]) else topic)
  else topics ++ [("", c.topicID, [(c.partition, c.next)])]

def checkpointRequest (group : String) (cs : List Checkpoint) : CommitRequest :=
  ⟨group, "", -1, none, cs.foldl addTopic []⟩

def CommitResponse.entries (r : CommitResponse ε) : List (CheckpointKey × Option (Native ε)) :=
  r.topics.flatMap (fun topic => topic.2.map (fun p => ((topic.1, p.1), p.2)))

def partitionFailure (code : Native ε) : Err ε :=
  failure .offsets "commit-partition" [some (.native code)]

def CheckpointResult.mark (item : CheckpointResult ε) : Option (Native ε) → CheckpointResult ε
  | some code => { item with err := some (partitionFailure code) }
  | none => { item with state := .committed }

/-- What the loop over a response keeps. -/
structure Tally (ε : Type) where
  items : List (CheckpointResult ε)
  seen : List CheckpointKey
  failures : List (Err ε)

def Tally.mark (t : Tally ε) (i : ℕ) (k : CheckpointKey) (code : Option (Native ε)) : Tally ε :=
  ⟨t.items.modify i (·.mark code), t.seen ++ [k], t.failures ++ (code.map partitionFailure).toList⟩

def joinFailures (kind : Kind) (operation : String) (failures : List (Err ε)) : Option (Err ε) :=
  (Fault.joined (failures.map some)).map (fun err => failure kind operation [some err])

def Tally.finish (t : Tally ε) (cs : List Checkpoint) : Option (Err ε) :=
  joinFailures .offsets "commit-offsets" (t.failures ++
    if t.seen.length ≠ (cs.map Checkpoint.key).dedup.length then
      [failure .offsets "commit-incomplete" []] else [])

def foreign : Err ε := failure .identity "commit-response" []

/-- **The loop over a response**: the error it returns, and the items it leaves. -/
def commitLoop (cs : List Checkpoint) : List (CheckpointKey × Option (Native ε)) → Tally ε →
    Option (Err ε) × List (CheckpointResult ε)
  | [], t => (t.finish cs, t.items)
  | (k, code) :: rest, t =>
    match itemIndex k cs with
    | none => (some foreign, t.items)
    | some i =>
      if k ∈ t.seen then (some foreign, t.items) else commitLoop cs rest (t.mark i k code)

/-- `commitCheckpoints`, on the items that `checkpoints` has made. -/
def commitCheckpoints (group : String) (ctx : Ctx ε)
    (serve : CommitRequest → Except (Native ε) (CommitResponse ε)) (cs : List Checkpoint) :
    Option (Err ε) × List (CheckpointResult ε) :=
  match serve (checkpointRequest group cs) with
  | .error err =>
    (some (nativeFailure .offsets "commit-offsets" ctx (.native err)), freshItems cs)
  | .ok response =>
    if response.version ≠ 10 then
      (some (failure .unsupported "offset-version" []), freshItems cs)
    else commitLoop cs response.entries ⟨freshItems cs, [], []⟩

/-! ## What is asked for -/

variable {topics : Topics} {commit : Bool} {cs : List Checkpoint}

theorem nodup_of_validLoop {seen : List CheckpointKey}
    (h : validLoop topics commit seen cs = (none : Option (Err ε))) :
    (cs.map Checkpoint.key).Nodup ∧ ∀ k ∈ cs.map Checkpoint.key, k ∉ seen := by
  induction cs generalizing seen with
  | nil => simp
  | cons c rest ih =>
    obtain ⟨hc, hrest⟩ := Option.or_eq_none_iff.mp h
    obtain ⟨hnodup, hout⟩ := ih hrest
    have hseen : c.key ∉ seen := by
      unfold checkpointError at hc
      split_ifs at hc with _ _ hmem
      exact hmem
    simp only [List.map_cons, List.nodup_cons, List.forall_mem_cons]
    exact ⟨⟨fun hm => hout _ hm (.head _), hnodup⟩, hseen, fun k hk hm => hout k hk (.tail _ hm)⟩

theorem itemIndex_eq_none {k : CheckpointKey} :
    itemIndex k cs = none ↔ k ∉ cs.map Checkpoint.key := by
  induction cs with
  | nil => simp [itemIndex]
  | cons c rest ih =>
    rw [itemIndex, Option.or_eq_none_iff, Option.map_eq_none_iff, ih, List.map_cons, List.mem_cons,
      not_or, and_comm]
    exact and_congr_left' (by simp [eq_comm])

theorem key_of_itemIndex {k : CheckpointKey} {i : ℕ} (h : itemIndex k cs = some i) :
    (cs.map Checkpoint.key)[i]? = some k := by
  induction cs generalizing i with
  | nil => cases h
  | cons c rest ih =>
    obtain h | ⟨-, h⟩ := Option.or_eq_some_iff.mp h
    · obtain ⟨i, hi, rfl⟩ := Option.map_eq_some_iff.mp h
      exact ih hi
    · obtain ⟨hk, rfl⟩ := of_guard h
      exact congrArg some hk

/-- Keys that are distinct have one item. -/
theorem itemIndex_of_nodup (hcs : (cs.map Checkpoint.key).Nodup) {i : ℕ} {c : Checkpoint}
    (hi : cs[i]? = some c) : itemIndex c.key cs = some i := by
  have hkey : (cs.map Checkpoint.key)[i]? = some c.key := by rw [List.getElem?_map, hi]; rfl
  cases hj : itemIndex c.key cs with
  | none => exact absurd (List.mem_of_getElem? hkey) (itemIndex_eq_none.mp hj)
  | some j =>
    rw [(List.getElem?_inj (List.getElem?_eq_some_iff.mp hkey).1 hcs).mp
      (hkey.trans (key_of_itemIndex hj).symm)]

/-! ## What has been read -/

/-- **What the loop knows** after the entries `done`. -/
structure Tallied (cs : List Checkpoint) (done : List (CheckpointKey × Option (Native ε)))
    (t : Tally ε) : Prop where
  seen : t.seen = done.map Prod.fst
  nodup : (done.map Prod.fst).Nodup
  known : ∀ x ∈ done, x.1 ∈ cs.map Checkpoint.key
  failures : t.failures = [] ↔ ∀ x ∈ done, x.2 = none
  checkpoints : t.items.map (fun item => item.checkpoint) = cs
  marked : ∀ i item, t.items[i]? = some item → (item.state = .committed ↔
    (item.checkpoint.key, none) ∈ done ∧ itemIndex item.checkpoint.key cs = some i)

variable {k : CheckpointKey} {done : List (CheckpointKey × Option (Native ε))} {t : Tally ε}

theorem checkpoint_mark (item : CheckpointResult ε) (code : Option (Native ε)) :
    (item.mark code).checkpoint = item.checkpoint := by
  cases code with
  | none | some => rfl

theorem Tallied.checkpoint (h : Tallied cs done t) {i : ℕ} {item : CheckpointResult ε}
    (hi : t.items[i]? = some item) : cs[i]? = some item.checkpoint := by
  rw [← h.checkpoints, List.getElem?_map, hi]
  rfl

theorem Tallied.mark (h : Tallied cs done t) {i : ℕ} (hi : itemIndex k cs = some i)
    (hk : k ∉ t.seen) (code : Option (Native ε)) :
    Tallied cs (done ++ [(k, code)]) (t.mark i k code) := by
  rw [h.seen] at hk
  have hkey := key_of_itemIndex hi
  refine ⟨?_, ?_, ?_, ?_, ?_, fun j item hitem => ?_⟩
  · rw [List.map_append, ← h.seen]
    rfl
  · rw [List.map_append]
    exact h.nodup.append (List.nodup_singleton k) (List.disjoint_singleton.mpr hk)
  · exact List.forall_mem_append.mpr
      ⟨h.known, List.forall_mem_singleton.mpr (List.mem_of_getElem? hkey)⟩
  · show t.failures ++ (code.map partitionFailure).toList = [] ↔ _
    simp [h.failures, or_imp, forall_and]
  · refine Eq.trans (List.ext_getElem? fun j => ?_) h.checkpoints
    show ((t.items.modify i (·.mark code)).map _)[j]? = _
    rw [List.getElem?_map, List.getElem?_map, List.getElem?_modify]
    cases t.items[j]? with
    | none => rfl
    | some item =>
      refine congrArg some ?_
      dsimp only
      split_ifs
      · exact checkpoint_mark item code
      · rfl
  · replace hitem : (t.items.modify i (·.mark code))[j]? = some item := hitem
    rw [List.getElem?_modify] at hitem
    obtain ⟨old, hold, rfl⟩ := Option.map_eq_some_iff.mp hitem
    have hm := h.marked j old hold
    rw [List.mem_append, List.mem_singleton]
    split_ifs with hij
    · -- this is the item of the entry, which has not been read before
      subst hij
      have hold' : old.checkpoint.key = k := by
        rw [List.getElem?_map, h.checkpoint hold] at hkey
        exact Option.some.inj hkey
      have hnot : (k, none) ∉ done := fun hd => hk (List.mem_map_of_mem hd)
      rw [hold'] at hm
      rw [checkpoint_mark, hold']
      cases code with
      | none => simp [CheckpointResult.mark, hi]
      | some => simpa [CheckpointResult.mark, hnot] using hm
    · rw [hm, and_congr_left_iff]
      refine fun hj => ⟨.inl, fun hd => hd.resolve_right fun he => hij ?_⟩
      rw [(Prod.mk.inj he).1, hi] at hj
      exact Option.some.inj hj

/-- **A response is read to its end, or to an entry that is foreign.** -/
theorem Tallied.loop (h : Tallied cs done t) (rest : List (CheckpointKey × Option (Native ε))) :
    (∃ t', Tallied cs (done ++ rest) t' ∧ commitLoop cs rest t = (t'.finish cs, t'.items))
    ∨ ∃ before x after t', rest = before ++ x :: after ∧ Tallied cs (done ++ before) t'
      ∧ (x.1 ∉ cs.map Checkpoint.key ∨ x.1 ∈ (done ++ before).map Prod.fst)
      ∧ commitLoop cs rest t = (some foreign, t'.items) := by
  induction rest generalizing done t with
  | nil => exact .inl ⟨t, by rwa [List.append_nil], rfl⟩
  | cons x rest ih =>
    have hstop := List.append_nil done
    have hcons := List.append_cons done x
    unfold commitLoop
    split
    · next hx =>
      exact .inr ⟨[], x, rest, t, rfl, hstop.symm ▸ h, .inl (itemIndex_eq_none.mp hx), rfl⟩
    next i hi =>
    split_ifs with hx
    · exact .inr ⟨[], x, rest, t, rfl, hstop.symm ▸ h, .inr (hstop.symm ▸ h.seen ▸ hx), rfl⟩
    · obtain ⟨t', ht, heq⟩ | ⟨before, y, after, t', rfl, ht, hy, heq⟩ := ih (h.mark hi hx x.2)
      · exact .inl ⟨t', hcons _ ▸ ht, heq⟩
      · exact .inr ⟨x :: before, y, after, t', rfl, hcons _ ▸ ht, hcons _ ▸ hy, heq⟩

theorem Tallied.finish_eq_none (h : Tallied cs done t) :
    t.finish cs = none ↔ (∀ x ∈ done, x.2 = none) ∧ ∀ c ∈ cs, c.key ∈ done.map Prod.fst := by
  have hjoin (errs : List (Err ε)) :
      joinFailures .offsets "commit-offsets" errs = none ↔ errs = [] := by
    unfold joinFailures Fault.joined
    cases errs with
    | nil | cons => simp [List.reduceOption]
  have hsub : (done.map Prod.fst).Subperm (cs.map Checkpoint.key).dedup :=
    h.nodup.subperm fun k hk => List.mem_dedup.mpr (List.forall_mem_map.mpr h.known k hk)
  unfold Tally.finish
  rw [hjoin, List.append_eq_nil_iff, h.failures, h.seen, ite_eq_right_iff]
  refine and_congr_right (fun _ => ⟨fun hlen c hc => ?_, fun hall hlen => absurd ?_ hlen⟩)
  · have hle : (cs.map Checkpoint.key).dedup.length ≤ (done.map Prod.fst).length := by
      by_contra hn
      exact absurd (hlen (fun heq => hn heq.ge)) (List.cons_ne_nil _ _)
    exact (hsub.perm_of_length_le hle).mem_iff.mpr (List.mem_dedup.mpr (List.mem_map_of_mem hc))
  · refine (hsub.antisymm ((List.nodup_dedup _).subperm fun k hk => ?_)).length_eq
    exact List.forall_mem_map.mpr hall k (List.mem_dedup.mp hk)

variable {value : Settings} {group : String} {ctx : Ctx ε}
  {serve : CommitRequest → Except (Native ε) (CommitResponse ε)} {primary : Option (Err ε)}
  {items : List (CheckpointResult ε)}

/-- **The evidence of a commit.** A commit returns no error if and only if the response names
each checkpoint once, nothing else, and no error; and then all checkpoints of a list that has
been accepted are committed. What is reported as committed has been named without an error,
and once, unless the response has been refused for what it names. -/
theorem commit_evidence (hout : commitCheckpoints group ctx serve cs = (primary, items)) :
    (∀ response, serve (checkpointRequest group cs) = .ok response →
      (primary = none ↔ response.version = 10
        ∧ (∀ c ∈ cs, (response.entries.map Prod.fst).count c.key = 1)
        ∧ ∀ x ∈ response.entries, x.1 ∈ cs.map Checkpoint.key ∧ x.2 = none))
    ∧ items.map (fun item => item.checkpoint) = cs
    ∧ (validCheckpoints value topics group cs true = (none : Option (Err ε)) → primary = none →
      ∀ item ∈ items, item.state = .committed)
    ∧ ∀ item ∈ items, item.state = .committed →
      ∃ response, serve (checkpointRequest group cs) = .ok response
        ∧ (item.checkpoint.key, none) ∈ response.entries
        ∧ (primary ≠ some foreign →
          (response.entries.map Prod.fst).count item.checkpoint.key = 1) := by
  have hstart : Tallied cs [] (⟨freshItems cs, [], []⟩ : Tally ε) := by
    refine ⟨rfl, List.nodup_nil, nofun, by simp, by simp [freshItems, Function.comp_def],
      fun i item hitem => ?_⟩
    obtain ⟨c, -, rfl⟩ := List.mem_map.mp (List.mem_of_getElem? hitem)
    simp
  have hnothing : ∀ item ∈ (freshItems cs : List (CheckpointResult ε)),
      ¬ item.state = .committed := fun item hitem hc => by
    obtain ⟨i, hi⟩ := List.mem_iff_getElem?.mp hitem
    exact absurd ((hstart.marked i item hi).mp hc).1 List.not_mem_nil
  unfold commitCheckpoints at hout
  split at hout
  · next hserve =>
    cases hout
    exact ⟨fun _ hr => (nomatch hserve.symm.trans hr), hstart.checkpoints, nofun,
      fun item hitem hc => absurd hc (hnothing item hitem)⟩
  next response hserve =>
  have hresponse {P : CommitResponse ε → Prop} (hP : P response) (r : CommitResponse ε)
      (hr : serve (checkpointRequest group cs) = .ok r) : P r :=
    Except.ok.inj (hserve.symm.trans hr) ▸ hP
  split_ifs at hout with hversion
  · cases hout
    exact ⟨hresponse (iff_of_false nofun (fun hn => hversion hn.1)), hstart.checkpoints, nofun,
      fun item hitem hc => absurd hc (hnothing item hitem)⟩
  rw [not_not] at hversion
  obtain ⟨t, ht, heq⟩ | ⟨before, x, after, t, hsplit, ht, hx, heq⟩ := hstart.loop response.entries
  · cases heq.symm.trans hout
    have hcount {k : CheckpointKey} := List.count_eq_one_of_mem (a := k) ht.nodup
    refine ⟨hresponse ?_, ht.checkpoints, fun hv hnone item hitem => ?_, fun item hitem hc => ?_⟩
    · rw [ht.finish_eq_none]
      refine ⟨fun ⟨hzero, hall⟩ => ⟨hversion, fun c hc => hcount (hall c hc), fun x hx =>
        ⟨ht.known x hx, hzero x hx⟩⟩, fun ⟨_, hone, hrest⟩ =>
        ⟨fun x hx => (hrest x hx).2, fun c hc => ?_⟩⟩
      exact List.count_pos_iff.mp (Nat.lt_of_lt_of_eq Nat.zero_lt_one (hone c hc).symm)
    · have hcs : (cs.map Checkpoint.key).Nodup := by
        unfold validCheckpoints at hv
        split_ifs at hv
        exact (nodup_of_validLoop hv).1
      obtain ⟨hzero, hall⟩ := ht.finish_eq_none.mp hnone
      obtain ⟨i, hi⟩ := List.mem_iff_getElem?.mp hitem
      have hci := ht.checkpoint hi
      obtain ⟨⟨k, code⟩, hx, hk⟩ := List.mem_map.mp (hall _ (List.mem_of_getElem? hci))
      obtain rfl : code = none := hzero _ hx
      exact (ht.marked i item hi).mpr ⟨hk ▸ hx, itemIndex_of_nodup hcs hci⟩
    · obtain ⟨i, hi⟩ := List.mem_iff_getElem?.mp hitem
      have hmem := ((ht.marked i item hi).mp hc).1
      exact ⟨response, hserve, hmem, fun _ => hcount (List.mem_map_of_mem hmem)⟩
  · cases heq.symm.trans hout
    refine ⟨hresponse (iff_of_false nofun (fun ⟨_, hone, hrest⟩ => ?_)), ht.checkpoints, nofun,
      fun item hitem hc => ⟨response, hserve, ?_, fun hne => absurd rfl hne⟩⟩
    · have hknown := (hrest x (hsplit ▸ by simp)).1
      obtain ⟨c, hc, hk⟩ := List.mem_map.mp hknown
      have hseen := List.count_pos_iff.mpr (hx.resolve_left (not_not.mpr hknown))
      have hone := hone c hc
      rw [hk, hsplit, List.map_append, List.count_append, List.map_cons,
        List.count_cons_self] at hone
      exact absurd hone (by rw [List.nil_append] at hseen; omega)
    · obtain ⟨i, hi⟩ := List.mem_iff_getElem?.mp hitem
      rw [hsplit]
      exact List.mem_append_left _ ((ht.marked i item hi).mp hc).1

namespace Sample

def checkpoint : Checkpoint := ⟨"t", 7, 0, 5⟩

def named (version : ℤ) (n : ℕ) (_ : CommitRequest) : Except (Native Unit) (CommitResponse Unit) :=
  .ok ⟨version, [(7, List.replicate n (0, none))]⟩

def outcome (version : ℤ) (n : ℕ) (cs : List Checkpoint) :
    Option (Err Unit) × List (CheckpointResult Unit) :=
  commitCheckpoints "g" none (named version n) cs

theorem valid : validCheckpoints Consumer.Sample.settings (fun _ => some ⟨7, 1, [1]⟩) "g"
    [checkpoint] true = (none : Option (Err Unit)) := rfl

end Sample

/-- A checkpoint is committed. -/
theorem commit_evidence_once : (Sample.outcome 10 1 [Sample.checkpoint]).1 = none
    ∧ ∀ item ∈ (Sample.outcome 10 1 [Sample.checkpoint]).2, item.state = .committed := by
  have hout : commitCheckpoints "g" none (Sample.named 10 1) [Sample.checkpoint]
      = ((Sample.outcome 10 1 [Sample.checkpoint]).1,
        (Sample.outcome 10 1 [Sample.checkpoint]).2) :=
    rfl
  obtain ⟨hiff, -, hall, -⟩ := commit_evidence hout
  have hnone := (hiff _ rfl).mpr (by decide)
  exact ⟨hnone, hall Sample.valid hnone⟩

/-- **A checkpoint that the response names twice is reported as committed**, by a call that
fails. A response of another version is not read, and of two checkpoints with one key, which
`validCheckpoints` refuses, one is marked. -/
theorem committed_named_twice :
    (∃ response : CommitResponse Unit,
      Sample.named 10 2 (checkpointRequest "g" [Sample.checkpoint]) = .ok response
      ∧ (response.entries.map Prod.fst).count Sample.checkpoint.key = 2
      ∧ (Sample.outcome 10 2 [Sample.checkpoint]).2.map (fun item => item.state) = [.committed])
    ∧ (Sample.outcome 9 1 [Sample.checkpoint]).1 ≠ none
    ∧ (Sample.outcome 10 1 [Sample.checkpoint, Sample.checkpoint]).1 = none
    ∧ (Sample.outcome 10 1 [Sample.checkpoint, Sample.checkpoint]).2.map (fun item => item.state)
      = [.unknown, .committed] :=
  ⟨⟨_, rfl, by decide, rfl⟩, nofun, rfl, rfl⟩

end Kafka
