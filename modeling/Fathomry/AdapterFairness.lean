import Fathomry.AdapterRuns

/-!
# First come, first served

`promoteLocked` serves the queue from its head: it takes off a piece of the
front, granting a permit to those who still want one, and stops at the first
that has to wait (`promoted_promoteLocked`). So whoever is granted a permit
while waiting has nobody in front of them who is still waiting for one.

The other way to a permit is the fast path of `acquire`, which is open only
while nobody waits. `Fair` states both for one section; every section of a
runtime is fair (`Runtime.fair_of_step`).
-/

namespace Adapter

variable {ε T : Type} {z : Options}

namespace Admission

variable {a a' : Admission ε T} {live : ℤ × ℤ} {c : ℕ}

/-- **What promotion takes off the queue** is a piece of its front, and
whoever is in it has a permit or an ended context. -/
def Promoted (a a' : Admission ε T) : Prop :=
  ∃ taken, a.queue = taken ++ a'.queue
    ∧ (∀ d ∈ taken, (a'.callers.cell d).granted = true ∨ (a.ctx d).isSome = true)
    ∧ ∀ d ∉ taken, a'.callers.cell d = a.callers.cell d

theorem Promoted.serve {f : Caller ε T → Caller ε T} {rest : List ℕ} {b : Admission ε T}
    (h : Promoted a a') (hq : a'.queue = c :: rest) (hb : b.queue = rest)
    (hcell : b.callers = a'.callers.modify c f)
    (hc : (f (a'.callers.cell c)).granted = true ∨ (a.ctx c).isSome = true) : Promoted a b := by
  obtain ⟨taken, hsplit, hserved, hrest⟩ := h
  refine ⟨taken ++ [c], ?_, fun d hd => ?_, fun d hd => ?_⟩
  · rw [hsplit, hq, hb, List.append_assoc, List.singleton_append]
  · rw [hcell, Heap.cell_modify]
    split_ifs with hdc
    · subst hdc
      exact hc
    · have hd' : d ∈ taken := by simpa [hdc] using hd
      exact hserved d hd'
  · have hdc : d ≠ c := fun hn => hd (by simp [hn])
    have hd' : d ∉ taken := fun hm => hd (List.mem_append_left _ hm)
    rw [hcell, Heap.cell_modify_of_ne _ _ hdc]
    exact hrest d hd'

/-- **`promoteLocked` serves the queue from its head.** -/
theorem promoted_promoteLocked : Promoted a (a.promoteLocked z) := by
  have hctx {b : Admission ε T} {f : Caller ε T → Caller ε T} {d : ℕ} (hf : ∀ x, (f x).ctx = x.ctx)
      (hb : ∀ d, b.ctx d = a.ctx d) (e : ℕ) : ((b.callers.modify d f).cell e).ctx = a.ctx e :=
    (Heap.cell_modify_proj b.callers d e hf).trans (hb e)
  refine (promote_rule (P := fun b => Promoted a b ∧ ∀ d, b.ctx d = a.ctx d)
    (fun hP _ hq _ _ => ⟨?_, ?_⟩) (fun {b d _} hP _ hq hsome => ⟨?_, ?_⟩)
    ⟨⟨[], rfl, nofun, fun _ _ => rfl⟩, fun _ => rfl⟩).1
  · exact hP.1.serve hq rfl rfl (.inl rfl)
  · exact hctx (fun _ => rfl) hP.2
  · exact hP.1.serve (f := (·.refuse (waitError z "admit" (b.ctx d)))) hq rfl rfl
      (.inr (hP.2 d ▸ hsome))
  · exact hctx (f := (·.refuse (waitError z "admit" (b.ctx d)))) (fun _ => rfl) hP.2

theorem promoted_releasePermitLocked (b : ℤ) : Promoted a (a.releasePermitLocked z b) := by
  have h : Promoted (a.discharge b) ((a.discharge b).promoteLocked z) := promoted_promoteLocked
  unfold releasePermitLocked closeDoneLocked
  split_ifs
  · exact h
  · exact h

theorem Promoted.sublist (h : Promoted a a') : a'.queue.Sublist a.queue := by
  obtain ⟨taken, hsplit, -⟩ := h
  exact hsplit ▸ List.sublist_append_right _ _

/-- Whoever promotion reaches, it reaches those in front of them first. -/
theorem Promoted.order (h : Promoted a a') (hn : a.queue.Nodup) {x y : ℕ}
    (hxy : [x, y].Sublist a.queue) (hy₀ : (a.callers.cell y).granted = false)
    (hy : (a'.callers.cell y).granted = true) :
    x ∉ a'.queue ∧ ((a'.callers.cell x).granted = true ∨ (a.ctx x).isSome = true) := by
  obtain ⟨taken, hsplit, hserved, hrest⟩ := h
  have hyt : y ∈ taken := by
    by_contra hm
    rw [hrest y hm] at hy
    exact nomatch hy₀.symm.trans hy
  rw [hsplit] at hxy hn
  have hdisj := List.disjoint_of_nodup_append hn
  have hxt : x ∈ taken := by
    obtain ⟨l₁, l₂, hl, h₁, h₂⟩ := List.sublist_append_iff.mp hxy
    cases l₁ with
    | nil =>
      -- both behind what was taken, but `y` is in it
      have hy₂ : y ∈ l₂ := by
        rw [← show [x, y] = l₂ from hl]
        exact .tail _ (.head _)
      exact absurd (h₂.subset hy₂) (hdisj hyt)
    | cons w =>
      obtain rfl : x = w := (List.cons.inj hl).1
      exact h₁.subset (.head _)
  exact ⟨hdisj hxt, hserved x hxt⟩

/-! ## Fair sections -/

def Event.arrival : Event ε → Option ℕ
  | .acquire c => some c
  | _ => none

/-- **A fair section.** The queue keeps its order and grows at its end. Of
two calls that wait, the later is granted a permit only when the earlier has
one or has given up. Whoever else comes by a permit found nobody waiting. -/
structure Fair (a a' : Admission ε T) (arrival : Option ℕ) : Prop where
  queue : a'.queue.Sublist (a.queue ++ arrival.toList)
  order : ∀ x y, [x, y].Sublist a.queue → (a'.callers.cell y).granted = true →
    x ∉ a'.queue ∧ ((a'.callers.cell x).granted = true ∨ (a.ctx x).isSome = true)
  taken : ∀ d, (a'.callers.cell d).charged = true →
    (a.callers.cell d).charged = true ∨ d ∈ a.queue ∨ (arrival = some d ∧ a.queue = [])

namespace Books

variable (h : Books z a live)

include h

/-- Nobody in the queue has been granted a permit. -/
theorem not_granted {d : ℕ} (hd : d ∈ a.queue) : (a.callers.cell d).granted = false :=
  (Caller.waits_iff.mp ((h.mem d).mp hd).2).2.1

/-- A section that grants nothing is fair. -/
theorem fair_of_loss {arrival : Option ℕ} (hq : a'.queue.Sublist (a.queue ++ arrival.toList))
    (hg : ∀ d, (a'.callers.cell d).granted = true → (a.callers.cell d).granted = true)
    (hx : ∀ d, (a'.callers.cell d).charged = true →
      (a.callers.cell d).charged = true ∨ (arrival = some d ∧ a.queue = [])) :
    Fair a a' arrival := by
  refine ⟨hq, fun x y hxy hy => ?_, fun d hd => (hx d hd).imp_right .inr⟩
  have hyq : y ∈ a.queue := hxy.subset (.tail _ (.head _))
  exact nomatch (h.not_granted hyq).symm.trans (hg y hy)

/-- So is one that moves a call on. Only an arrival takes a permit that
way. -/
theorem fair_goto {p : Phase ε} {arrival : Option ℕ}
    (hq : a'.queue.Sublist (a.queue ++ arrival.toList))
    (hcell : a'.callers = a.callers.modify c (·.goto p))
    (hx : ((a.callers.cell c).goto p).charged = true →
      (a.callers.cell c).charged = true ∨ (arrival = some c ∧ a.queue = [])) :
    Fair a a' arrival := by
  refine h.fair_of_loss hq (fun d hd => ?_) (fun d hd => ?_)
  · rw [hcell, Heap.cell_modify_proj (f := (·.goto p)) (π := Caller.granted) _ c d
      (fun _ => rfl)] at hd
    exact hd
  · rw [hcell, Heap.cell_modify] at hd
    split_ifs at hd with hdc
    · subst hdc
      exact hx hd
    · exact .inl hd

theorem fair_promoted (hP : Promoted a a') : Fair a a' none := by
  refine ⟨hP.sublist.trans (List.sublist_append_left _ _), fun x y hxy hy => ?_, fun d hd => ?_⟩
  · exact hP.order h.nodup hxy
      (h.not_granted (hxy.subset (.tail _ (.head _)))) hy
  · obtain ⟨taken, hsplit, -, hrest⟩ := hP
    by_cases hm : d ∈ taken
    · exact .inr (.inl (hsplit ▸ List.mem_append_left _ hm))
    · exact .inl (hrest d hm ▸ hd)

/-- **Promotion after a call has left is fair**, when a call that leaves
the queue does so because its context has ended. -/
theorem fair_left {p : Phase ε} {b : Admission ε T} (hq : b.queue = a.queue.erase c)
    (hcell : b.callers = a.callers.modify c (·.goto p)) (hp : p.left = true)
    (hctx : c ∈ a.queue → (a.ctx c).isSome = true) (hP : Promoted b a') : Fair a a' none := by
  have hn : b.queue.Nodup := hq ▸ h.nodup.erase c
  have hout : c ∉ b.queue := hq ▸ h.nodup.not_mem_erase
  have hgranted (d : ℕ) : (b.callers.cell d).granted = (a.callers.cell d).granted := by
    rw [hcell]
    exact Heap.cell_modify_proj a.callers c d
      (fun _ => rfl)
  have hctx' (d : ℕ) : b.ctx d = a.ctx d := by
    unfold Admission.ctx
    rw [hcell]
    exact Heap.cell_modify_proj a.callers c d
      (fun _ => rfl)
  refine ⟨(hP.sublist.trans (hq ▸ List.erase_sublist)).trans (List.sublist_append_left _ _),
    fun x y hxy hy => ?_, fun d hd => ?_⟩
  · have hx : x ∈ a.queue := hxy.subset (.head _)
    have hy₀ : (a.callers.cell y).granted = false :=
      h.not_granted (hxy.subset (.tail _ (.head _)))
    by_cases hxc : x = c
    · subst hxc
      obtain ⟨taken, hsplit, -, -⟩ := hP
      exact ⟨fun hm => hout (hsplit ▸ List.mem_append_right _ hm), .inr (hctx hx)⟩
    · by_cases hyc : y = c
      · -- whoever has left is granted nothing
        subst hyc
        obtain ⟨taken, hsplit, -, hrest⟩ := hP
        rw [hrest y (fun hm => hout (hsplit ▸ List.mem_append_left _ hm)), hgranted y] at hy
        exact nomatch hy₀.symm.trans hy
      · have hsub := hxy.erase c
        rw [List.erase_of_not_mem (by simp [Ne.symm hxc, Ne.symm hyc]), ← hq] at hsub
        rw [← hctx' x]
        exact hP.order hn hsub ((hgranted y).trans hy₀) hy
  · obtain ⟨taken, hsplit, -, hrest⟩ := hP
    by_cases hm : d ∈ taken
    · exact .inr (.inl (List.mem_of_mem_erase (hq ▸ hsplit ▸ List.mem_append_left _ hm)))
    · rw [hrest d hm, hcell, Heap.cell_modify] at hd
      split_ifs at hd with hdc
      · have hfree : ((a.callers.cell d).goto p).charged = false := Caller.charged_of_left hp
        exact nomatch hfree.symm.trans hd
      · exact .inl hd

theorem fair_giveBack {p : Phase ε} {b : ℤ} (hc : c ∉ a.queue) (hp : p.left = true) :
    Fair a ((a.releasePermitLocked z b).goto c p) none := by
  rw [goto_releasePermitLocked hc]
  have hq : (a.goto c p).queue = a.queue.erase c := (List.erase_of_not_mem hc).symm
  exact h.fair_left hq rfl hp (fun hm => absurd hm hc) (promoted_releasePermitLocked b)

theorem fair_giveUp {p : Phase ε} (hm : c ∈ a.queue) (hp : p.left = true)
    (hctx : (a.ctx c).isSome = true) : Fair a (((a.leave c).promoteLocked z).goto c p) none := by
  rw [h.goto_leave hm]
  exact h.fair_left rfl rfl hp (fun _ => hctx) promoted_promoteLocked

end Books

namespace Ok

variable (h : Ok z a live)

include h

/-- **`acquire`, up to its `select`, is fair**: a call that finds somebody
waiting joins the queue. -/
theorem fair_acquire (hc : c < a.callers.next) (hp : a.phase c = .entering) :
    Fair a (a.acquire z c) (some c) := by
  have hfresh := ((h.callers c hc).unanswered ((h.callers c hc).fresh hp)).1
  have hlost {p : Phase ε} (hp : p.left = true) : ¬ ((a.callers.cell c).goto p).charged = true :=
    Bool.eq_false_iff.mp (Caller.charged_of_left hp)
  have hstay : a.queue.Sublist (a.queue ++ [c]) := List.sublist_append_left _ _
  unfold Admission.acquire
  split_ifs with _ _ _ hf
  iterate 3 exact h.fair_goto hstay rfl (fun hx => absurd hx (hlost rfl))
  · exact h.fair_goto hstay rfl (fun _ => .inr ⟨rfl, hf.1⟩)
  · exact h.fair_goto hstay rfl (fun hx => absurd hx (hlost rfl))
  · refine h.fair_goto (List.Sublist.refl _) rfl (fun hx => ?_)
    obtain ⟨-, hg⟩ := Bool.and_eq_true_iff.mp hx
    exact nomatch hfresh.symm.trans hg

/-- **`acquire`, after its `select`, is fair.** -/
theorem fair_resume (hc : c < a.callers.next) (hp : a.phase c = .queued)
    (hw : 0 < (a.callers.cell c).ready ∨ (a.ctx c).isSome = true) : Fair a (a.resume z c) none := by
  have hx := h.callers c hc
  unfold Admission.resume
  split_ifs with hok
  · exact h.fair_goto (List.sublist_append_left _ _) rfl
      (fun _ => .inl (Caller.charged_of_granted hp hok.1 (hx.root_of_queued hp)))
  generalize (a.withdraw z c).refusal z c = err
  unfold withdraw
  split_ifs with hg he
  · exact h.fair_giveBack (fun hm => nomatch hg.symm.trans (h.not_granted hm)) rfl
  · have hwait : (a.callers.cell c).waits = true := Caller.waits_iff.mpr
      ⟨hp, eq_false_of_ne_true hg, Option.isNone_iff_eq_none.mp he⟩
    -- nobody has answered, so it is the context that has ended
    have hctx := hw.resolve_left (fun hr => hr.ne' (hx.ready_of_waits hwait))
    exact h.fair_giveUp ((h.mem c).mpr ⟨hc, hwait⟩) rfl hctx
  · have hfree : ((a.callers.cell c).goto (.failing err)).charged = false :=
      Caller.charged_of_left rfl
    exact h.fair_goto (List.sublist_append_left _ _) rfl
      (fun hx => nomatch hfree.symm.trans hx)

end Ok

/-- **Every step of the admitting part is fair.** -/
theorem Ok.fair_of_step (h : Ok z a live) {e : Event ε} (hs : a.step z e = some a') :
    Fair a a' e.arrival := by
  have hquiet {d : ℕ} {f : Caller ε T → Caller ε T} (hg : ∀ x, (f x).granted = x.granted)
      (hx : ∀ x, (f x).charged = x.charged) : Fair a (a.change d f) none := by
    refine h.fair_of_loss (List.sublist_append_left _ _) (fun e he => ?_) (fun e he => .inl ?_)
    · exact (Heap.cell_modify_proj a.callers d e hg).symm.trans he
    · exact (Heap.cell_modify_proj a.callers d e hx).symm.trans he
  cases stepped hs with
  | cancelCall | cancelLifetime => exact hquiet (fun _ => rfl) (fun _ => rfl)
  | cancelBase =>
    refine h.fair_of_loss (List.sublist_append_left _ _) ?_ ?_
    · exact fun _ hd => hd
    · exact fun _ hd => .inl hd
  | acquire c hc hp => exact h.fair_acquire hc hp
  | resume c hc hp hw => exact h.fair_resume hc hp hw
  | abort c err =>
    have hfree : ((a.callers.cell c).goto (.failed err)).charged = false :=
      Caller.charged_of_left rfl
    exact h.fair_goto (List.sublist_append_left _ _) rfl
      (fun hx => nomatch hfree.symm.trans hx)

theorem Books.fair_shutdown (h : Books z a live) (cause : Option (Err ε)) :
    Fair a (a.shutdown z cause).closeDoneLocked none := by
  have hcell (d : ℕ) : (a.shutdown z cause).closeDoneLocked.callers.cell d
      = if d ∈ a.queue then (a.callers.cell d).refuse (failureOf .closed "admit" z.name {} [cause])
        else a.callers.cell d := by
    rw [callers_closeDoneLocked]
    rfl
  have hq : (a.shutdown z cause).closeDoneLocked.queue = [] := by
    unfold Admission.closeDoneLocked
    split_ifs
    · rfl
    · rfl
  refine h.fair_of_loss (hq ▸ List.nil_sublist _) (fun d hd => ?_) (fun d hd => .inl ?_)
  all_goals
    rw [hcell] at hd
    split_ifs at hd
    · exact hd
    · exact hd

end Admission

def Event.arrival : Event ε T → Option ℕ
  | .admission e => e.arrival
  | _ => none

theorem Runtime.fair_of_step [Inhabited T] {s s' : Runtime ε T} (h : Sound z s) {e : Event ε T}
    (hstep : s.step z e = some s') : Admission.Fair s.toAdmission s'.toAdmission e.arrival := by
  have hsame {t : Tree ε T} : Admission.Fair s.toAdmission (s.setTree t).toAdmission none :=
    h.books.fair_of_loss (List.sublist_append_left _ _) (fun _ hd => hd) (fun _ => .inl)
  have hbegun {c v : ℕ} : Admission.Fair s.toAdmission (s.toAdmission.goto c (.begun v)) none := by
    have hfree : ((s.callers.cell c).goto (.begun v)).charged = false := Caller.charged_of_left rfl
    exact h.books.fair_goto (List.sublist_append_left _ _) rfl
      (fun hx => nomatch hfree.symm.trans hx)
  cases Runtime.stepped hstep with
  | call x =>
    -- the new call has nothing, and the others have what they had
    have hcell (d : ℕ) : (s.setAdmission (s.invoke (.new x))).callers.cell d
        = if d = s.callers.next then .new x else s.callers.cell d := s.callers.cell_alloc _ d
    refine h.books.fair_of_loss (List.sublist_append_left _ _) (fun d hd => ?_)
      (fun d hd => .inl ?_)
    · rw [hcell] at hd
      split_ifs at hd
      · cases hd
      · exact hd
    · rw [hcell] at hd
      split_ifs at hd
      · rw [Caller.charged_new] at hd
        cases hd
      · exact hd
  | admission e a ha => exact h.books.fair_of_step ha
  | refuseRoot c err hc hp =>
    exact h.books.fair_giveBack (h.books.not_mem (Caller.waits_of_early (by rw [hp]; rfl))) rfl
  | refuseChild c p err =>
    have hfree : ((s.callers.cell c).goto (.failing err)).charged = false :=
      Caller.charged_of_left rfl
    exact h.books.fair_goto (List.sublist_append_left _ _) rfl
      (fun hx => nomatch hfree.symm.trans hx)
  | beginRoot | beginChild => exact hbegun
  | shutdownAgain | finishChild | tree => exact hsame
  | shutdown cause => exact h.books.fair_shutdown cause
  | finishRoot => exact h.books.fair_promoted (Admission.promoted_releasePermitLocked _)

end Adapter
