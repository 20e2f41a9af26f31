import Fathomry.MysqlWire

/-!
# Nothing but the request for TLS is sent in clear

A wire that requires TLS is in one of three situations. It has not been
written to; it has been upgraded; or it is of no use any more, because the
socket is closed or a call has not come back. Only the write that leaves the
first situation sends something in clear, and that is the request for TLS.

A failed handshake is the interesting case: the first frame is gone and the
transport is still the raw one, so it is only the closed socket that keeps
the next frame from being sent in clear (`Guarded.secure`).
-/

namespace Mysql

namespace Wire

variable {ε : Type}

/-- What is sent in clear. -/
@[simp] def Action.clear : Action ε → Option Bytes
  | .sent .raw bytes => some bytes
  | _ => none

@[simp] def Action.isSecured : Action ε → Prop
  | .secured => True
  | _ => False

/-- What is sent through TLS. -/
@[simp] def Action.isSealed : Action ε → Prop
  | .sent .tls _ => True
  | _ => False

def clearText (log : List (Action ε)) : Bytes := (log.filterMap Action.clear).flatten

def Event.frame : Event ε → Option Bytes
  | .write frame _ _ _ => some frame
  | _ => none

def frames (tr : List (Event ε)) : List Bytes := tr.filterMap Event.frame

theorem clearText_append (log more : List (Action ε)) :
    clearText (log ++ more) = clearText log ++ clearText more := by
  simp [clearText]

/-- **The request for TLS** is the beginning of the frame with one bit
set. -/
theorem sslRequest_eq {frame : Bytes} (h : 36 ≤ frame.length) :
    sslRequest frame = [32, 0, 0, 1]
      ++ List.zipWith (· ||| ·) (frame.slice 4 4) [0, 8, 0, 0] ++ frame.slice 8 28 := by
  have hlen : (frame.slice 4 4).length = 4 := by
    simp only [Bytes.slice, List.length_take, List.length_drop]
    omega
  have hword : Bytes.slice ([32, 0, 0, 1] ++ frame.slice 4 32) 4 4 = frame.slice 4 4 := by
    simp [Bytes.slice, List.take_take]
  have hrest : ([32, 0, 0, 1] ++ frame.slice 4 32).drop 8 = frame.slice 8 28 := by
    simp [Bytes.slice, List.drop_take]
  have hor : Bytes.little (frame.slice 4 4) ||| tlsFlag
      = Bytes.little (List.zipWith (· ||| ·) (frame.slice 4 4) [0, 8, 0, 0]) :=
    Bytes.little_or (frame.slice 4 4) [0, 8, 0, 0] hlen
  have hset : Bytes.ofLittle 4 (Bytes.little (frame.slice 4 4) ||| tlsFlag)
      = List.zipWith (· ||| ·) (frame.slice 4 4) [0, 8, 0, 0] := by
    rw [hor]
    have hz := Bytes.ofLittle_little (List.zipWith (· ||| ·) (frame.slice 4 4) [0, 8, 0, 0])
    rwa [List.length_zipWith, hlen] at hz
  unfold sslRequest Bytes.setFlags Bytes.put
  rw [hword, hset, List.length_zipWith, hlen]
  show ([32, 0, 0, 1] ++ frame.slice 4 32).take 4 ++ _ ++ List.drop 8 _ = _
  rw [hrest, List.take_left']
  rfl

namespace State

variable {lib : Library} {settings : Settings ε} {s s' : State ε} {t : Turn ε} {l : Event ε}

/-! ## What a call keeps -/

/-- The connection is the one it was. -/
structure Kept (s s' : State ε) : Prop where
  transport : s'.transport = s.transport
  firstAuth : s'.firstAuth = s.firstAuth
  closed : s.closed = true → s'.closed = true
  panicked : s.panicked = true → s'.panicked = true

theorem Kept.rfl : Kept s s := ⟨Eq.refl _, Eq.refl _, id, id⟩

theorem Kept.trans {s'' : State ε} (h : Kept s s') (h' : Kept s' s'') : Kept s s'' :=
  ⟨h'.transport.trans h.transport, h'.firstAuth.trans h.firstAuth, h'.closed ∘ h.closed,
    h'.panicked ∘ h.panicked⟩

theorem kept_fail (count : ℕ) (err : Err ε) : Kept s (s.fail count err).state :=
  ⟨rfl, rfl, fun _ => rfl, id⟩

theorem kept_wrote : Kept s s.wrote := by
  fun_cases wrote
  · exact .rfl
  iterate 2 exact ⟨rfl, rfl, id, id⟩
  · exact .rfl

def Silent (t : Turn ε) : Prop := ∀ a ∈ t.actions, a.clear = none ∧ ¬ a.isSealed

theorem silent_fail (count : ℕ) (err : Err ε) : Silent (s.fail count err) := by
  intro a ha
  obtain rfl := List.mem_singleton.mp ha
  exact ⟨rfl, id⟩

theorem silent_deliver (size : ℕ) : Silent (s.deliver size) := by
  intro a ha
  obtain rfl | ha := List.mem_cons.mp ha
  · exact ⟨rfl, id⟩
  · obtain rfl := List.mem_singleton.mp ha
    exact ⟨rfl, id⟩

theorem Silent.clearText (h : Silent t) : clearText t.actions = [] := by
  unfold Wire.clearText
  rw [List.filterMap_eq_nil_iff.mpr (fun a ha => (h a ha).1)]
  rfl

/-- **Reading sends nothing.** -/
theorem kept_read {size : ℕ} {header : Except (Err ε) (UInt8 × UInt8 × UInt8 × UInt8)}
    {body : Except (Err ε) Bytes} (ht : s.read lib settings size header body = some t) :
    Kept s t.state ∧ Silent t := by
  revert ht
  fun_cases read
  all_goals rintro ⟨⟩
  · refine ⟨.rfl, fun a ha => ?_⟩
    obtain rfl := List.mem_singleton.mp ha
    exact ⟨rfl, id⟩
  · exact ⟨⟨rfl, rfl, id, id⟩, silent_deliver size⟩
  iterate 3 exact ⟨kept_fail 0 _, silent_fail 0 _⟩
  iterate 2 exact ⟨⟨rfl, rfl, fun _ => rfl, id⟩, silent_fail 0 _⟩
  · exact ⟨⟨rfl, rfl, id, id⟩, silent_deliver size⟩

theorem command_cases (s : State ε) (frame : Bytes) :
    (∃ s', Kept s s' ∧ s.command frame = .ok s') ∨
      ∃ t, Kept s t.state ∧ Silent t ∧ s.command frame = .error t := by
  unfold command
  split
  · exact .inr ⟨_, kept_fail 0 _, silent_fail 0 _, rfl⟩
  · split
    · exact .inr ⟨_, ⟨rfl, rfl, fun _ => rfl, id⟩, silent_fail 0 _, rfl⟩
    · refine .inl ⟨_, ?_, rfl⟩
      exact ⟨rfl, rfl, id, id⟩

theorem outgoing_cases (s : State ε) (frame : Bytes) :
    (∃ s' out, Kept s s' ∧ s.outgoing frame = .ok (s', out)) ∨
      ∃ t, Kept s t.state ∧ Silent t ∧ s.outgoing frame = .error t := by
  unfold outgoing
  split
  · obtain ⟨s', hk, hc⟩ | ⟨t, hk, hs, hc⟩ := command_cases s frame
    · exact .inl ⟨s', frame, hk, by rw [hc]; rfl⟩
    · exact .inr ⟨t, hk, hs, by rw [hc]; rfl⟩
  · split
    · exact .inl ⟨s, frame, .rfl, rfl⟩
    · split
      · exact .inr ⟨s.crash, ⟨rfl, rfl, id, fun _ => rfl⟩, nofun, rfl⟩
      · exact .inl ⟨s, _, .rfl, rfl⟩

/-- What is sent goes through the transport that is there. -/
theorem transmit_spec (s : State ε) (out : Bytes) (sent : Written ε) :
    Kept s (s.transmit out sent).state ∧ ∃ rest, (∀ a ∈ rest, a.clear = none ∧ ¬ a.isSealed) ∧
      (s.transmit out sent).actions = .sent s.transport (out.take sent.count) :: rest := by
  unfold transmit
  dsimp only
  split
  · exact ⟨kept_fail _ _, _, silent_fail sent.count _, rfl⟩
  · refine ⟨kept_wrote, _, fun a ha => ?_, rfl⟩
    obtain rfl := List.mem_singleton.mp ha
    exact ⟨rfl, id⟩

variable {sent : Written ε}

/-- **A frame is not sent in clear** once the transport is TLS, or nothing can
be written. -/
theorem send_spec (frame : Bytes) (h : s.transport = .tls ∨ sent.count = 0) :
    Kept s (s.send frame sent).state ∧ clearText (s.send frame sent).actions = [] ∧
      (s.transport = .raw → ∀ a ∈ (s.send frame sent).actions, ¬ a.isSealed) := by
  unfold send
  obtain ⟨s', out, hk, ho⟩ | ⟨t, hk, hs, ho⟩ := outgoing_cases s frame
  · rw [ho]
    obtain ⟨hk', rest, hrest, ha⟩ := transmit_spec s' out sent
    refine ⟨hk.trans hk', ?_, ?_⟩
    · show clearText (s'.transmit out sent).actions = []
      have hnil : rest.filterMap Action.clear = [] :=
        List.filterMap_eq_nil_iff.mpr (fun a h => (hrest a h).1)
      rw [ha, hk.transport, clearText]
      obtain h | h := h
      · simp [h, List.filterMap_cons, hnil]
      · cases hc : s.transport
        all_goals simp [h, List.filterMap_cons, hnil]
    · intro hraw a hmem
      rw [ha, hk.transport, hraw] at hmem
      obtain rfl | hmem := List.mem_cons.mp hmem
      · exact id
      · exact (hrest a hmem).2
  · rw [ho]
    exact ⟨hk, hs.clearText, fun _ a ha => (hs a ha).2⟩

/-! ## Runs -/

/-- **The three situations**, with what has been sent in clear. -/
structure Guarded (tr : List (Event ε)) (log : List (Action ε)) (s : State ε) : Prop where
  clear : clearText log = [] ∨ ∃ frame, (frames tr).head? = some frame ∧ 36 ≤ frame.length ∧
    clearText log <+: sslRequest frame
  fresh : s.firstAuth = true → s.transport = .raw ∧ clearText log = [] ∧
    (s.closed = true ∨ frames tr = [])
  secure : s.firstAuth = false → s.transport = .tls ∨ s.closed = true ∨ s.panicked = true
  verified : s.transport = .tls → ∃ a ∈ log, a.isSecured
  order : Precedes Action.isSecured Action.isSealed log

variable {tr : List (Event ε)} {log : List (Action ε)}

theorem Guarded.keep (h : s.Guarded tr log) (hk : Kept s t.state)
    (hclear : clearText t.actions = [])
    (hsealed : s.transport = .raw → ∀ a ∈ t.actions, ¬ a.isSealed)
    (hfresh : s.firstAuth = true → t.state.closed = true ∨ Event.frame l = none) :
    t.state.Guarded (tr ++ [l]) (log ++ t.actions) := by
  have hct : clearText (log ++ t.actions) = clearText log := by
    rw [clearText_append, hclear, List.append_nil]
  have hframes : frames (tr ++ [l]) = frames tr ++ (Event.frame l).toList := by
    unfold frames
    cases hl : Event.frame l
    all_goals simp [hl]
  refine ⟨?_, ?_, ?_, ?_, ?_⟩
  · rw [hct, hframes]
    exact h.clear.imp_right (fun ⟨frame, hf, hp⟩ => ⟨frame, by rw [List.head?_append, hf]; rfl, hp⟩)
  · intro hfirst
    rw [hk.firstAuth] at hfirst
    obtain ⟨hraw, hnil, hc⟩ := h.fresh hfirst
    refine ⟨hk.transport.trans hraw, hct.trans hnil, ?_⟩
    rw [hframes]
    obtain hc | hc := hc
    · exact .inl (hk.closed hc)
    · refine (hfresh hfirst).imp_right (fun hl => ?_)
      rw [hc, hl]
      rfl
  · intro hfirst
    rw [hk.firstAuth] at hfirst
    rw [hk.transport]
    exact (h.secure hfirst).imp_right (Or.imp hk.closed hk.panicked)
  · intro htls
    rw [hk.transport] at htls
    obtain ⟨a, ha, hs⟩ := h.verified htls
    exact ⟨a, List.mem_append_left _ ha, hs⟩
  · cases hc : s.transport with
    | raw => exact h.order.append_of_not (hsealed hc)
    | tls => exact h.order.append_of_mem (h.verified hc)

theorem count_eq_zero {w : Written ε} {size : ℕ} (h : w.possible true size = true) :
    w.count = 0 := by
  simp only [Written.possible] at h
  simp_all

variable {frame : Bytes} {request : Written ε} {handshake : Option (Err ε)}

theorem Guarded.asked (h : s.Guarded tr log) (hfirst : s.firstAuth = true) {rest : List (Action ε)}
    (hp : request.possible s.closed 36 = true) (hlen : 36 ≤ frame.length)
    (hrest : clearText rest = []) :
    let tr' := tr ++ [.write frame request handshake sent]
    let log' := log ++ (.sent s.transport ((sslRequest frame).take request.count) :: rest)
    clearText log' = [] ∨ ∃ frame, (frames tr').head? = some frame ∧ 36 ≤ frame.length ∧
      clearText log' <+: sslRequest frame := by
  intro tr' log'
  obtain ⟨hraw, hnil, hc⟩ := h.fresh hfirst
  have hct : clearText log' = (sslRequest frame).take request.count := by
    rw [clearText_append, hnil, hraw]
    unfold clearText at hrest ⊢
    simp [hrest]
  rw [hct]
  obtain hc | hc := hc
  · left
    rw [count_eq_zero (hc ▸ hp)]
    rfl
  · refine .inr ⟨frame, ?_, hlen, List.take_prefix _ _⟩
    show (frames (tr ++ [_])).head? = some frame
    unfold frames at hc ⊢
    rw [List.filterMap_append, hc]
    rfl

/-- **What the first frame comes to**: the call is over, and the wire is of no
use any more, or the wire is secured. -/
theorem upgrade_cases (s : State ε) (hplain : settings.plaintext = false) (frame : Bytes)
    (request : Written ε) (handshake : Option (Err ε)) :
    let asked := Action.sent s.transport ((sslRequest frame).take request.count)
    (∃ t, s.upgrade settings frame request handshake = .error t ∧
      t.state.transport = s.transport ∧ t.state.firstAuth = false ∧
      (t.state.closed = true ∨ t.state.panicked = true) ∧
      (Silent t ∨ 36 ≤ frame.length ∧ ∃ rest, t.actions = asked :: rest ∧
        ∀ a ∈ rest, a.clear = none ∧ ¬ a.isSealed)) ∨
    (36 ≤ frame.length ∧ ∃ s', s.upgrade settings frame request handshake
      = .ok ⟨s', [asked, .secured]⟩ ∧ s'.transport = .tls ∧ s'.firstAuth = false) := by
  unfold upgrade
  split
  · exact .inl ⟨_, rfl, rfl, rfl, .inl rfl, .inl (silent_fail 0 _)⟩
  have hlen : 36 ≤ frame.length := by omega
  rw [if_neg (by simp [hplain])]
  repeat' split
  · exact .inl ⟨_, rfl, rfl, rfl, .inl rfl, .inl (silent_fail 0 _)⟩
  · exact .inl ⟨_, rfl, rfl, rfl, .inl rfl, .inr ⟨hlen, _, rfl, silent_fail 0 _⟩⟩
  · exact .inl ⟨_, rfl, rfl, rfl, .inr rfl, .inr ⟨hlen, _, rfl, nofun⟩⟩
  · exact .inl ⟨_, rfl, rfl, rfl, .inl rfl, .inr ⟨hlen, _, rfl, silent_fail 0 _⟩⟩
  · exact .inr ⟨hlen, _, rfl, rfl, rfl⟩

/-- **The first frame.** -/
theorem Guarded.upgrade (h : s.Guarded tr log) (hplain : settings.plaintext = false)
    (hfirst : s.firstAuth = true) (hreq : request.possible s.closed 36 = true)
    (ht : (match s.upgrade settings frame request handshake with
      | .error t => t
      | .ok t =>
        ⟨(t.state.send frame sent).state, t.actions ++ (t.state.send frame sent).actions⟩) = t) :
    t.state.Guarded (tr ++ [.write frame request handshake sent]) (log ++ t.actions) := by
  obtain ⟨hraw, hnil, -⟩ := h.fresh hfirst
  have hc : s.transport ≠ .tls := fun htls => nomatch hraw.symm.trans htls
  obtain ⟨u, hu, htr, hfa, hdead, hsends⟩ | ⟨hlen, s', hu, htr, hfa⟩ :=
    upgrade_cases s hplain frame request handshake
  · rw [hu] at ht
    obtain rfl : u = t := ht
    refine ⟨?_, fun hf => absurd (hfa.symm.trans hf) nofun, fun _ => .inr hdead,
      fun htls => absurd (htr.symm.trans htls) hc, ?_⟩
    · obtain hs | ⟨hlen, rest, ha, hrest⟩ := hsends
      · left
        rw [clearText_append, hnil, hs.clearText]
        rfl
      · rw [ha]
        refine h.asked hfirst hreq hlen ?_
        rw [clearText, List.filterMap_eq_nil_iff.mpr (fun a ha => (hrest a ha).1)]
        rfl
    · refine h.order.append_of_not (fun a ha => ?_)
      obtain hs | ⟨-, rest, hact, hrest⟩ := hsends
      · exact (hs a ha).2
      · rw [hact, hraw] at ha
        obtain rfl | ha := List.mem_cons.mp ha
        · exact id
        · exact (hrest a ha).2
  · rw [hu] at ht
    obtain rfl := ht
    obtain ⟨hk, hclear, -⟩ := send_spec frame (.inl htr : _ ∨ sent.count = 0)
    have hsecured : ∃ a ∈ log ++ [.sent s.transport ((sslRequest frame).take request.count),
        .secured], a.isSecured := ⟨.secured, by simp, trivial⟩
    refine ⟨?_, ?_, fun _ => .inl (hk.transport.trans htr), fun _ => ?_, ?_⟩
    · refine h.asked hfirst hreq hlen ?_
      exact hclear
    · exact fun hf => nomatch hfa.symm.trans (hk.firstAuth.symm.trans hf)
    · obtain ⟨a, ha, hs⟩ := hsecured
      refine ⟨a, ?_, hs⟩
      rw [← List.append_assoc]
      exact List.mem_append_left _ ha
    · rw [← List.append_assoc]
      refine Precedes.append_of_mem (h.order.append_of_not ?_) hsecured
      rw [hraw]
      simp

theorem Guarded.write (h : s.Guarded tr log) (hplain : settings.plaintext = false)
    (hpanic : s.panicked = false) (hreq : request.possible s.closed 36 = true)
    (hsent : sent.possible s.closed frame.length = true) :
    (s.write settings frame request handshake sent).state.Guarded
      (tr ++ [.write frame request handshake sent])
      (log ++ (s.write settings frame request handshake sent).actions) := by
  unfold State.write
  split
  · exact h.keep (kept_fail 0 _) (silent_fail 0 _).clearText
      (fun _ a ha => (silent_fail 0 _ a ha).2)
      (fun _ => .inl rfl)
  · split
    · next hfirst =>
      have hfirst : s.firstAuth = false := by simpa using hfirst
      have hsafe : s.transport = .tls ∨ sent.count = 0 := by
        obtain htls | hc | hp := h.secure hfirst
        · exact .inl htls
        · exact .inr (count_eq_zero (hc ▸ hsent))
        · exact nomatch hpanic.symm.trans hp
      obtain ⟨hk, hclear, hsealed⟩ := send_spec frame hsafe
      exact h.keep hk hclear hsealed (fun hf => nomatch hfirst.symm.trans hf)
    · next hfirst => exact h.upgrade hplain (by simpa using hfirst) hreq rfl

theorem Guarded.turn (h : s.Guarded tr log) (hplain : settings.plaintext = false)
    (ht : s.turn lib settings l = some t) : t.state.Guarded (tr ++ [l]) (log ++ t.actions) := by
  cases l with
  | read =>
    obtain ⟨-, ht⟩ := Option.ite_none_left_eq_some.mp ht
    obtain ⟨hk, hs⟩ := kept_read ht
    exact h.keep hk hs.clearText (fun _ a ha => (hs a ha).2) (fun _ => .inr rfl)
  | write =>
    obtain ⟨hok, ht⟩ := Option.ite_none_left_eq_some.mp ht
    simp only [Bool.or_eq_true, Bool.not_eq_true', not_or, Bool.not_eq_true,
      Bool.not_eq_false] at hok
    cases ht
    exact h.write hplain hok.1.1 hok.1.2 hok.2
  | close =>
    cases ht
    exact h.keep ⟨rfl, rfl, fun _ => rfl, id⟩ rfl nofun (fun _ => .inl rfl)

/-- **A wire is secured by a handshake that succeeds.** -/
theorem handshake_of_secured {l : Event ε} {t : Turn ε} (ht : s.turn lib settings l = some t)
    (hm : .secured ∈ t.actions) : ∃ frame request sent, l = .write frame request none sent := by
  cases l with
  | read =>
    obtain ⟨-, ht⟩ := Option.ite_none_left_eq_some.mp ht
    revert ht
    fun_cases State.read
    all_goals rintro ⟨⟩
    all_goals simp [fail, deliver] at hm
  | write frame request handshake sent =>
    obtain ⟨-, ht⟩ := Option.ite_none_left_eq_some.mp ht
    cases ht
    cases handshake with
    | none => exact ⟨frame, request, sent, rfl⟩
    | some err =>
      revert hm
      simp only [State.write, upgrade, send, outgoing, command, transmit, Except.map]
      repeat' split
      all_goals grind [fail, crash]
  | close =>
    cases ht
    cases hm
/-- **Nothing but the request for TLS is sent in clear.** A wire that requires
TLS sends, in every run, at most the 36 bytes of one request in clear: the
first 32 bytes of the payload of the first frame, with the capability of TLS
set. All else is sent through TLS, after a handshake that has verified the
server. -/
theorem request_only {tr : List (Event ε)} (hplain : settings.plaintext = false)
    (hr : (machine lib settings).machine.Run tr s) :
    let log := (machine lib settings).log tr
    (clearText log = [] ∨ ∃ frame, (frames tr).head? = some frame ∧ 36 ≤ frame.length ∧
      clearText log <+: [32, 0, 0, 1]
        ++ List.zipWith (· ||| ·) (frame.slice 4 4) [0, 8, 0, 0] ++ frame.slice 8 28) ∧
    (∀ before bytes after, log = before ++ .sent .tls bytes :: after → Action.secured ∈ before) ∧
    (Action.secured ∈ log → ∃ frame request sent, .write frame request none sent ∈ tr) := by
  intro log
  have h : s.Guarded tr log := by
    refine Mealy.invariant (I := fun tr s => s.Guarded tr ((machine lib settings).log tr)) ?_
      (fun hr h ht => ?_) hr
    · exact ⟨.inl rfl, fun _ => ⟨rfl, rfl, .inr rfl⟩, nofun, nofun, .nil⟩
    · rw [Mealy.log_concat hr ht]
      exact h.turn hplain ht
  refine ⟨?_, ?_, fun hm => ?_⟩
  · obtain hnil | ⟨frame, hf, hlen, hp⟩ := h.clear
    · exact .inl hnil
    · refine .inr ⟨frame, hf, hlen, ?_⟩
      rwa [← sslRequest_eq hlen]
  · intro before bytes after heq
    obtain ⟨a, ha, hs⟩ := h.order before _ after heq trivial
    cases a with
    | secured => exact ha
    | _ => exact absurd hs id
  · obtain ⟨before, l, after, u, r, rfl, -, ht, hm⟩ := (Mealy.mem_log hr).mp hm
    obtain ⟨frame, request, sent, rfl⟩ := handshake_of_secured ht hm
    exact ⟨frame, request, sent, by simp⟩

def sampleSettings : Settings Empty := ⟨false, "caching_sha2_password", 1024, 1024, 4096, none⟩

def sampleFrame : Bytes := [32, 0, 0, 1] ++ List.replicate 32 7

def sampleRun : List (Event Empty) :=
  [.write sampleFrame ⟨36, none⟩ none ⟨36, none⟩,
    .write ([2, 0, 0, 3] ++ [1, 1]) ⟨0, none⟩ none ⟨6, none⟩]

/-- All of the request is sent in clear, and nothing else is. -/
theorem request_only_secured :
    ∃ s : State Empty, (machine ⟨id, fun _ => none⟩ sampleSettings).machine.Run sampleRun s ∧
      let log := (machine ⟨id, fun _ => none⟩ sampleSettings).log sampleRun
      clearText log = [32, 0, 0, 1, 7, 15] ++ List.replicate 30 7 ∧
      ∀ before bytes after, log = before ++ .sent .tls bytes :: after →
        Action.secured ∈ before := by
  have hr := (machine ⟨id, fun _ => none⟩ sampleSettings).machine.run_reached sampleRun
    (by decide +kernel)
  exact ⟨_, hr, by decide +kernel, (request_only rfl hr).2.1⟩

end State

end Wire

end Mysql
