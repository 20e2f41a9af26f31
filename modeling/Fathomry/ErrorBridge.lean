import Mathlib.Data.List.Basic
import Mathlib.Data.Nat.Basic
import Mathlib.Order.Basic

/-!
# Errors that may be forwarded

An adapter is given an error by its provider. What is in it may be private,
except for errors that have been classified already. `Inspect` walks over
the error and its causes, cause after cause and each of them with all that
is below, and stops at classified errors: it collects the codes of what it
visits and forwards the error if nothing in it is private.

The graph of causes may have cycles, so the walk has a budget that all
branches share. Whatever the budget cuts off might be private. Hence a
forwarded error is a proof that the walk has been complete: the unfolding of
the error, cut at classified errors, is a finite tree of neutral wrappers
above classified errors (`Public`), and the walk has visited all of it.

Texts are no part of the graph, since the walk does not read them.
-/

namespace ErrorBridge

variable {ν γ : Type}

/-- The causes of an error, by the method it has for them. -/
inductive Unwrap (ν : Type) where
  | none
  | one (cause : Option ν)
  | many (causes : List (Option ν))

/-- **A graph of errors**, over nodes `ν` and public occurrences `γ`. -/
structure Graph (ν γ : Type) where
  /-- The node is an aggregate that was forwarded before: a `redactedCause`. -/
  aggregate : ν → Bool
  /-- `failure.Inspect`: the public occurrence that a node is. -/
  core : ν → Option γ
  /-- The kind of a node, which is empty for foreign errors. -/
  kind : ν → String
  unwrap : ν → Unwrap ν

/-- The `Error` of nodes and of occurrences. -/
structure Texts (ν γ : Type) where
  node : ν → String
  core : γ → String

/-- **An error that is forwarded**: a node, several of them, or one of these
with the original it stands for. -/
inductive Forwarded (ν γ : Type) where
  | node (n : ν)
  | join (errs : List (Forwarded ν γ))
  | redacted (original : ν) (translated : Forwarded ν γ)
  | occurrence (original : ν) (translated : Forwarded ν γ) (core : γ)

/-! ## The walk -/

section Walk

variable (g : Graph ν γ) (classify : String → ℕ)

def Graph.classified (n : ν) : Bool := g.aggregate n || (g.core n).isSome

/-- `failure.Inspect`, of an error that is forwarded. -/
def Forwarded.core : Forwarded ν γ → Option γ
  | .node n => g.core n
  | .occurrence _ _ core => some core
  | _ => none

def forward (original : ν) (translated : Forwarded ν γ) : Forwarded ν γ :=
  match translated.core g with
  | some core => .occurrence original translated core
  | none => .redacted original translated

def join : List (Forwarded ν γ) → Forwarded ν γ
  | [err] => err
  | errs => .join errs

/-- What the branches of a walk share. The source does not keep the nodes it
has visited. -/
structure Walk (ν : Type) where
  remaining : ℕ
  codes : List ℕ
  visited : List ν

def Walk.visit (w : Walk ν) (n : ν) : Walk ν :=
  { w with remaining := w.remaining - 1, visited := w.visited ++ [n] }

def Walk.collect (w : Walk ν) (code : ℕ) : Walk ν :=
  if code ≠ 0 && code ∉ w.codes then { w with codes := w.codes ++ [code] } else w

structure Visit (ν γ : Type) where
  walk : Walk ν
  translated : Option (Forwarded ν γ)
  isPublic : Bool

/-- The loop over causes. It is over when nothing remains, even if the next
cause is nil. -/
def visitAll (visit : Option ν → Walk ν → Visit ν γ) :
    List (Option ν) → Walk ν → Bool → List (Forwarded ν γ) →
      Walk ν × Bool × List (Forwarded ν γ)
  | [], w, allPublic, errs => (w, allPublic, errs)
  | cause :: causes, w, allPublic, errs =>
    if w.remaining = 0 then (w, false, errs)
    else
      let v := visit cause w
      visitAll visit causes v.walk (allPublic && v.isPublic) (errs ++ v.translated.toList)

/-- **`visit`.** Every visit inside of another one has less remaining, so the
recursion is bounded by what remains. -/
def visit : ℕ → Option ν → Walk ν → Visit ν γ
  | _, none, w => ⟨w, none, true⟩
  | 0, some _, w => ⟨w, none, false⟩
  | fuel + 1, some n, w =>
    if w.remaining = 0 then ⟨w, none, false⟩
    else if g.classified n then ⟨w.visit n, some (.node n), true⟩
    else
      let code := classify (g.kind n)
      let w := (w.visit n).collect code
      match g.unwrap n with
      | .many causes =>
        match visitAll (visit fuel) causes w (code = 0 && !causes.isEmpty) [] with
        | (w, allPublic, errs) =>
          if allPublic && !errs.isEmpty then ⟨w, some (forward g n (join errs)), true⟩
          else ⟨w, none, false⟩
      | .one (some cause) =>
        let v := visit fuel (some cause) w
        match v.translated with
        | some err =>
          if code = 0 && v.isPublic then ⟨v.walk, some (forward g n err), true⟩
          else ⟨v.walk, none, false⟩
        | none => ⟨v.walk, none, false⟩
      | _ => ⟨w, none, false⟩

def walked (original : Option ν) (limit : ℤ) : Visit ν γ :=
  visit g classify limit.toNat original ⟨limit.toNat, [], []⟩

/-- **`Inspect`**: the codes, and the error that is forwarded. -/
def inspect (original : Option ν) (limit : ℤ) : List ℕ × Option (Forwarded ν γ) :=
  let v := walked g classify original limit
  (v.walk.codes, if v.isPublic then v.translated else none)

end Walk

/-! ## Texts -/

mutual

def Forwarded.text (texts : Texts ν γ) : Forwarded ν γ → String
  | .node n => texts.node n
  | .join errs => "\n".intercalate (Forwarded.textAll texts errs)
  | .redacted _ translated => translated.text texts
  | .occurrence _ _ core => texts.core core

def Forwarded.textAll (texts : Texts ν γ) : List (Forwarded ν γ) → List String
  | [] => []
  | err :: errs => err.text texts :: Forwarded.textAll texts errs

end

mutual

/-- Only classified nodes are presented. -/
def Forwarded.Clean (g : Graph ν γ) : Forwarded ν γ → Prop
  | .node n => g.classified n = true
  | .join errs => Forwarded.CleanAll g errs
  | .redacted _ translated | .occurrence _ translated _ => translated.Clean g

def Forwarded.CleanAll (g : Graph ν γ) : List (Forwarded ν γ) → Prop
  | [] => True
  | err :: errs => err.Clean g ∧ Forwarded.CleanAll g errs

end

section Texts

variable {g : Graph ν γ} {texts texts' : Texts ν γ}

mutual

/-- **The text is that of classified nodes** and of occurrences. -/
theorem Forwarded.text_congr (hn : ∀ n, g.classified n = true → texts.node n = texts'.node n)
    (hc : texts.core = texts'.core) :
    ∀ err : Forwarded ν γ, err.Clean g → err.text texts = err.text texts'
  | .node n, h => hn n h
  | .join errs, h => congrArg ("\n".intercalate) (Forwarded.textAll_congr hn hc errs h)
  | .redacted _ translated, h => Forwarded.text_congr hn hc translated h
  | .occurrence _ _ core, _ => congrFun hc core

theorem Forwarded.textAll_congr (hn : ∀ n, g.classified n = true → texts.node n = texts'.node n)
    (hc : texts.core = texts'.core) :
    ∀ errs : List (Forwarded ν γ), Forwarded.CleanAll g errs →
      Forwarded.textAll texts errs = Forwarded.textAll texts' errs
  | [], _ => rfl
  | err :: errs, h =>
    congrArg₂ List.cons (Forwarded.text_congr hn hc err h.1)
      (Forwarded.textAll_congr hn hc errs h.2)

end

end Texts

/-! ## Public errors -/

def Unwrap.causes : Unwrap ν → List (Option ν)
  | .none => []
  | .one cause => [cause]
  | .many causes => causes

section Public

variable (g : Graph ν γ) (classify : String → ℕ)

mutual

/-- **An error with nothing private in it**, and the nodes of its unfolding
from the top to classified errors. A wrapper above them has no code of its
own, all of its causes are public again, and not all of them are nil. -/
inductive Public : Option ν → List ν → Prop
  | nil : Public none []
  | classified {n : ν} (h : g.classified n = true) : Public (some n) [n]
  | wrapper {n : ν} {ns : List ν} (h : g.classified n = false) (hcode : classify (g.kind n) = 0)
      (hsome : ∃ cause ∈ (g.unwrap n).causes, cause ≠ none)
      (hall : PublicAll (g.unwrap n).causes ns) : Public (some n) (n :: ns)

inductive PublicAll : List (Option ν) → List ν → Prop
  | nil : PublicAll [] []
  | cons {cause : Option ν} {causes : List (Option ν)} {ns ms : List ν} (h : Public cause ns)
      (hall : PublicAll causes ms) : PublicAll (cause :: causes) (ns ++ ms)

end

end Public

/-! ## Codes -/

/-- The first occurrences in a list. -/
def firsts : List ℕ → List ℕ
  | [] => []
  | x :: xs => x :: (firsts xs).filter (· ≠ x)

/-- Codes are collected, once each. -/
def collected (codes : List ℕ) (new : List ℕ) : List ℕ :=
  new.foldl (fun codes code => if code ≠ 0 && code ∉ codes then codes ++ [code] else codes) codes

theorem collected_eq (codes new : List ℕ) :
    collected codes new = codes ++ (firsts (new.filter (· ≠ 0))).filter (· ∉ codes) := by
  induction new generalizing codes with
  | nil => simp [collected, firsts]
  | cons x xs ih =>
    have hstep : collected codes (x :: xs)
        = collected (if x ≠ 0 && x ∉ codes then codes ++ [x] else codes) xs := rfl
    rw [hstep, ih]
    by_cases h0 : x = 0
    · simp [h0]
    · have hnew : (x :: xs).filter (· ≠ 0) = x :: xs.filter (· ≠ 0) := by simp [h0]
      rw [hnew, firsts]
      by_cases hx : x ∈ codes
      · have hdrop :
            ∀ l : List ℕ, (l.filter (· ≠ x)).filter (· ∉ codes) = l.filter (· ∉ codes) := by
          intro l
          rw [List.filter_filter]
          refine List.filter_congr (fun y _ => ?_)
          by_cases hy : y = x
          · simp [hy, hx]
          · simp [hy]
        rw [if_neg (by simp [hx]), List.filter_cons_of_neg (by simp [hx]), hdrop]
      · simp [h0, hx]

def codesOf (g : Graph ν γ) (classify : String → ℕ) (ns : List ν) : List ℕ :=
  (ns.filter (fun n => !g.classified n)).map (fun n => classify (g.kind n))

/-! ## What a walk does -/

section Proofs

variable {g : Graph ν γ} {classify : String → ℕ}

/-- **What a walk has done** between two points. -/
structure Passed (g : Graph ν γ) (classify : String → ℕ) (w w' : Walk ν) (ns : List ν) : Prop where
  visited : w'.visited = w.visited ++ ns
  remaining : w'.remaining + ns.length = w.remaining
  codes : w'.codes = collected w.codes (codesOf g classify ns)

theorem Passed.refl (w : Walk ν) : Passed g classify w w [] :=
  ⟨(List.append_nil _).symm, rfl, rfl⟩

theorem Passed.trans {w w' w'' : Walk ν} {ns ms : List ν} (h : Passed g classify w w' ns)
    (h' : Passed g classify w' w'' ms) : Passed g classify w w'' (ns ++ ms) := by
  refine ⟨?_, ?_, ?_⟩
  · rw [h'.visited, h.visited, List.append_assoc]
  · rw [List.length_append]
    have := h.remaining
    have := h'.remaining
    omega
  · rw [h'.codes, h.codes]
    simp [collected, codesOf]

theorem passed_visit {w : Walk ν} {n : ν} (hw : w.remaining ≠ 0) (hn : g.classified n = true) :
    Passed g classify w (w.visit n) [n] := by
  refine ⟨rfl, ?_, ?_⟩
  · show w.remaining - 1 + 1 = w.remaining
    omega
  · simp [Walk.visit, codesOf, hn, collected]

theorem passed_collect {w : Walk ν} {n : ν} (hw : w.remaining ≠ 0) (hn : g.classified n = false) :
    Passed g classify w ((w.visit n).collect (classify (g.kind n))) [n] := by
  have hcodes : codesOf g classify [n] = [classify (g.kind n)] := by simp [codesOf, hn]
  have hcollect : ∀ (u : Walk ν) (code : ℕ), (u.collect code).visited = u.visited ∧
      (u.collect code).remaining = u.remaining
        ∧ (u.collect code).codes = collected u.codes [code] := by
    intro u code
    unfold Walk.collect collected
    rw [List.foldl_cons, List.foldl_nil]
    split
    all_goals exact ⟨rfl, rfl, rfl⟩
  obtain ⟨h1, h2, h3⟩ := hcollect (w.visit n) (classify (g.kind n))
  refine ⟨h1, ?_, ?_⟩
  · rw [h2]
    show w.remaining - 1 + 1 = w.remaining
    omega
  · rw [h3, hcodes]
    rfl

/-- **What a visit comes to**: it has passed some nodes, and if it says that
the error is public then these are its nodes. -/
def Seen (g : Graph ν γ) (classify : String → ℕ) (e : Option ν) (w : Walk ν) (v : Visit ν γ) :
    Prop :=
  ∃ ns, Passed g classify w v.walk ns ∧
    (v.isPublic = true → Public g classify e ns ∧ (v.translated = none ↔ e = none)) ∧
    ∀ err ∈ v.translated, err.Clean g

theorem cleanAll_append {errs errs' : List (Forwarded ν γ)} (h : Forwarded.CleanAll g errs)
    (h' : Forwarded.CleanAll g errs') : Forwarded.CleanAll g (errs ++ errs') := by
  induction errs with
  | nil => exact h'
  | cons err errs ih => exact ⟨h.1, ih h.2⟩

theorem clean_join {errs : List (Forwarded ν γ)} (h : Forwarded.CleanAll g errs) :
    (join errs).Clean g := by
  unfold join
  split
  · exact h.1
  · exact h

theorem clean_forward {n : ν} {err : Forwarded ν γ} (h : err.Clean g) :
    (forward g n err).Clean g := by
  unfold forward
  split
  · exact h
  · exact h

theorem visitAll_spec {visit : Option ν → Walk ν → Visit ν γ}
    (hv : ∀ e w, Seen g classify e w (visit e w)) (causes : List (Option ν)) (w : Walk ν)
    (allPublic : Bool) (errs : List (Forwarded ν γ)) (herrs : Forwarded.CleanAll g errs) :
    ∃ ns, Passed g classify w (visitAll visit causes w allPublic errs).1 ns ∧
      ((visitAll visit causes w allPublic errs).2.1 = true → allPublic = true ∧
        PublicAll g classify causes ns ∧ ((visitAll visit causes w allPublic errs).2.2 = [] ↔
          errs = [] ∧ ∀ cause ∈ causes, cause = none)) ∧
      Forwarded.CleanAll g (visitAll visit causes w allPublic errs).2.2 := by
  induction causes generalizing w allPublic errs with
  | nil =>
    exact ⟨[], .refl w, fun h => ⟨h, .nil, ⟨fun he => ⟨he, nofun⟩, fun he => he.1⟩⟩, herrs⟩
  | cons cause causes ih =>
    rw [visitAll]
    split
    · exact ⟨[], .refl w, nofun, herrs⟩
    · obtain ⟨ns, hp, hpub, hclean⟩ := hv cause w
      have herrs' : Forwarded.CleanAll g (errs ++ (visit cause w).translated.toList) := by
        refine cleanAll_append herrs ?_
        cases ht : (visit cause w).translated with
        | none => trivial
        | some err => exact ⟨hclean err ht, trivial⟩
      obtain ⟨ms, hp', hall, hclean'⟩ := ih (visit cause w).walk
        (allPublic && (visit cause w).isPublic) (errs ++ (visit cause w).translated.toList) herrs'
      refine ⟨ns ++ ms, hp.trans hp', fun h => ?_, hclean'⟩
      obtain ⟨hand, hrest, hempty⟩ := hall h
      obtain ⟨ha, hb⟩ := Bool.and_eq_true_iff.mp hand
      obtain ⟨hpublic, hnone⟩ := hpub hb
      refine ⟨ha, .cons hpublic hrest, hempty.trans ?_⟩
      rw [List.append_eq_nil_iff, Option.toList_eq_nil_iff, hnone]
      simp [and_assoc]

theorem visit_spec (fuel : ℕ) (e : Option ν) (w : Walk ν) :
    Seen g classify e w (visit g classify fuel e w) := by
  induction fuel generalizing e w with
  | zero =>
    cases e with
    | none => exact ⟨[], .refl w, fun _ => ⟨.nil, by simp [visit]⟩, nofun⟩
    | some => exact ⟨[], .refl w, nofun, nofun⟩
  | succ fuel ih =>
    cases e with
    | none => exact ⟨[], .refl w, fun _ => ⟨.nil, by simp [visit]⟩, nofun⟩
    | some n =>
      rw [visit]
      split
      · exact ⟨[], .refl w, nofun, nofun⟩
      · next hw =>
        split
        · next hn =>
          refine ⟨[n], passed_visit hw hn, fun _ => ⟨.classified hn, by simp⟩, ?_⟩
          rintro err ⟨⟩
          exact hn
        · next hn =>
          have hn : g.classified n = false := by simpa using hn
          have hp : Passed g classify w _ [n] := passed_collect hw hn
          dsimp only
          split
          · next causes hu =>
            obtain ⟨ns, hp', hall, hclean⟩ := visitAll_spec ih causes
              ((w.visit n).collect (classify (g.kind n)))
              (decide (classify (g.kind n) = 0) && !causes.isEmpty) [] trivial
            split
            · next hok =>
              obtain ⟨hpub, herrs⟩ := Bool.and_eq_true_iff.mp hok
              obtain ⟨hcode, hrest, hempty⟩ := hall hpub
              refine ⟨n :: ns, hp.trans hp', fun _ => ⟨.wrapper hn ?_ ?_ ?_, by simp⟩, ?_⟩
              · simpa using (Bool.and_eq_true_iff.mp hcode).1
              · rw [hu]
                by_contra hnone
                simp only [not_exists, not_and, not_not] at hnone
                rw [hempty.mpr ⟨rfl, hnone⟩] at herrs
                cases herrs
              · rw [hu]
                exact hrest
              · rintro err ⟨⟩
                exact clean_forward (clean_join hclean)
            · exact ⟨n :: ns, hp.trans hp', nofun, nofun⟩
          · next cause hu =>
            obtain ⟨ns, hp', hpub, hclean⟩ := ih (some cause)
              ((w.visit n).collect (classify (g.kind n)))
            split
            · next err ht =>
              split
              · next hok =>
                obtain ⟨hcode, hok⟩ := Bool.and_eq_true_iff.mp hok
                refine ⟨n :: ns, hp.trans hp', fun _ => ⟨.wrapper hn ?_ ?_ ?_, by simp⟩, ?_⟩
                · simpa using hcode
                · rw [hu]
                  exact ⟨some cause, List.mem_singleton_self _, nofun⟩
                · rw [hu, ← ns.append_nil]
                  exact .cons (hpub hok).1 .nil
                · rintro err' ⟨⟩
                  exact clean_forward (hclean err ht)
              · exact ⟨n :: ns, hp.trans hp', nofun, nofun⟩
            · exact ⟨n :: ns, hp.trans hp', nofun, nofun⟩
          · exact ⟨[n], hp, nofun, nofun⟩

theorem visitAll_cons {visit : Option ν → Walk ν → Visit ν γ} {cause : Option ν}
    {causes : List (Option ν)} {w : Walk ν} {allPublic : Bool} {errs : List (Forwarded ν γ)}
    (hw : w.remaining ≠ 0) : visitAll visit (cause :: causes) w allPublic errs
      = visitAll visit causes (visit cause w).walk (allPublic && (visit cause w).isPublic)
          (errs ++ (visit cause w).translated.toList) :=
  if_neg hw

/-- A visit that finds an error public translates it. -/
theorem translated_of_public {fuel : ℕ} {n : ν} {w : Walk ν}
    (h : (visit g classify fuel (some n) w).isPublic = true) :
    ∃ err, (visit g classify fuel (some n) w).translated = some err := by
  obtain ⟨ns, -, hpub, -⟩ : Seen g classify (some n) w _ := visit_spec fuel (some n) w
  refine Option.ne_none_iff_exists'.mp (fun hnone => ?_)
  exact nomatch (hpub h).2.mp hnone

mutual

/-- **A public error is found to be public**, if there is room for its nodes
and more. -/
theorem visit_complete : ∀ {e : Option ν} {ns : List ν}, Public g classify e ns →
    ∀ (fuel : ℕ) (w : Walk ν), ns.length < w.remaining → w.remaining ≤ fuel →
      (visit g classify fuel e w).isPublic = true ∧
        (visit g classify fuel e w).walk.remaining + ns.length = w.remaining
  | none, _, .nil, fuel, w, _, _ => by
    cases fuel
    all_goals exact ⟨rfl, rfl⟩
  | some n, _, .classified hn, 0, w, hlt, hle => nomatch hlt.trans_le hle
  | some n, _, .classified hn, fuel + 1, w, hlt, hle => by
    rw [visit, if_neg (by omega), if_pos hn]
    refine ⟨rfl, ?_⟩
    show w.remaining - 1 + 1 = w.remaining
    omega
  | some n, _, .wrapper hn hcode hsome hall, 0, w, hlt, hle => nomatch hlt.trans_le hle
  | some n, _ :: ns, .wrapper hn hcode hsome hall, fuel + 1, w, hlt, hle => by
    have hlt : ns.length + 1 < w.remaining := hlt
    have hw : w.remaining ≠ 0 := by omega
    have hp : Passed g classify w ((w.visit n).collect (classify (g.kind n))) [n] :=
      passed_collect hw hn
    rw [visit, if_neg hw, if_neg (by simp [hn])]
    dsimp only
    generalize (w.visit n).collect (classify (g.kind n)) = w' at hp ⊢
    have hrem : w'.remaining + 1 = w.remaining := hp.remaining
    obtain ⟨hok, hleft⟩ := visitAll_complete hall fuel w' [] (by omega) (by omega)
    cases hu : g.unwrap n with
    | none => simp [hu, Unwrap.causes] at hsome
    | many causes =>
      rw [hu] at hsome
      have hcauses : (g.unwrap n).causes = causes := by rw [hu]; rfl
      rw [hcauses] at hok hleft
      obtain ⟨cause, hmem, hne⟩ := hsome
      have hmem : cause ∈ causes := hmem
      have hflag : (decide (classify (g.kind n) = 0) && !causes.isEmpty) = true := by
        simp [hcode, List.ne_nil_of_mem hmem]
      obtain ⟨ms, -, hspec, -⟩ := visitAll_spec (visit_spec fuel) causes w' true
        ([] : List (Forwarded ν γ)) trivial
      have herrs : (visitAll (visit g classify fuel) causes w' true []).2.2 ≠ [] := fun hnil =>
        hne (((hspec hok).2.2.mp hnil).2 cause hmem)
      dsimp only
      rw [hflag]
      generalize visitAll (visit g classify fuel) causes w' true [] = r at hok hleft herrs ⊢
      rw [if_pos (by simp [hok, herrs])]
      refine ⟨rfl, ?_⟩
      show r.1.remaining + (ns.length + 1) = _
      omega
    | one cause =>
      cases cause with
      | none => simp [hu, Unwrap.causes] at hsome
      | some cause =>
        have hcauses : (g.unwrap n).causes = [some cause] := by rw [hu]; rfl
        rw [hcauses, visitAll_cons (by omega)] at hok hleft
        have hok : (visit g classify fuel (some cause) w').isPublic = true := hok
        obtain ⟨err, herr⟩ := translated_of_public hok
        have hleft : (visit g classify fuel (some cause) w').walk.remaining + ns.length = _ := hleft
        dsimp only
        generalize visit g classify fuel (some cause) w' = v at hok hleft herr ⊢
        rw [herr]
        dsimp only
        rw [if_pos (by simp [hcode, hok])]
        refine ⟨rfl, ?_⟩
        show v.walk.remaining + (ns.length + 1) = _
        omega

theorem visitAll_complete : ∀ {causes : List (Option ν)} {ns : List ν},
    PublicAll g classify causes ns → ∀ (fuel : ℕ) (w : Walk ν) (errs : List (Forwarded ν γ)),
      ns.length < w.remaining → w.remaining ≤ fuel →
      (visitAll (visit g classify fuel) causes w true errs).2.1 = true ∧
        (visitAll (visit g classify fuel) causes w true errs).1.remaining + ns.length = w.remaining
  | _, _, .nil, _, _, _, _, _ => ⟨rfl, rfl⟩
  | cause :: causes, _, .cons h hall, fuel, w, errs, hlt, hle => by
    rw [List.length_append] at hlt
    obtain ⟨hok, hleft⟩ := visit_complete h fuel w (by omega) hle
    rw [visitAll_cons (by omega), hok, Bool.and_self, List.length_append]
    obtain ⟨hok', hleft'⟩ := visitAll_complete hall fuel (visit g classify fuel cause w).walk
      (errs ++ (visit g classify fuel cause w).translated.toList) (by omega) (by omega)
    refine ⟨hok', ?_⟩
    omega

end

/-! ## The result -/

variable (g classify)

/-- **Nothing private is forwarded.** The walk visits at most as many nodes as
its limit says. It forwards an error only if the error is public and has been
visited completely, and it does so for every public error with fewer nodes.
The text of what is forwarded does not depend on the texts of nodes that are
not classified. The codes are those of the visited nodes that are not
classified, each where it occurs first. -/
theorem inspect_public (original : Option ν) (limit : ℤ) :
    let visited := (walked g classify original limit).walk.visited
    let codes := (inspect g classify original limit).1
    let forwarded := (inspect g classify original limit).2
    visited.length ≤ limit.toNat ∧
    (forwarded ≠ none → original ≠ none ∧ Public g classify original visited) ∧
    (∀ ns, original ≠ none → Public g classify original ns → (ns.length : ℤ) < limit →
      forwarded ≠ none) ∧
    (∀ err ∈ forwarded, ∀ texts texts' : Texts ν γ,
      (∀ n, g.classified n = true → texts.node n = texts'.node n) → texts.core = texts'.core →
        err.text texts = err.text texts') ∧
    codes = firsts ((codesOf g classify visited).filter (· ≠ 0)) := by
  obtain ⟨ns, hp, hpub, hclean⟩ : Seen g classify original _ (walked g classify original limit) :=
    visit_spec limit.toNat original ⟨limit.toNat, [], []⟩
  have hvisited : (walked g classify original limit).walk.visited = ns := hp.visited
  have hforwarded : ∀ err, (inspect g classify original limit).2 = some err →
      (walked g classify original limit).isPublic = true ∧
        (walked g classify original limit).translated = some err := by
    intro err herr
    simp only [inspect] at herr
    split at herr
    · next h => exact ⟨h, herr⟩
    · cases herr
  refine ⟨?_, ?_, ?_, ?_, ?_⟩
  · have := hp.remaining
    rw [hvisited]
    exact le_trans (Nat.le_add_left _ _) this.le
  · intro hne
    obtain ⟨err, herr⟩ := Option.ne_none_iff_exists'.mp hne
    obtain ⟨hok, ht⟩ := hforwarded err herr
    obtain ⟨hpublic, hnone⟩ := hpub hok
    rw [hvisited]
    exact ⟨fun he => by rw [hnone.mpr he] at ht; exact absurd ht nofun, hpublic⟩
  · intro ms hne hms hlt hnone
    obtain ⟨hok, -⟩ := visit_complete hms limit.toNat ⟨limit.toNat, [], []⟩
      (show ms.length < limit.toNat by omega) le_rfl
    have hok : (walked g classify original limit).isPublic = true := hok
    refine hne ((hpub hok).2.mp ?_)
    have hnone : (if (walked g classify original limit).isPublic
        then (walked g classify original limit).translated else none) = none := hnone
    rwa [if_pos hok] at hnone
  · intro err herr texts texts' hn hc
    obtain ⟨-, ht⟩ := hforwarded err herr
    exact Forwarded.text_congr hn hc err (hclean err ht)
  · have hcodes : (walked g classify original limit).walk.codes
        = collected [] (codesOf g classify ns) := hp.codes
    show (walked g classify original limit).walk.codes = _
    rw [hvisited, hcodes, collected_eq]
    simp

def nilBesideWrapper : Graph ℕ Unit where
  aggregate := fun _ => false
  core := fun n => if n = 2 then some () else none
  kind := fun _ => ""
  unwrap := fun n =>
    if n = 0 then .many [none, some 1] else if n = 1 then .one (some 2) else .none

/-- **A nil beside a wrapper.** The error is forwarded, although neither the
node above the nil nor the only other cause of it is classified. -/
theorem nil_beside_wrapper :
    (inspect nilBesideWrapper (fun _ => 0) (some 0) 128).2 ≠ none ∧
      (nilBesideWrapper.unwrap 0).causes = [none, some 1] ∧
      nilBesideWrapper.classified 0 = false ∧ nilBesideWrapper.classified 1 = false := by
  refine ⟨fun hnone => absurd (congrArg Option.isSome hnone) (by decide +kernel), rfl, rfl, rfl⟩

end Proofs

end ErrorBridge
