import TaintFlow.Proofs.Outcome
import TaintFlow.Proofs.Stack

/-
Which paths come out of which. An analysis leads from a list of paths to another if some run of it does so
without a fault, whatever the reports. What leads where is told by the parts of a statement: a simple step leads each
path to one path; a branch and a loop lead each path to several, in the order of the given paths.
-/
namespace TaintFlow

/-- Some run takes `a` to `b` without a fault. -/
def Leads {α β : Type} (f : α → Report → Except Fault β × Report) (a : α) (b : β) : Prop :=
  ∃ r r', f a r = (.ok b, r')

theorem Eval.leads_outcome {step : Eval Unit} {p q : Path} (h : Leads step.outcome p q) :
    ∃ r w, step.run ⟨p, r⟩ = (.ok (), w) ∧ w.path = q := by
  obtain ⟨r, r', h⟩ := h
  exact ⟨r, _, Eval.outcome_ok h, rfl⟩

namespace Analysis

theorem chain_ok {α β : Type} {x : Except Fault α × Report} {next : α → Report → Except Fault β × Report}
    {b : β} {r' : Report} (h : chain x next = (.ok b, r')) : ∃ a r, x = (.ok a, r) ∧ next a r = (.ok b, r') := by
  obtain ⟨x, r⟩ := x
  cases x with
  | error f => cases h
  | ok a => exact ⟨a, r, rfl, h⟩

theorem leads_of_paths? {a : Analysis} {paths out : List Path} {r : Report} (h : (a paths r).paths? = .ok out) :
    Leads a.outcome paths out :=
  ⟨r, (a paths r).report, Prod.ext h rfl⟩

/-! ## Simple statements and blocks -/

theorem leads_idle {paths out : List Path} (h : Leads (outcome Run.idle) paths out) : out = paths := by
  obtain ⟨r, r', h⟩ := h
  cases h
  rfl

theorem not_leads_stop {fault : Fault} {paths out : List Path} :
    ¬ Leads (outcome fun paths report => .stop paths report fault) paths out := by
  rintro ⟨r, r', h⟩
  cases h

theorem leads_andThen {a b : Analysis} {paths out : List Path}
    (h : Leads (outcome fun paths report => (a paths report).andThen b) paths out) :
    ∃ mid, Leads a.outcome paths mid ∧ Leads b.outcome mid out := by
  obtain ⟨r, r', h⟩ := h
  rw [outcome_andThen] at h
  obtain ⟨mid, r₁, ha, hb⟩ := chain_ok h
  exact ⟨mid, ⟨r, r₁, ha⟩, r₁, r', hb⟩

theorem leads_onEach {step : Eval Unit} : ∀ {paths out : List Path}, Leads (outcome (onEach step)) paths out →
    List.Forall₂ (Leads step.outcome) paths out
  | [], _, ⟨_, _, h⟩ => by
    cases h
    exact .nil
  | p :: rest, out, ⟨r, r', h⟩ => by
    rw [outcome_onEach_cons] at h
    obtain ⟨q, r₁, hq, h⟩ := chain_ok h
    obtain ⟨others, _, hothers, h⟩ := chain_ok h
    cases h
    exact .cons ⟨r, r₁, hq⟩ (leads_onEach ⟨r₁, r', hothers⟩)

/-! ## Branches -/

/-- What a branch makes of one path, before it leaves its region. -/
def Parts (enter : Eval Unit) (body orelse : Analysis) (p : Path) (part : List Path) : Prop :=
  ∃ q yes no, Leads enter.outcome { p with scope := p.scope + 1 } q ∧ Leads body.outcome [q.fork] yes ∧
    Leads orelse.outcome [q.fork] no ∧ part = yes ++ no

/-- After each part, all paths that came out so far leave the region. -/
def leaveAll (new : List Path) : List (List Path) → List Path
  | [] => new
  | part :: parts => leaveAll ((new ++ part).map leave) parts

theorem leads_fork {enter : Eval Unit} {body orelse : Analysis} : ∀ {paths done new out : List Path},
    Leads (outcome (fork enter body orelse done new)) paths out →
      ∃ parts, List.Forall₂ (Parts enter body orelse) paths parts ∧ out = leaveAll new parts
  | [], _, _, _, ⟨_, _, h⟩ => by
    cases h
    exact ⟨[], .nil, rfl⟩
  | p :: rest, done, new, out, ⟨r, r', h⟩ => by
    rw [outcome_fork_cons] at h
    obtain ⟨q, r₁, hq, h⟩ := chain_ok h
    obtain ⟨yes, r₂, hyes, h⟩ := chain_ok h
    obtain ⟨no, r₃, hno, h⟩ := chain_ok h
    obtain ⟨parts, hparts, rfl⟩ := leads_fork ⟨r₃, r', h⟩
    have hpart : Parts enter body orelse p (yes ++ no) :=
      ⟨q, yes, no, ⟨r, r₁, hq⟩, ⟨r₁, r₂, hyes⟩, ⟨r₂, r₃, hno⟩, rfl⟩
    refine ⟨(yes ++ no) :: parts, .cons hpart hparts, ?_⟩
    rw [leaveAll, List.append_assoc]

theorem mem_leaveAll {P : Path → Prop} (hleave : ∀ q, P q → P (leave q)) :
    ∀ {parts : List (List Path)} {new : List Path}, (∀ q ∈ new, P q) →
      (∀ part ∈ parts, ∀ q ∈ part, P (leave q)) → ∀ q ∈ leaveAll new parts, P q
  | [], _, hnew, _ => hnew
  | part :: parts, new, hnew, hparts => by
    rw [List.forall_mem_cons] at hparts
    rw [leaveAll]
    refine mem_leaveAll hleave (List.forall_mem_map.2 fun q hq => ?_) hparts.2
    rcases List.mem_append.1 hq with hq | hq
    · exact hleave q (hnew q hq)
    · exact hparts.1 q hq

/-! ## Loops -/

/-- An iteration leaves its region once if the body gives new paths, and twice if it gives its own paths back. -/
theorem iteration_result {enter : Eval Unit} {body : Analysis} {p : Path} {r r' : Report} {out : List Path}
    (h : iteration enter body p r = (.ok out, r')) :
    ∃ q r₁ mid, enter.outcome p r = (.ok q, r₁) ∧ body.outcome [q] r₁ = (.ok mid, r') ∧
      ((∃ new, (body [q] r₁).result = .ok (some new)) ∧ out = mid.map (·.pop) ∨
        (body [q] r₁).result = .ok none ∧ out = mid.map (·.pop.pop)) := by
  unfold iteration at h
  unfold Eval.outcome outcome
  generalize enter.run ⟨p, r⟩ = x at h ⊢
  obtain ⟨result, w⟩ := x
  cases result with
  | error f => cases h
  | ok u =>
    dsimp only at h
    refine ⟨w.path, w.report, ?_⟩
    generalize body [w.path] w.report = s at h ⊢
    obtain ⟨given, r₁, result⟩ := s
    match result with
    | .error f => cases h
    | .ok none =>
      cases h
      exact ⟨given, rfl, rfl, .inr ⟨rfl, rfl⟩⟩
    | .ok (some new) =>
      cases h
      exact ⟨new, rfl, rfl, .inl ⟨⟨new, rfl⟩, rfl⟩⟩

theorem iteration_ok {enter : Eval Unit} {body : Analysis} {p : Path} {r r' : Report} {out : List Path}
    (h : iteration enter body p r = (.ok out, r')) :
    ∃ q r₁ mid, enter.outcome p r = (.ok q, r₁) ∧ body.outcome [q] r₁ = (.ok mid, r') ∧
      (out = mid.map (·.pop) ∨ out = mid.map (·.pop.pop)) := by
  obtain ⟨q, r₁, mid, hq, hmid, hout⟩ := iteration_result h
  exact ⟨q, r₁, mid, hq, hmid, hout.imp And.right And.right⟩

theorem leads_iteration {enter : Eval Unit} {body : Analysis} {p : Path} {out : List Path}
    (h : Leads (iteration enter body) p out) :
    ∃ q mid, Leads enter.outcome p q ∧ Leads body.outcome [q] mid ∧
      (out = mid.map (·.pop) ∨ out = mid.map (·.pop.pop)) := by
  obtain ⟨r, r', h⟩ := h
  obtain ⟨q, r₁, mid, hq, hmid, hout⟩ := iteration_ok h
  exact ⟨q, mid, ⟨r, r₁, hq⟩, ⟨r₁, r', hmid⟩, hout⟩

theorem leads_iterate {step : Walk} : ∀ {paths out : List Path}, Leads (iterate step) paths out →
    ∃ parts, List.Forall₂ (Leads step) paths parts ∧ out = parts.flatten
  | [], _, ⟨_, _, h⟩ => by
    cases h
    exact ⟨[], .nil, rfl⟩
  | p :: rest, out, ⟨r, r', h⟩ => by
    rw [iterate_cons] at h
    obtain ⟨first, r₁, hfirst, h⟩ := chain_ok h
    obtain ⟨others, _, hothers, h⟩ := chain_ok h
    cases h
    obtain ⟨parts, hparts, rfl⟩ := leads_iterate ⟨r₁, r', hothers⟩
    exact ⟨first :: parts, .cons ⟨r, r₁, hfirst⟩ hparts, rfl⟩

theorem leads_unroll_succ {step : Walk} {n : Nat} {paths out : List Path} (h : Leads (unroll step (n + 1)) paths out) :
    ∃ mid, Leads (iterate step) paths mid ∧ Leads (unroll step n) mid out := by
  obtain ⟨r, r', h⟩ := h
  rw [unroll_succ_eq_chain] at h
  obtain ⟨mid, r₁, hmid, h⟩ := chain_ok h
  exact ⟨mid, ⟨r, r₁, hmid⟩, r₁, r', h⟩

theorem leads_rounds {depth : Int} {enter : Eval Unit} {body : Analysis} {start : Path} {n : Nat} {out : List Path}
    (h : Leads (rounds depth enter body start) n out) :
    ∃ mid, Leads (unroll (iteration enter body) n) [start] mid ∧
      out = mid.map fun q => { q with scope := q.scope - depth } := by
  obtain ⟨r, r', h⟩ := h
  rw [rounds_eq_chain] at h
  obtain ⟨mid, r₁, hmid, h⟩ := chain_ok h
  cases h
  exact ⟨mid, ⟨r, r', hmid⟩, rfl⟩

/-- A search collects the paths of its rounds, which have one iteration more each. -/
theorem leads_settle {same : Path → Path → Bool} {unrolled : Nat → Report → Except Fault (List Path) × Report} :
    ∀ {limit n : Nat} {seen found out : List Path} {r r' : Report},
      settle same unrolled limit n seen found r = (.ok out, r') →
      ∃ turns : List (List Path), turns ≠ [] ∧
        (∀ i turn, turns[i]? = some turn → Leads unrolled (n + i + 1) turn) ∧ out = found ++ turns.flatten
  | 0, _, _, _, _, _, _, h => by cases h
  | limit + 1, n, seen, found, out, r, r', h => by
    obtain ⟨first, r₁, hfirst, h⟩ := settle_succ_ok h
    have hfirst : Leads unrolled (n + 1) first := ⟨r, r₁, hfirst⟩
    -- a round that finds nothing new is the last
    rcases h with ⟨-, rfl, -⟩ | h
    · refine ⟨[first], List.cons_ne_nil _ _, fun i turn hturn => ?_, by simp⟩
      cases i with
      | zero =>
        cases hturn
        exact hfirst
      | succ i => cases hturn
    · obtain ⟨turns, -, hturns, rfl⟩ := leads_settle h
      refine ⟨first :: turns, List.cons_ne_nil _ _, fun i turn hturn => ?_, by simp⟩
      cases i with
      | zero =>
        cases hturn
        exact hfirst
      | succ i =>
        have hturn := hturns i turn hturn
        rwa [Nat.add_right_comm n 1 i] at hturn

theorem leads_search_turns {limit : Nat} {depth : Int} {enter : Eval Unit} {body : Analysis} {p : Path}
    {found : List Path} (h : Leads (search limit depth enter body) p found) :
    ∃ turns : List (List Path), turns ≠ [] ∧
      (∀ i turn, turns[i]? = some turn → Leads (rounds depth enter body (entry depth p)) (i + 1) turn) ∧
      found = turns.flatten := by
  obtain ⟨r, r', h⟩ := h
  obtain ⟨turns, hne, hturns, rfl⟩ := leads_settle h
  refine ⟨turns, hne, fun i turn hturn => ?_, rfl⟩
  have hturn := hturns i turn hturn
  rwa [Nat.zero_add] at hturn

theorem leads_search {limit : Nat} {depth : Int} {enter : Eval Unit} {body : Analysis} {p : Path} {found : List Path}
    (h : Leads (search limit depth enter body) p found) :
    ∃ (first : List Path) (more : List (List Path)), Leads (rounds depth enter body (entry depth p)) 1 first ∧
      (∀ round ∈ more, ∃ n, Leads (rounds depth enter body (entry depth p)) (n + 1) round) ∧
      found = first ++ more.flatten := by
  obtain ⟨turns, hne, hturns, rfl⟩ := leads_search_turns h
  cases turns with
  | nil => exact absurd rfl hne
  | cons first more =>
    refine ⟨first, more, hturns 0 first rfl, fun turn hturn => ?_, rfl⟩
    obtain ⟨i, hi⟩ := List.mem_iff_getElem?.1 hturn
    exact ⟨i + 1, hturns (i + 1) turn hi⟩

theorem leads_loop {limit : Nat} {depth : Int} {enter : Eval Unit} {body orelse : Analysis} {paths out : List Path}
    (h : Leads (outcome (loop limit depth enter body orelse)) paths out) :
    ∃ parts, List.Forall₂ (Leads (loopFrom limit depth enter body orelse)) paths parts ∧ out = parts.flatten := by
  obtain ⟨r, r', h⟩ := h
  rw [outcome_loop] at h
  exact leads_iterate ⟨r, r', h⟩

theorem leads_loopFrom {limit : Nat} {depth : Int} {enter : Eval Unit} {body orelse : Analysis} {p : Path}
    {out : List Path} (h : Leads (loopFrom limit depth enter body orelse) p out) :
    ∃ found skipped, Leads (search limit depth enter body) p found ∧ Leads orelse.outcome [entry depth p] skipped ∧
      out = found ++ leaveLoop skipped := by
  obtain ⟨r, r', h⟩ := h
  rw [loopFrom_eq_chain] at h
  obtain ⟨found, r₁, hfound, h⟩ := chain_ok h
  obtain ⟨skipped, _, hskip, h⟩ := chain_ok h
  cases h
  exact ⟨found, skipped, ⟨r, r₁, hfound⟩, ⟨r₁, r', hskip⟩, rfl⟩

end Analysis

end TaintFlow
