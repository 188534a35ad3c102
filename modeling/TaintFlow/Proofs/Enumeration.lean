import Mathlib.Algebra.BigOperators.Intervals
import TaintFlow.Proofs.Filing
import TaintFlow.Proofs.Nesting
import TaintFlow.Proofs.Search
import TaintFlow.Syntax.Reading
import TaintFlow.Trace

/-
How many ways there are through a program. A block has the product of the ways of its statements, a branch the sum of
those of its parts, and a loop those of one, two, … up to a bound of iterations, with those that skip it. The traces of
a program are as many as its ways. The analysis of a program without loops leads each path to as many paths, and the
search of a loop to as many as there are traces with the number of rounds as the bound.
-/
namespace TaintFlow

open Finset (Icc)

mutual

/-- The number of ways through a statement whose loops have one up to `bound` iterations, or are skipped. -/
def Stmt.wayCount (bound : Nat) : Stmt → Nat
  | .block body => Stmt.wayCountBlock bound body
  | .branch _ body orelse => body.wayCount bound + orelse.wayCount bound
  | .loop _ body orelse => ∑ i ∈ Icc 1 bound, body.wayCount bound ^ i + orelse.wayCount bound
  | .each _ _ body orelse _ => ∑ i ∈ Icc 1 bound, body.wayCount bound ^ i + orelse.wayCount bound
  | _ => 1

def Stmt.wayCountBlock (bound : Nat) : List Stmt → Nat
  | [] => 1
  | s :: rest => s.wayCount bound * Stmt.wayCountBlock bound rest

end

mutual

theorem Stmt.wayCount_pos (bound : Nat) : ∀ s : Stmt, 0 < s.wayCount bound
  | .block body => by
    rw [Stmt.wayCount]
    exact Stmt.wayCountBlock_pos bound body
  | .branch _ body _ => by
    rw [Stmt.wayCount]
    exact Nat.add_pos_left (Stmt.wayCount_pos bound body) _
  | .loop _ _ orelse => by
    rw [Stmt.wayCount]
    exact Nat.add_pos_right _ (Stmt.wayCount_pos bound orelse)
  | .each _ _ _ orelse _ => by
    rw [Stmt.wayCount]
    exact Nat.add_pos_right _ (Stmt.wayCount_pos bound orelse)
  | .skip | .assign .. | .annotated .. | .augmented .. | .eval _ | .fails _ => Nat.one_pos

theorem Stmt.wayCountBlock_pos (bound : Nat) : ∀ body : List Stmt, 0 < Stmt.wayCountBlock bound body
  | [] => Nat.one_pos
  | s :: rest => by
    rw [Stmt.wayCountBlock]
    exact Nat.mul_pos (Stmt.wayCount_pos bound s) (Stmt.wayCountBlock_pos bound rest)

end

/-! ## Traces -/

namespace Trace

theorem length_sequence (first second : List Trace) :
    (sequence first second).length = first.length * second.length := by
  unfold sequence
  rw [List.length_flatMap]
  simp

theorem length_branch (test : String) (body orelse : List Trace) :
    (branch test body orelse).length = body.length + orelse.length := by
  simp [branch]

theorem length_iterations (test : String) (body : List Trace) : ∀ n first : Nat,
    (iterations test body n first).length = body.length ^ n
  | 0, _ => rfl
  | n + 1, first => by
    rw [iterations, length_sequence, List.length_map, length_iterations test body n, Nat.pow_succ']

theorem length_unrolled (test : String) (body : List Trace) (n : Nat) :
    (unrolled test body n).length = body.length ^ n := by
  rw [unrolled, List.length_map, length_iterations]

theorem length_loop (test : String) (body orelse : List Trace) : ∀ bound : Nat,
    (loop bound test body orelse).length = ∑ i ∈ Icc 1 bound, body.length ^ i + orelse.length
  | 0 => by simp [loop]
  | bound + 1 => by
    have hbound := length_loop test body orelse bound
    rw [Finset.sum_Icc_succ_top (Nat.le_add_left 1 bound)]
    simp only [loop, List.range_succ, List.flatMap_append, List.length_append, List.flatMap_singleton,
      length_unrolled] at hbound ⊢
    omega

/-- A node has as many traces as ways, if this holds for its parts. -/
theorem length_ofNode {bound : Nat} {type : String} {fields : List (String × Document)}
    {kids : List (String × Except Fault (List Trace))} {readings : List (String × Reading)}
    (hkids : ∀ name traces, child kids name = .ok traces →
      traces.length = (Reading.children readings name).stmt.wayCount bound)
    {traces : List Trace} (h : ofNode bound type fields kids = .ok traces) :
    traces.length = (Reading.stmtOf type fields readings).wayCount bound := by
  -- a module, an assignment, an expression, a branch and a loop; no other node has traces
  unfold ofNode at h
  split at h
  · exact hkids "body" traces h
  · obtain ⟨target, -, h⟩ := bind_ok h
    obtain ⟨value, -, h⟩ := bind_ok h
    cases h
    rfl
  · obtain ⟨value, -, h⟩ := bind_ok h
    cases h
    rfl
  · obtain ⟨test, -, h⟩ := bind_ok h
    obtain ⟨body, hbody, h⟩ := bind_ok h
    obtain ⟨orelse, horelse, h⟩ := bind_ok h
    cases h
    rw [length_branch, hkids "body" body hbody, hkids "orelse" orelse horelse]
    rfl
  · obtain ⟨test, -, h⟩ := bind_ok h
    obtain ⟨body, hbody, h⟩ := bind_ok h
    obtain ⟨orelse, horelse, h⟩ := bind_ok h
    cases h
    rw [length_loop, hkids "body" body hbody, hkids "orelse" orelse horelse]
    rfl
  · cases h

mutual

/-- There are as many traces of a program as ways through it. -/
theorem length_ofDocument (bound : Nat) : ∀ (d : Document) (traces : List Trace), ofDocument bound d = .ok traces →
    traces.length = (Reading.ofDocument d).stmt.wayCount bound
  | .list items, traces, h => by
    rw [ofDocument] at h
    rw [Reading.ofDocument, Reading.ofList, Stmt.wayCount]
    exact length_ofItems bound items traces h
  | .record fields, traces, h => by
    rw [ofDocument] at h
    split at h
    · rename_i type htype
      have hlookup : Document.lookup "ast_type" fields = some (.text type) := by
        cases hfound : Document.lookup "ast_type" fields with
        | none => rw [hfound] at htype; cases htype
        | some d => rw [hfound] at htype; exact congrArg some htype
      rw [Reading.ofDocument, Reading.ofRecord, hlookup]
      exact length_ofNode (length_ofFields bound fields) h
    · cases h

theorem length_ofItems (bound : Nat) : ∀ (items : List Document) (traces : List Trace),
    ofItems bound items = .ok traces →
    traces.length = Stmt.wayCountBlock bound ((Reading.ofItems items).map (·.stmt))
  | [], traces, h => by
    rw [ofItems] at h
    cases h
    rfl
  | d :: rest, traces, h => by
    rw [ofItems] at h
    obtain ⟨first, hfirst, h⟩ := bind_ok h
    obtain ⟨others, hothers, h⟩ := bind_ok h
    cases h
    rw [length_sequence, length_ofDocument bound d first hfirst, length_ofItems bound rest others hothers,
      Reading.ofItems, List.map_cons, Stmt.wayCountBlock]

theorem length_ofFields (bound : Nat) : ∀ (fields : List (String × Document)) (name : String) (traces : List Trace),
    child (ofFields bound fields) name = .ok traces →
    traces.length = (Reading.children (Reading.ofFields fields) name).stmt.wayCount bound
  | [], name, traces, h => by
    cases h
    rfl
  | (k, d) :: rest, name, traces, h => by
    -- both look for the first field of the name
    rw [child, ofFields, List.find?_cons] at h
    rw [Reading.children, Reading.ofFields, List.find?_cons]
    by_cases hk : k = name
    · simp only [hk, decide_true] at h ⊢
      exact length_ofDocument bound d traces h
    · simp only [hk, decide_false] at h ⊢
      exact length_ofFields bound rest name traces h

end

end Trace

/-! ## Paths -/

namespace Analysis

/-- The analysis leads from any paths to `c` times as many. -/
def Multiplies (c : Nat) (a : Analysis) : Prop :=
  ∀ paths out, Leads a.outcome paths out → out.length = paths.length * c

theorem multiplies_idle : Multiplies 1 Run.idle := by
  intro paths out h
  rw [leads_idle h, Nat.mul_one]

theorem multiplies_stop (c : Nat) (fault : Fault) :
    Multiplies c fun paths report => .stop paths report fault :=
  fun _ _ h => absurd h not_leads_stop

theorem Multiplies.andThen {c d : Nat} {a b : Analysis} (ha : Multiplies c a) (hb : Multiplies d b) :
    Multiplies (c * d) fun paths report => (a paths report).andThen b := by
  intro paths out h
  obtain ⟨mid, hmid, hout⟩ := leads_andThen h
  rw [hb mid out hout, ha paths mid hmid, Nat.mul_assoc]

theorem multiplies_onEach (step : Eval Unit) : Multiplies 1 (onEach step) := by
  intro paths out h
  rw [(leads_onEach h).length_eq, Nat.mul_one]

theorem length_flatten_parts {R : Path → List Path → Prop} {c : Nat} (hR : ∀ p part, R p part → part.length = c)
    {paths : List Path} {parts : List (List Path)} (h : List.Forall₂ R paths parts) :
    parts.flatten.length = paths.length * c := by
  induction h with
  | nil => simp
  | cons hpart _ ih => rw [List.flatten_cons, List.length_append, hR _ _ hpart, ih, List.length_cons, Nat.succ_mul,
      Nat.add_comm]

theorem length_leaveAll : ∀ (parts : List (List Path)) (new : List Path),
    (leaveAll new parts).length = new.length + parts.flatten.length
  | [], new => rfl
  | part :: parts, new => by
    rw [leaveAll, length_leaveAll parts, List.length_map, List.length_append, List.flatten_cons, List.length_append,
      Nat.add_assoc]

theorem Multiplies.fork {enter : Eval Unit} {c d : Nat} {body orelse : Analysis} (hb : Multiplies c body)
    (ho : Multiplies d orelse) : Multiplies (c + d) (fork enter body orelse [] []) := by
  intro paths out h
  obtain ⟨parts, hparts, rfl⟩ := leads_fork h
  rw [length_leaveAll, List.length_nil, Nat.zero_add]
  refine length_flatten_parts (fun p part hpart => ?_) hparts
  obtain ⟨q, yes, no, -, hyes, hno, rfl⟩ := hpart
  rw [List.length_append, hb _ _ hyes, ho _ _ hno, List.length_singleton, Nat.one_mul, Nat.one_mul]

end Analysis

mutual

/-- Without loops, each path leads to as many paths as there are ways. -/
theorem Stmt.multiplies_analyse [SetOrder] (edition : Edition) (limit bound : Nat) : ∀ s : Stmt, s.LoopFree →
    Analysis.Multiplies (s.wayCount bound) (s.analyse edition limit)
  | .skip, _ => by
    rw [Stmt.analyse.eq_def]
    exact Analysis.multiplies_idle
  | .block body, h => by
    rw [Stmt.analyse.eq_def, Stmt.wayCount]
    exact Stmt.multiplies_analyseBlock edition limit bound body h
  | .assign targets value spot, _ => by
    rw [Stmt.analyse.eq_def]
    exact Analysis.multiplies_onEach _
  | .annotated target value spot, _ => by
    rw [Stmt.analyse.eq_def]
    cases edition
    · exact Analysis.multiplies_idle
    · exact Analysis.multiplies_onEach _
  | .augmented target current value spot, _ => by
    rw [Stmt.analyse.eq_def]
    cases edition
    · exact Analysis.multiplies_idle
    · exact Analysis.multiplies_onEach _
  | .eval value, _ => by
    rw [Stmt.analyse.eq_def]
    exact Analysis.multiplies_onEach _
  | .branch test body orelse, h => by
    rw [Stmt.analyse.eq_def, Stmt.wayCount]
    exact (Stmt.multiplies_analyse edition limit bound body h.1).fork
      (Stmt.multiplies_analyse edition limit bound orelse h.2)
  | .fails fault, _ => by
    rw [Stmt.analyse.eq_def]
    exact Analysis.multiplies_stop _ fault

theorem Stmt.multiplies_analyseBlock [SetOrder] (edition : Edition) (limit bound : Nat) : ∀ body : List Stmt,
    Stmt.AllLoopFree body → Analysis.Multiplies (Stmt.wayCountBlock bound body) (Stmt.analyseBlock edition limit body)
  | [], _ => by
    rw [Stmt.analyseBlock.eq_def]
    exact Analysis.multiplies_idle
  | s :: rest, h => by
    rw [Stmt.analyseBlock.eq_def, Stmt.wayCountBlock]
    exact (Stmt.multiplies_analyse edition limit bound s h.1).andThen
      (Stmt.multiplies_analyseBlock edition limit bound rest h.2)

end

/-! ## Searches -/

namespace Analysis

/-- The number of rounds that a search runs: a round that fails, or that comes to no new state, is the last. -/
def settleRounds (same : Path → Path → Bool) (unrolled : Nat → Report → Except Fault (List Path) × Report) :
    (limit n : Nat) → (seen : List Path) → Report → Nat
  | 0, _, _, _ => 0
  | limit + 1, n, seen, report =>
    match unrolled (n + 1) report with
    | (.error _, _) => 1
    | (.ok paths, report) =>
      let seen' := addNew same seen paths
      if seen'.length = seen.length then 1 else settleRounds same unrolled limit (n + 1) seen' report + 1

def searchRounds (limit : Nat) (depth : Int) (enter : Eval Unit) (body : Analysis) (p : Path) (report : Report) : Nat :=
  settleRounds Path.same (rounds depth enter body (entry depth p)) limit 0 [] report

section Settle

variable {same : Path → Path → Bool} {unrolled : Nat → Report → Except Fault (List Path) × Report}

/-- A search that succeeds runs a round, and then ends or goes on. -/
theorem settle_round {limit n : Nat} {seen found out : List Path} {r r' : Report}
    (h : settle same unrolled (limit + 1) n seen found r = (.ok out, r')) :
    ∃ turn r₁, unrolled (n + 1) r = (.ok turn, r₁) ∧
      ((addNew same seen turn).length = seen.length ∧ out = found ++ turn ∧
          settleRounds same unrolled (limit + 1) n seen r = 1 ∨
        (addNew same seen turn).length ≠ seen.length ∧
          settle same unrolled limit (n + 1) (addNew same seen turn) (found ++ turn) r₁ = (.ok out, r') ∧
          settleRounds same unrolled (limit + 1) n seen r =
            settleRounds same unrolled limit (n + 1) (addNew same seen turn) r₁ + 1) := by
  rw [settle] at h
  rw [settleRounds]
  generalize unrolled (n + 1) r = x at h ⊢
  obtain ⟨result, r₁⟩ := x
  cases result with
  | error f => cases h
  | ok turn =>
    refine ⟨turn, r₁, rfl, ?_⟩
    dsimp only at h ⊢
    by_cases hnew : (addNew same seen turn).length = seen.length
    · rw [if_pos hnew] at h ⊢
      cases h
      exact .inl ⟨hnew, rfl, rfl⟩
    · rw [if_neg hnew] at h ⊢
      exact .inr ⟨hnew, h, rfl⟩

theorem settleRounds_pos {n : Nat} {seen found out : List Path} {r r' : Report} : ∀ {limit : Nat},
    settle same unrolled limit n seen found r = (.ok out, r') → 0 < settleRounds same unrolled limit n seen r
  | 0, h => by cases h
  | limit + 1, h => by
    obtain ⟨turn, r₁, -, ⟨-, -, hrounds⟩ | ⟨-, -, hrounds⟩⟩ := settle_round h
    · rw [hrounds]
      exact Nat.one_pos
    · rw [hrounds]
      exact Nat.succ_pos _

/-- Nothing was seen before the first round. So it comes to a new state, and there is a second. -/
theorem two_le_settleRounds {n : Nat} {found out : List Path} {r r' : Report}
    (hne : ∀ turn, Leads unrolled (n + 1) turn → turn ≠ []) : ∀ {limit : Nat},
    settle same unrolled limit n [] found r = (.ok out, r') → 2 ≤ settleRounds same unrolled limit n [] r
  | 0, h => by cases h
  | limit + 1, h => by
    obtain ⟨turn, r₁, hturn, ⟨hnew, -, -⟩ | ⟨-, h, hrounds⟩⟩ := settle_round h
    · obtain ⟨p, hp⟩ := List.exists_mem_of_ne_nil turn (hne turn ⟨r, r₁, hturn⟩)
      obtain ⟨q, hq, -⟩ := known_of_length_addNew hnew p hp
      exact absurd hq List.not_mem_nil
    · have hpos := settleRounds_pos h
      omega

/-- A search collects the paths of its rounds. -/
theorem length_settle {size : Nat → Nat} (hsize : ∀ n turn, Leads unrolled n turn → turn.length = size n) :
    ∀ {limit n : Nat} {seen found out : List Path} {r r' : Report},
      settle same unrolled limit n seen found r = (.ok out, r') →
      out.length = found.length +
        ∑ i ∈ Finset.Ico (n + 1) (n + 1 + settleRounds same unrolled limit n seen r), size i
  | 0, _, _, _, _, _, _, h => by cases h
  | limit + 1, n, seen, found, out, r, r', h => by
    obtain ⟨turn, r₁, hturn, h⟩ := settle_round h
    have hturn := hsize (n + 1) turn ⟨r, r₁, hturn⟩
    rcases h with ⟨-, rfl, hrounds⟩ | ⟨-, h, hrounds⟩
    · rw [hrounds, Nat.Ico_succ_singleton, Finset.sum_singleton, List.length_append, hturn]
    · have hend : ∀ k, n + 1 + (k + 1) = n + 1 + 1 + k := fun k => by omega
      rw [hrounds, hend, Finset.sum_eq_sum_Ico_succ_bot (by omega), length_settle hsize h, List.length_append, hturn,
        Nat.add_assoc]

end Settle

section Loop

variable {enter : Eval Unit} {c : Nat} {body : Analysis} (hb : Multiplies c body)

include hb

theorem Multiplies.length_iteration {p : Path} {out : List Path} (h : Leads (iteration enter body) p out) :
    out.length = c := by
  obtain ⟨q, mid, -, hmid, rfl | rfl⟩ := leads_iteration h
  · rw [List.length_map, hb _ _ hmid, List.length_singleton, Nat.one_mul]
  · rw [List.length_map, hb _ _ hmid, List.length_singleton, Nat.one_mul]

theorem Multiplies.length_unroll : ∀ {n : Nat} {paths out : List Path},
    Leads (unroll (iteration enter body) n) paths out → out.length = paths.length * c ^ n
  | 0, _, _, ⟨_, _, h⟩ => by
    cases h
    rw [Nat.pow_zero, Nat.mul_one]
  | n + 1, paths, out, h => by
    obtain ⟨mid, hmid, hout⟩ := leads_unroll_succ h
    obtain ⟨parts, hparts, rfl⟩ := leads_iterate hmid
    rw [length_unroll hout, length_flatten_parts (fun p part => hb.length_iteration) hparts, Nat.pow_succ',
      Nat.mul_assoc]

/-- The rounds of a search have the powers of the number of ways through the body as their sizes. -/
theorem Multiplies.length_rounds {depth : Int} {start : Path} {n : Nat} {out : List Path}
    (h : Leads (rounds depth enter body start) n out) : out.length = c ^ n := by
  obtain ⟨mid, hmid, rfl⟩ := leads_rounds h
  rw [List.length_map, hb.length_unroll hmid, List.length_singleton, Nat.one_mul]

end Loop

theorem length_leaveLoop (paths : List Path) : (leaveLoop paths).length = paths.length := by
  have hscopes := congrArg List.length (scopes_leaveLoop paths)
  rwa [List.length_map, List.length_map] at hscopes

/-- From one path, the search of a loop has at least two rounds and gives the paths of all of them, and those that skip
the loop come after them. -/
theorem Multiplies.loop {c e : Nat} {enter : Eval Unit} {body orelse : Analysis} (hb : Multiplies c body) (hc : 0 < c)
    (ho : Multiplies e orelse) {limit : Nat} {depth : Int} {p : Path} {r : Report} {out : List Path}
    (h : (Analysis.loop limit depth enter body orelse [p] r).paths? = .ok out) :
    2 ≤ searchRounds limit depth enter body p r ∧
      out.length = ∑ i ∈ Icc 1 (searchRounds limit depth enter body p r), c ^ i + e := by
  have hrun : (Analysis.loop limit depth enter body orelse).outcome [p] r =
      (.ok out, (Analysis.loop limit depth enter body orelse [p] r).report) := Prod.ext h rfl
  rw [outcome_loop, iterate_cons] at hrun
  obtain ⟨first, r₁, hfirst, hrun⟩ := chain_ok hrun
  cases hrun
  -- the paths of the search, and those that skip the loop
  rw [loopFrom_eq_chain] at hfirst
  obtain ⟨found, r₂, hfound, hfirst⟩ := chain_ok hfirst
  obtain ⟨skipped, r₃, hskipped, hfirst⟩ := chain_ok hfirst
  cases hfirst
  have hround : ∀ n turn, Leads (rounds depth enter body (entry depth p)) n turn → turn.length = c ^ n :=
    fun n turn => hb.length_rounds
  have hne : ∀ turn, Leads (rounds depth enter body (entry depth p)) 1 turn → turn ≠ [] := by
    intro turn hturn
    rw [← List.length_pos_iff, hround 1 turn hturn, Nat.pow_one]
    exact hc
  refine ⟨two_le_settleRounds hne hfound, ?_⟩
  rw [List.append_nil, List.length_append, length_leaveLoop, ho _ _ ⟨_, _, hskipped⟩, length_settle hround hfound,
    List.length_nil, Nat.zero_add, Nat.zero_add, List.length_singleton, Nat.one_mul, Nat.add_comm 1,
    Finset.Ico_add_one_right_eq_Icc]
  rfl

end Analysis

/-- From one path, the analysis of a program without loops gives as many paths as the program has traces, the product
over its statements of the ways through each. A loop over parts without loops has at least two rounds, and gives as many
paths as it has traces with as many iterations at most as there were rounds. -/
theorem paths_as_many_as_traces [SetOrder] (edition : Edition) (limit : Nat) (d : Document) (p : Path) (r : Report)
    (out : List Path) (hout : ((Stmt.ofDocument d).analyse edition limit [p] r).paths? = .ok out) :
    ((Stmt.ofDocument d).LoopFree → ∀ bound, out.length = (Stmt.ofDocument d).wayCount bound ∧
      ∀ traces, Trace.ofDocument bound d = .ok traces → traces.length = out.length) ∧
    ∀ test body orelse rounds, Stmt.ofDocument d = .loop test body orelse → body.LoopFree → orelse.LoopFree →
      Analysis.searchRounds limit 0 (Eval.enterTest edition test) (body.analyse edition limit) p r = rounds →
      2 ≤ rounds ∧
        out.length = ∑ i ∈ Icc 1 rounds, body.wayCount rounds ^ i + orelse.wayCount rounds ∧
        ∀ traces, Trace.ofDocument rounds d = .ok traces → traces.length = out.length := by
  refine ⟨fun hl bound => ?_, ?_⟩
  · have hways := (Stmt.ofDocument d).multiplies_analyse edition limit bound hl _ _ (Analysis.leads_of_paths? hout)
    rw [List.length_singleton, Nat.one_mul] at hways
    exact ⟨hways, fun traces htraces => (Trace.length_ofDocument bound d traces htraces).trans hways.symm⟩
  · intro test body orelse rounds hd hbody horelse hrounds
    rw [hd, Stmt.analyse] at hout
    obtain ⟨htwo, hways⟩ := (body.multiplies_analyse edition limit rounds hbody).loop (body.wayCount_pos rounds)
      (orelse.multiplies_analyse edition limit rounds horelse) hout
    rw [hrounds] at htwo hways
    refine ⟨htwo, hways, fun traces htraces => ?_⟩
    have htraces : traces.length = (Stmt.ofDocument d).wayCount rounds :=
      Trace.length_ofDocument rounds d traces htraces
    rw [hd, Stmt.wayCount] at htraces
    exact htraces.trans hways.symm

/-- Two branches one after the other have four ways. A loop over such a branch that is followed in three rounds has two,
four and eight, and the two that skip it. -/
theorem branches_and_loop_as_many_as_traces :
    let a : Pattern := { name := "A", sources := ["src"], sinks := ["sink"], modes := [], implicit := false }
    let name (id : String) : Document := .record [("ast_type", .text "Name"), ("id", .text id)]
    let copy (x y : String) : Document :=
      .record [("ast_type", .text "Assign"), ("targets", .list [name x]), ("value", name y)]
    let branch : Document :=
      .record [("ast_type", .text "If"), ("test", name "c"), ("body", .list [copy "x" "src"]), ("orelse", .list [])]
    let block : Document := .list [branch, copy "y" "x", branch]
    let loop : Document :=
      .record [("ast_type", .text "While"), ("test", name "c"), ("body", .list [branch]), ("orelse", .list [branch])]
    let run (d : Document) := ((Stmt.ofDocument d).analyse .plain 5 [Path.start [a]] {}).paths?
    (∃ out traces, run block = .ok out ∧ Trace.ofDocument 0 block = .ok traces ∧ out.length = 4 ∧ traces.length = 4) ∧
      ∃ out traces, run loop = .ok out ∧ Trace.ofDocument 3 loop = .ok traces ∧ out.length = 16 ∧
        traces.length = 16 := by
  intro a name copy branch block loop run
  let fork : Stmt := .branch (.name "c" {}) (.block [.assign [.name "x"] (.name "src" {}) {}]) (.block [])
  have hfork : fork.LoopFree := ⟨⟨trivial, trivial⟩, trivial⟩
  have hloop : Stmt.ofDocument loop = .loop (.name "c" {}) (.block [fork]) (.block [fork]) := rfl
  have hblock : Stmt.ofDocument block = .block [fork, .assign [.name "y"] (.name "x" {}) {}, fork] := rfl
  have hrounds : Analysis.searchRounds 5 0 (Eval.enterTest .plain (.name "c" {}))
      (Stmt.analyse .plain 5 (.block [fork])) (Path.start [a]) {} = 3 := by decide +kernel
  have hok {α : Type} {x : Except Fault α} (h : x.isOk = true) : ∃ a, x = .ok a := by
    cases x with
    | error f => cases h
    | ok a => exact ⟨a, rfl⟩
  obtain ⟨out, hout⟩ : ∃ out, run block = .ok out := hok (by decide +kernel)
  obtain ⟨traces, htraces⟩ : ∃ traces, Trace.ofDocument 0 block = .ok traces := hok (by decide +kernel)
  obtain ⟨out', hout'⟩ : ∃ out, run loop = .ok out := hok (by decide +kernel)
  obtain ⟨traces', htraces'⟩ : ∃ traces, Trace.ofDocument 3 loop = .ok traces := hok (by decide +kernel)
  obtain ⟨hways, hsame⟩ := (paths_as_many_as_traces .plain 5 block (Path.start [a]) {} out hout).1
    (hblock ▸ ⟨hfork, trivial, hfork, trivial⟩) 0
  obtain ⟨-, hways', hsame'⟩ := (paths_as_many_as_traces .plain 5 loop (Path.start [a]) {} out' hout').2 _ _ _ 3 hloop
    ⟨hfork, trivial⟩ ⟨hfork, trivial⟩ hrounds
  have hfour : out.length = 4 := hways.trans (by decide +kernel)
  have hsixteen : out'.length = 16 := hways'.trans (by decide +kernel)
  exact ⟨⟨out, traces, hout, htraces, hfour, (hsame traces htraces).trans hfour⟩,
    out', traces', hout', htraces', hsixteen, (hsame' traces' htraces').trans hsixteen⟩

end TaintFlow
