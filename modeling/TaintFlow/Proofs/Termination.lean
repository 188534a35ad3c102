import Mathlib
import TaintFlow.Proofs.Independence
import TaintFlow.Proofs.Reading
import TaintFlow.Proofs.Visits
import TaintFlow.Session

/-
When the analysis of a program stops. A loop is unrolled until no new state is reached, and nothing else
bounds the number of rounds: a flow that reaches a variable again and again can be put on its label again and
again, and in the scoped edition branches that follow each other in a loop can move the nesting level on in every
round. These are the only two ways not to stop. An analysis stops exactly if some number bounds the lists of flows,
and the nesting levels in them, of all states at which its rounds end.
-/
namespace TaintFlow

open Filter Listing

/-! ## One run on a stock -/

namespace Accord

/-- A run of a program that carries no fault of an unsettled loop, in which everything is made of what is in
stock. -/
abbrev onStock (edition : Edition) (policy : List Pattern) (S : Stock) : Accord :=
  stocked edition policy True False True S

theorem lawful_onStock {edition : Edition} {policy : List Pattern} {S : Stock} (hS : S.Covers policy) :
    (onStock edition policy S).Lawful :=
  lawful_stocked False.elim hS

variable {c : Accord}

theorem Sim.tamed {α : Type} {step : Eval α} {Q : α → α → Prop} (h : c.Sim Q step step) (hclear : c.clear) {p : Path}
    (hp : c.Tamed p) (r : Report) :
    ¬ Unsettled (step.run ⟨p, r⟩) ∧ ∀ a w, step.run ⟨p, r⟩ = (.ok a, w) → c.Tamed w.path := by
  have hrun := h ⟨p, r⟩ ⟨p, r⟩ ⟨.refl hp, fun _ _ _ => Iff.rfl⟩
  generalize step.run ⟨p, r⟩ = x at hrun ⊢
  obtain ⟨result, w⟩ := x
  cases hrun with
  | ok _ hw =>
    refine ⟨nofun, fun a w h => ?_⟩
    cases h
    exact hw.path.left
  | error hf _ => exact ⟨fun h => hf hclear (Except.error.inj h), nofun⟩

end Accord

namespace Analysis

section Stocked

variable {edition : Edition} {policy : List Pattern} {S : Stock} {bound : Nat}

/-- A statement that lasts and comes to a result if the states it visits are bounded. -/
def Stops (c : Accord) (bound : Nat) (a : Nat → Analysis) (visits : Nat → List Path → Report → List Path) : Prop :=
  ∀ paths r, (∀ p ∈ paths, c.Tamed p) →
    Watched (Path.Bounded c.edition bound) Run.Unsettled (fun limit => a limit paths r)
      (fun limit => visits limit paths r)

theorem stops_onEach {c : Accord} (hclear : c.clear) {step : Eval Unit} (hs : c.Sim (fun _ _ => True) step step) :
    Stops c bound (fun _ => onEach step) (fun _ _ _ => []) := by
  intro paths r hp
  refine .const ?_
  induction paths generalizing r with
  | nil => exact nofun
  | cons p rest ih =>
    have hstep := hs.tamed hclear (hp p (List.mem_cons_self ..)) r
    rw [onEach]
    generalize step.run ⟨p, r⟩ = x at hstep ⊢
    obtain ⟨result, w⟩ := x
    cases result with
    | error f => exact fun h => hstep.1 (congrArg Except.error (Except.error.inj h))
    | ok _ => exact ih w.report fun q hq => hp q (List.mem_cons_of_mem _ hq)

theorem stops_loop (hS : S.Covers policy) (depth : Int) {enter : Eval Unit} {body orelse : Nat → Analysis}
    {bodyVisits orelseVisits : Nat → List Path → Report → List Path}
    (he : (Accord.onStock edition policy S).Sim (fun _ _ => True) enter enter) (hpush : Eval.Pushes enter)
    (hb : ∀ limit, (Accord.onStock edition policy S).Lockstep (body limit))
    (hshort : ∀ limit, Shortening (body limit))
    (hbody : Stops (.onStock edition policy S) bound body bodyVisits)
    (horelse : Stops (.onStock edition policy S) bound orelse orelseVisits) :
    Stops (.onStock edition policy S) bound
      (fun limit => loop limit depth enter (body limit) (orelse limit))
      (fun limit => iterateVisits (loopFrom limit depth enter (body limit) (orelse limit))
        (loopVisits limit depth enter (body limit) (bodyVisits limit) (orelseVisits limit))) := by
  let c := Accord.onStock edition policy S
  have hc : c.Lawful := Accord.lawful_onStock hS
  have hwalk : ∀ limit, c.WalkLockstep (iteration enter (body limit)) := fun limit =>
    Accord.lockstep_iteration he (hb limit)
  have hiteration : ∀ p r, c.Tamed p → Watched (Path.Bounded edition bound) Unsettled
      (fun limit => iteration enter (body limit) p r) (fun limit => iterationVisits enter (bodyVisits limit) p r) := by
    intro p r hp
    obtain ⟨hgood, hw⟩ := he.tamed trivial hp r
    exact watched_iteration hgood fun w h => hbody _ _ (List.forall_mem_singleton.2 (hw () w h))
  -- the stack of the entry and the stock leave only so many bounded states that a search tells apart
  have hsearch : ∀ p, c.Tamed p → ∀ r, Watched (Path.Bounded edition bound) Unsettled
      (fun limit => search limit depth enter (body limit) p r)
      (fun limit => searchVisits limit depth enter (body limit) (bodyVisits limit) p r) := by
    intro p hp r
    have hentry := hp.entry hc depth
    have hrounds := watched_rounds hiteration (fun limit => (hwalk limit).keeps) hentry depth
    obtain ⟨N, hN⟩ := @Accord.exists_bound edition policy True False True S hS bound _ p.settled_fork
    refine @watched_settle _ _ _ _ (fun n r => hrounds (n + 1) r) (fun q => c.Tamed q ∧ q.Begins p.fork.control) N
      (fun l hl => hN l fun q hq => ⟨(hl q hq).1.1, (hl q hq).2, (hl q hq).1.2⟩) (fun limit n r out r' h q hq => ?_) r
    exact ⟨Accord.tamed_rounds (hwalk limit) hentry h q hq, Accord.begins_rounds hpush (hshort limit) p h q hq⟩
  exact watched_loop fun p r hp => watched_loopFrom (hsearch p hp r) fun r' =>
    horelse _ r' (List.forall_mem_singleton.2 (hp.entry hc depth))

end Stocked

end Analysis

/-! ## Programs -/

namespace Accord

variable {edition : Edition} {policy : List Pattern} {S : Stock} {bound : Nat}

mutual

theorem stops_analyse [SetOrder] (hS : S.Covers policy) : ∀ s : Stmt, s.Fits (onStock edition policy S) →
    Analysis.Stops (onStock edition policy S) bound (fun limit => s.analyse edition limit)
      (fun limit => s.visits edition limit)
  | .skip, _ => by
    simp only [Stmt.analyse, Stmt.visits]
    exact fun _ _ _ => .const nofun
  | .block body, h => by
    simp only [Stmt.analyse, Stmt.visits]
    exact stops_analyseBlock hS body h
  | .assign targets value spot, h => by
    simp only [Stmt.analyse, Stmt.visits]
    have hc : (onStock edition policy S).Lawful := lawful_onStock hS
    exact Analysis.stops_onEach trivial (sim_assign hc h.1 h.2 spot).discard
  | .annotated target value spot, h => by
    have hc : (onStock edition policy S).Lawful := lawful_onStock hS
    have hassign := sim_assign hc (List.forall_mem_singleton.2 h.1) h.2 { line := spot.line }
    cases edition <;> simp only [Stmt.analyse, Stmt.visits]
    · exact fun _ _ _ => .const nofun
    · exact Analysis.stops_onEach trivial hassign.discard
  | .augmented target current value spot, h => by
    have hc : (onStock edition policy S).Lawful := lawful_onStock hS
    have hassign := @sim_assign _ hc _ _ (List.forall_mem_singleton.2 h.1) (.binary current value) ⟨h.2.1, h.2.2⟩
      { line := spot.line }
    cases edition <;> simp only [Stmt.analyse, Stmt.visits]
    · exact fun _ _ _ => .const nofun
    · exact Analysis.stops_onEach trivial hassign.discard
  | .eval value, h => by
    simp only [Stmt.analyse, Stmt.visits]
    have hc : (onStock edition policy S).Lawful := lawful_onStock hS
    exact Analysis.stops_onEach trivial (sim_evaluate hc value h .value).discard
  | .branch test body orelse, h => by
    simp only [Stmt.analyse, Stmt.visits]
    have hc : (onStock edition policy S).Lawful := lawful_onStock hS
    have henter := fun (p : Path) (r : Report) (hp : (onStock edition policy S).Tamed p) =>
      (sim_enterTest hc h.1).tamed trivial ((Kin.refl hp).shift 1).left r
    intro paths r hp
    refine Analysis.watched_fork (fun p r hp => (henter p r hp).1) (fun p r w hp hw r' => ?_) paths [] [] r hp
    have hfork := List.forall_mem_singleton.2 (((henter p r hp).2 () w hw).fork hc)
    exact ⟨stops_analyse hS body h.2.1 _ r' hfork, stops_analyse hS orelse h.2.2 _ r' hfork⟩
  | .loop test body orelse, h => by
    simp only [Stmt.analyse, Stmt.visits]
    have hc : (onStock edition policy S).Lawful := lawful_onStock hS
    exact Analysis.stops_loop hS 0 (sim_enterTest hc h.1) (Eval.pushes_enterTest edition test)
      (fun limit => lockstep_analyse hc limit body h.2.1 (.inl trivial)) (body.shortening_analyse edition)
      (stops_analyse hS body h.2.1) (stops_analyse hS orelse h.2.2)
  | .each target iter body orelse spot, h => by
    simp only [Stmt.analyse, Stmt.visits]
    have hc : (onStock edition policy S).Lawful := lawful_onStock hS
    exact Analysis.stops_loop hS 1 (sim_enterItem hc h.1 h.2.1 _) (Eval.pushes_enterItem edition target iter _)
      (fun limit => lockstep_analyse hc limit body h.2.2.1 (.inl trivial)) (body.shortening_analyse edition)
      (stops_analyse hS body h.2.2.1) (stops_analyse hS orelse h.2.2.2)
  | .fails fault, h => by
    simp only [Stmt.analyse, Stmt.visits]
    exact fun _ _ _ => .const fun hb => h trivial (Except.error.inj hb)

theorem stops_analyseBlock [SetOrder] (hS : S.Covers policy) : ∀ body : List Stmt,
    Stmt.FitAll (onStock edition policy S) body →
    Analysis.Stops (onStock edition policy S) bound (fun limit => Stmt.analyseBlock edition limit body)
      (fun limit => Stmt.visitsBlock edition limit body)
  | [], _ => by
    simp only [Stmt.analyseBlock, Stmt.visitsBlock]
    exact fun _ _ _ => .const nofun
  | s :: rest, h => by
    simp only [Stmt.analyseBlock, Stmt.visitsBlock]
    have hc : (onStock edition policy S).Lawful := lawful_onStock hS
    intro paths r hp
    refine Analysis.watched_andThen (stops_analyse hS s h.1 paths r hp) fun limit next r' hnext => ?_
    refine stops_analyseBlock hS rest h.2 next r' ?_
    exact (lockstep_analyse hc limit s h.1 (.inl trivial)).tamed hp hnext

end

end Accord

/-! ## When the analysis of a program stops -/

theorem Accord.eventually_tamed_start (edition : Edition) (policy : List Pattern) :
    ∀ᶠ S : Stock in atTop, (onStock edition policy S).Tamed (Path.start policy) := by
  filter_upwards [Stock.eventually_forall_mem policy fun p _ => Stock.eventually_forall_mem p.sources fun s _ =>
    Stock.eventually_name s] with S hsources
  exact {
    patterns := rfl
    sources := hsources
    initialized := fun _ h => nomatch h
    keys := fun _ _ h => nomatch h
    labels := fun _ _ h => nomatch h
    control := fun _ h => nomatch h
    controlKeys := fun _ _ h => nomatch h
    controlLabels := fun _ _ h => nomatch h }

theorem unsettled_analyseProgram [SetOrder] {edition : Edition} {limit : Nat} {patterns : List Pattern}
    {program : Stmt} :
    (analyseProgram edition limit patterns program).1 = some .unsettled ↔
      (program.analyse edition limit [Path.start patterns] {}).Unsettled := by
  unfold analyseProgram Session.run Session.start Run.Unsettled
  rw [← Run.paths?_eq_error]
  dsimp only
  generalize (program.analyse edition limit [Path.start patterns] {}).paths? = out
  cases out <;> simp

/-- The analysis of a program stops, with a result or another fault, exactly if some number bounds the lists of
flows of all states at which the rounds of its loops end, and in the scoped edition the nesting levels in them. -/
theorem analysis_stops_iff_bounded [SetOrder] {edition : Edition} {patterns : List Pattern}
    (hnames : (patterns.map (·.name)).Nodup) (tree : Document) :
    (∃ limit, (analyseProgram edition limit patterns (Stmt.ofDocument tree)).1 ≠ some .unsettled) ↔
      ∃ bound, ∀ limit, ∀ q ∈ (Stmt.ofDocument tree).visits edition limit [Path.start patterns] {},
        q.Bounded edition bound := by
  have hpolicy := Policy.coherent_of_nodup hnames edition
  have hclear : (Stmt.ofDocument tree).Fits (.lenient True) := (Reading.clear_ofDocument tree).stmt
  obtain ⟨S, hS, hfits, hstart⟩ : ∃ S : Stock, S.Covers patterns ∧
      (Stmt.ofDocument tree).Fits (.onStock edition patterns S) ∧
      (Accord.onStock edition patterns S).Tamed (Path.start patterns) :=
    ((Stock.eventually_covers patterns).and ((Accord.eventually_fits hpolicy (Stmt.ofDocument tree) hclear).and
      (Accord.eventually_tamed_start edition patterns))).exists
  have hwatched := fun bound => @Accord.stops_analyse edition patterns S bound _ hS (Stmt.ofDocument tree) hfits
    [Path.start patterns] {} (List.forall_mem_singleton.2 hstart)
  simp only [ne_eq, unsettled_analyseProgram]
  constructor
  · rintro ⟨limit, hgood⟩
    -- the finitely many states visited up to this limit are all there are
    obtain ⟨bound, hbound⟩ := (Stock.eventually_forall_mem (List.range (limit + 1)) fun n _ =>
      Stock.eventually_forall_mem ((Stmt.ofDocument tree).visits edition n [Path.start patterns] {}) fun q _ =>
        q.eventually_bounded edition).exists
    refine ⟨bound, fun limit' q hq => ?_⟩
    rcases Nat.le_total limit limit' with hle | hle
    · have hsame : (Stmt.ofDocument tree).visits edition limit' [Path.start patterns] {} =
          (Stmt.ofDocument tree).visits edition limit [Path.start patterns] {} :=
        ((hwatched bound).stable limit limit' hle hgood).2
      rw [hsame] at hq
      exact hbound limit (List.mem_range.2 (by omega)) q hq
    · exact hbound limit' (List.mem_range.2 (by omega)) q hq
  · rintro ⟨bound, hbound⟩
    obtain ⟨y, hy, hrun⟩ := (hwatched bound).halts (.of_forall hbound)
    obtain ⟨limit, hlimit⟩ := hrun.exists
    exact ⟨limit, fun h => hy (hlimit ▸ h)⟩

/-! ## A program whose analysis does not stop -/

namespace Wrapping

/-- One pattern, with the source `get` and the sanitizer `esc`. -/
def file : Document := .list [.record [
  ("vulnerability", .text "A"), ("sources", .list [.text "get"]), ("sanitizers", .list [.text "esc"]),
  ("sinks", .list [.text "sink"]), ("implicit", .text "yes")]]

def policy : List Pattern := [
  { name := "A", sources := ["get"], sinks := ["sink"], modes := [("esc", .text "show")], implicit := true }]

def name (id : String) : Document := .record [("ast_type", .text "Name"), ("id", .text id), ("lineno", .int 2)]

def call (function : String) (argument : Document) : Document :=
  .record [("ast_type", .text "Call"), ("func", name function), ("args", .list [argument]), ("lineno", .int 2)]

/-- A loop that assigns a value to `x` over and over again. -/
def loop (value : Document) : Document := .record [("ast_type", .text "Module"), ("body", .list [.record [
  ("ast_type", .text "While"), ("test", .record [("ast_type", .text "Constant"), ("value", .int 1)]),
  ("body", .list [.record [("ast_type", .text "Assign"), ("targets", .list [name "x"]), ("value", value),
    ("lineno", .int 2)]]),
  ("orelse", .list [])]])]

/-- `while 1: x = esc(get(x))`. -/
def tree : Document := loop (call "esc" (call "get" (name "x")))

theorem patterns_file : PatternFile.patterns .plain file = .ok policy := by cbv

/-- The body of the loop. -/
def body : Stmt := .block [.assign [.name "x"]
  (.call "" "esc" [.call "" "get" [.name "x" { line := 2 }] { line := 2 }] { line := 2 }) { line := 2 }]

theorem ofDocument_tree : Stmt.ofDocument tree = .block [.loop .inert body (.block [])] := rfl

/-! The source `get` puts a flow on the label that has not passed `esc`, so it is not there yet; then `esc` makes
it the same as all the others. -/

def raw : Flow := { position := { line := 2 } }

def passed : Flow := { position := { line := 2 }, marks := [.sanitizer "esc" 2] }

/-- The state in which `x` has these flows from `get`. -/
def piled (flows : List Flow) : Path :=
  { Path.start policy with
    labels := ⟨.ofList [("x", ⟨.ofList [("A", { pattern := .own 0, label := ⟨.ofList [("get", flows)]⟩ })]⟩)]⟩
    initialized := ["x"]
    controlLabels := ⟨.ofList [("x", (Path.start policy).clean)]⟩ }

/-- One iteration. -/
def step (limit : Nat) : Analysis.Walk := Analysis.iteration (Eval.enterTest .plain .inert) (body.analyse .plain limit)

theorem step_start (limit : Nat) (r : Report) : step limit (Path.start policy) r = (.ok [piled [passed]], r) := by cbv

theorem step_piled (limit : Nat) (flows : List Flow) (r : Report) : step limit (piled flows) r =
    (.ok [piled ((adjoin flows raw).map (·.sanitize (.sanitizer "esc" 2)))], r) := by cbv

theorem pile (n : Nat) : (adjoin (List.replicate n passed) raw).map (·.sanitize (.sanitizer "esc" 2)) =
    List.replicate (n + 1) passed := by
  have hnew : raw ∉ List.replicate n passed := fun h => absurd (List.eq_of_mem_replicate h) (by decide)
  unfold adjoin
  rw [if_neg hnew, List.map_append, List.map_replicate, List.replicate_succ']
  congr 1

theorem unroll_piled (limit : Nat) (r : Report) : ∀ n k, Analysis.unroll (step limit) n
    [piled (List.replicate k passed)] r = (.ok [piled (List.replicate (k + n) passed)], r)
  | 0, _ => rfl
  | n + 1, k => by
    rw [Analysis.unroll, Analysis.iterate, step_piled, pile]
    dsimp only [Analysis.iterate]
    rw [List.append_nil, unroll_piled limit r n (k + 1)]
    rw [show k + 1 + n = k + (n + 1) by omega]

/-- After `n + 1` iterations there are as many flows on `x`. -/
theorem rounds_piled (limit n : Nat) (r : Report) :
    Analysis.rounds 0 (Eval.enterTest .plain .inert) (body.analyse .plain limit) (Analysis.entry 0 (Path.start policy))
      (n + 1) r = (.ok [piled (List.replicate (n + 1) passed)], r) := by
  have hstart : Analysis.entry 0 (Path.start policy) = Path.start policy := rfl
  have hunroll : Analysis.unroll (step limit) (n + 1) [Path.start policy] r =
      (.ok [piled (List.replicate (n + 1) passed)], r) := by
    rw [Analysis.unroll, Analysis.iterate, step_start]
    dsimp only [Analysis.iterate]
    rw [List.append_nil, show [passed] = List.replicate 1 passed from rfl, unroll_piled, Nat.add_comm]
  exact Analysis.rounds_eq_ok.2 ⟨_, hstart ▸ hunroll, rfl⟩

theorem eq_of_same {flows flows' : List Flow} (h : (piled flows).same (piled flows') = true) : flows = flows' := by
  unfold Path.same at h
  simp only [Bool.and_eq_true] at h
  have hx : Option.Rel _ (some _) (some _) := Table.agree_iff.1 h.1.1.1 "x"
  cases hx with
  | some hx =>
    have hname : Option.Rel _ (some _) (some _) := MultiLabel.same_iff.1 hx "A"
    cases hname with
    | some hname => exact Option.some.inj (hname.2 "get")

end Wrapping

/-- A search whose rounds end in ever new states does not stop. -/
theorem Analysis.settle_unsettled {same : Path → Path → Bool}
    {unrolled : Nat → Report → Except Fault (List Path) × Report} {state : Nat → Path}
    (hu : ∀ n r, unrolled (n + 1) r = (.ok [state n], r))
    (hnew : ∀ i j, same (state i) (state j) = true → i = j) : ∀ (limit n : Nat) (seen found : List Path) (r : Report),
    (∀ q ∈ seen, ∃ i < n, q = state i) → settle same unrolled limit n seen found r = (.error .unsettled, r)
  | 0, _, _, _, _, _ => rfl
  | limit + 1, n, seen, found, r, hseen => by
    have hany : seen.any (same (state n)) = false := by
      rw [List.any_eq_false]
      intro q hq hsame
      obtain ⟨i, hi, rfl⟩ := hseen q hq
      have := hnew n i hsame
      omega
    have hadd : addNew same seen [state n] = seen ++ [state n] := by
      show (if seen.any (same (state n)) then seen else seen ++ [state n]) = _
      rw [hany]
      rfl
    rw [settle, hu]
    dsimp only
    rw [hadd, if_neg (by simp)]
    refine settle_unsettled hu hnew limit (n + 1) _ _ r fun q hq => ?_
    rcases List.mem_append.1 hq with hq | hq
    · obtain ⟨i, hi, rfl⟩ := hseen q hq
      exact ⟨i, by omega, rfl⟩
    · exact ⟨n, by omega, List.mem_singleton.1 hq⟩

/-- The analysis of `while 1: x = esc(get(x))` does not stop at any limit. -/
theorem analysis_of_wrapping_never_stops :
    PatternFile.patterns .plain Wrapping.file = .ok Wrapping.policy ∧ (Wrapping.policy.map (·.name)).Nodup ∧
      ∀ limit, (analyseProgram .plain limit Wrapping.policy (Stmt.ofDocument Wrapping.tree)).1 = some .unsettled := by
  refine ⟨Wrapping.patterns_file, by decide, fun limit => ?_⟩
  have hsearch : Analysis.search limit 0 (Eval.enterTest .plain .inert) (Wrapping.body.analyse .plain limit)
      (Path.start Wrapping.policy) {} = (.error .unsettled, {}) :=
    Analysis.settle_unsettled (fun n r => Wrapping.rounds_piled limit n r) (fun i j h => by
      have hlength := congrArg List.length (Wrapping.eq_of_same h)
      simpa using hlength) limit 0 [] [] {} (by intro q hq; cases hq)
  rw [unsettled_analyseProgram, Wrapping.ofDocument_tree]
  simp only [Stmt.analyse, Stmt.analyseBlock, Analysis.loop, Analysis.iterate, Analysis.loopFrom, hsearch]
  rfl

/-- Without the sanitizer the flow is on the label already, and the analysis stops. -/
theorem visits_of_rereading_bounded :
    ∃ bound, ∀ limit,
      ∀ q ∈ (Stmt.ofDocument (Wrapping.loop (Wrapping.call "get" (Wrapping.name "x")))).visits .plain limit
        [Path.start Wrapping.policy] {}, q.Bounded .plain bound := by
  have hnames : (Wrapping.policy.map (·.name)).Nodup := by decide
  exact (analysis_stops_iff_bounded hnames _).1 ⟨3, by decide +kernel⟩

end TaintFlow
