import TaintFlow.Proofs.Enclosing

/-
What a loop does to the conditions around it. A round enters the region of the loop once. Where the body forks it leaves
the region once. Where it does not, the paths that it gives back are the ones it was given, and they leave
twice, so each further iteration costs one more of the conditions around the loop. The paths that skip the
loop never entered its region and leave it all the same, the last of them twice. So a loop restores the stack of a
path exactly if there is none.
-/
namespace TaintFlow

namespace Analysis

/-! ## New paths or the given ones -/

/-- The analysis gives new paths if it `forks`, and the given ones back if not. -/
def Decides (forks : Bool) (a : Analysis) : Prop :=
  ∀ paths report new?, (a paths report).result = .ok new? → new?.isSome = forks

theorem decides_idle : Decides false Run.idle := by
  intro paths report new? h
  cases h
  rfl

theorem decides_onEach (step : Eval Unit) : Decides false (onEach step) := by
  intro paths report new? h
  rcases result_onEach step paths report with hresult | ⟨fault, hresult⟩ <;> rw [hresult] at h <;> cases h
  rfl

theorem Decides.andThen {forks forks' : Bool} {a b : Analysis} (ha : Decides forks a) (hb : Decides forks' b) :
    Decides (forks || forks') fun paths report => (a paths report).andThen b := by
  intro paths report new? h
  dsimp only at h
  have ha := ha paths report
  generalize a paths report = r at h ha
  obtain ⟨given, report', result⟩ := r
  cases result with
  | error fault => cases h
  | ok first =>
    have hforks := ha first rfl
    cases first with
    | none =>
      rw [← hforks]
      exact hb given report' new? h
    | some new =>
      rw [← hforks]
      -- once there are new paths, what follows gives new ones in their place
      change (b new report').paths?.map some = .ok new? at h
      generalize (b new report').paths? = out at h
      cases out with
      | error fault => cases h
      | ok out =>
        cases h
        rfl

theorem decides_fork (enter : Eval Unit) (body orelse : Analysis) :
    ∀ done new : List Path, Decides true (fork enter body orelse done new) := by
  intro done new paths
  induction paths generalizing done new with
  | nil =>
    intro report new? h
    cases h
    rfl
  | cons p rest ih =>
    intro report new? h
    rw [fork] at h
    generalize enter.run ⟨{ p with scope := p.scope + 1 }, report⟩ = x at h
    obtain ⟨x, w⟩ := x
    cases x with
    | error fault => cases h
    | ok u =>
      dsimp only at h
      generalize body [w.path.fork] w.report = r at h
      cases hyes : r.paths? with
      | error fault =>
        rw [hyes] at h
        cases h
      | ok yes =>
        rw [hyes] at h
        dsimp only at h
        generalize orelse [w.path.fork] r.report = r' at h
        cases hno : r'.paths? with
        | error fault =>
          rw [hno] at h
          cases h
        | ok no =>
          rw [hno] at h
          exact ih _ _ r'.report new? h

theorem decides_loop (limit : Nat) (depth : Int) (enter : Eval Unit) (body orelse : Analysis) :
    Decides true (loop limit depth enter body orelse) := by
  intro paths report new? h
  unfold loop at h
  generalize iterate (loopFrom limit depth enter body orelse) paths report = x at h
  obtain ⟨x, report'⟩ := x
  cases x with
  | error fault => cases h
  | ok new =>
    cases h
    rfl

/-! ## Rounds -/

/-- How many levels are lost in a number of rounds. -/
def lost (forks : Bool) (n : Nat) : Nat := if forks then 0 else n

section

variable {depth : Int} {enter : Eval Unit} {forks : Bool} {body : Analysis}
  (he : Eval.Pushes enter) (hb : Restores body) (hd : Decides forks body)

include he hb hd

theorem height_iteration {p q : Path} {out : List Path} (h : Leads (iteration enter body) p out) (hq : q ∈ out) :
    q.height = p.height - lost forks 1 := by
  obtain ⟨r, r', h⟩ := h
  obtain ⟨p', r₁, mid, henter, hmid, hout⟩ := iteration_result h
  have hp' := he.height ⟨r, r₁, henter⟩
  have hheight : ∀ q ∈ mid, q.height = p.height + 1 := fun q hq => (hb.height ⟨r₁, r', hmid⟩ hq).trans hp'
  rcases hout with ⟨⟨new, hresult⟩, rfl⟩ | ⟨hresult, rfl⟩
  · obtain ⟨q, hmem, rfl⟩ := List.mem_map.1 hq
    rw [← hd _ _ _ hresult, Path.height_pop, hheight q hmem]
    rfl
  · obtain ⟨q, hmem, rfl⟩ := List.mem_map.1 hq
    rw [← hd _ _ _ hresult, Path.height_pop, Path.height_pop, hheight q hmem]
    rfl

-- The number of rounds is what the induction is on; all paths between two rounds are equally high.
theorem height_unroll : ∀ (n : Nat) {paths out : List Path} {k : Nat}, (∀ p ∈ paths, p.height = k) →
    Leads (unroll (iteration enter body) n) paths out → ∀ q ∈ out, q.height = k - lost forks n
  | 0, paths, out, k, hp, ⟨r, r', h⟩ => by
    cases h
    have hlost : lost forks 0 = 0 := by cases forks <;> rfl
    rwa [hlost]
  | n + 1, paths, out, k, hp, h => by
    obtain ⟨mid, hmid, h⟩ := leads_unroll_succ h
    obtain ⟨parts, hparts, rfl⟩ := leads_iterate hmid
    have honce : ∀ q ∈ parts.flatten, q.height = k - lost forks 1 := by
      intro q hq
      obtain ⟨part, hpart, hq⟩ := List.mem_flatten.1 hq
      obtain ⟨p, hmem, hstep⟩ := forall₂_mem_right hparts part hpart
      rw [height_iteration he hb hd hstep hq, hp p hmem]
    have hlost : lost forks 1 + lost forks n = lost forks (n + 1) := by
      cases forks
      · exact Nat.add_comm 1 n
      · rfl
    intro q hq
    rw [height_unroll n honce h q hq, Nat.sub_sub, hlost]

theorem height_rounds {start q : Path} {n : Nat} {out : List Path} (h : Leads (rounds depth enter body start) n out)
    (hq : q ∈ out) : q.height = start.height - lost forks n := by
  obtain ⟨mid, hmid, rfl⟩ := leads_rounds h
  obtain ⟨q, hmem, rfl⟩ := List.mem_map.1 hq
  exact height_unroll he hb hd n (List.forall_mem_singleton.2 rfl) hmid q hmem

end

/-- A number of iterations from a path lead to some path. -/
theorem ne_nil_unroll {enter : Eval Unit} {body : Analysis} (hb : Descends body) : ∀ (n : Nat) {paths out : List Path},
    paths ≠ [] → Leads (unroll (iteration enter body) n) paths out → out ≠ []
  | 0, paths, out, hne, ⟨r, r', h⟩ => by
    cases h
    exact hne
  | n + 1, paths, out, hne, h => by
    obtain ⟨mid, hmid, h⟩ := leads_unroll_succ h
    refine ne_nil_unroll hb n ?_ h
    obtain ⟨parts, hparts, rfl⟩ := leads_iterate hmid
    obtain ⟨p, hp⟩ := List.exists_mem_of_ne_nil _ hne
    obtain ⟨part, hpart, hstep⟩ := forall₂_mem_right (List.Forall₂.flip hparts) p hp
    obtain ⟨q, mid, -, hbody, hout⟩ := leads_iteration hstep
    have hpart' : part ≠ [] := by
      rcases hout with rfl | rfl <;> simpa using hb.ne_nil hbody
    intro hnil
    exact hpart' (List.flatten_eq_nil_iff.1 hnil part hpart)

/-! ## Loops -/

/-- What is left of the stack of `p` on the paths of the rounds of a loop, and on those that skip it. -/
structure Unwinds (forks : Bool) (p : Path) (turns : List (List Path)) (skipped : List Path) : Prop where
  some_turn : turns ≠ []
  turn : ∀ i turn, turns[i]? = some turn → turn ≠ [] ∧
    ∀ q ∈ turn, SameStack (Path.pop^[lost forks (i + 1)] p).control q.control
  skip : ∃ init last, skipped = init ++ [last] ∧ (∀ q ∈ init, SameStack p.pop.control q.control) ∧
    SameStack p.pop.pop.control last.control

theorem sameStack_pop_iterate {p q : Path} (h : Shortens p.control q.control) (n : Nat) :
    SameStack (Path.pop^[n] p).control q.control ↔ q.height = p.height - n := by
  rw [p.control_pop_iterate n]
  exact h.sameStack_take_iff (Nat.sub_le _ _)

theorem shortens_entry (depth : Int) (p : Path) : Shortens p.control (entry depth p).control := .keep p.control p

theorem sameStack_turn {depth : Int} {enter : Eval Unit} {forks : Bool} {body : Analysis} (he : Eval.Pushes enter)
    (hb : Restores body) (hrb : Regional body) (hd : Decides forks body) {p : Path} {n : Nat} {turn : List Path}
    (h : Leads (rounds depth enter body (entry depth p)) n turn) :
    turn ≠ [] ∧ ∀ q ∈ turn, SameStack (Path.pop^[lost forks n] p).control q.control := by
  constructor
  · obtain ⟨mid, hmid, rfl⟩ := leads_rounds h
    simpa using ne_nil_unroll hrb.descends n (List.cons_ne_nil _ []) hmid
  · intro q hq
    have hq' : Shortens (entry depth p).control q.control := by
      obtain ⟨r, r', h⟩ := h
      exact shortens_rounds he hrb.shortening h q hq
    rw [sameStack_pop_iterate ((shortens_entry depth p).trans hq'), height_rounds he hb hd h hq, height_entry]

theorem sameStack_leaveLoop {depth : Int} {orelse : Analysis} (ho : Restores orelse) (hro : Regional orelse) {p : Path}
    {skipped : List Path} (h : Leads orelse.outcome [entry depth p] skipped) :
    ∃ init last, leaveLoop skipped = init ++ [last] ∧ (∀ q ∈ init, SameStack p.pop.control q.control) ∧
      SameStack p.pop.pop.control last.control := by
  rcases List.eq_nil_or_concat' skipped with rfl | ⟨init, last, rfl⟩
  · exact absurd rfl (hro.descends.ne_nil h)
  have hsame : ∀ q ∈ init ++ [last], Shortens p.control q.control ∧ q.height = p.height := by
    intro q hq
    have hshort := (shortens_entry depth p).trans (hro.prunes.shortens h hq)
    exact ⟨hshort, (ho.height h hq).trans (height_entry depth p)⟩
  refine ⟨init.map (·.pop), last.pop.pop, leaveLoop_concat init last, List.forall_mem_map.2 fun q hq => ?_, ?_⟩
  · obtain ⟨hshort, hheight⟩ := hsame q (List.mem_append_left _ hq)
    refine (sameStack_pop_iterate hshort.pop 1).2 ?_
    rw [Path.height_pop, hheight]
  · obtain ⟨hshort, hheight⟩ := hsame last (List.mem_append_right _ (List.mem_singleton.2 rfl))
    refine (sameStack_pop_iterate hshort.pop.pop 2).2 ?_
    rw [Path.height_pop, Path.height_pop, hheight]
    omega

theorem unwinds_loopFrom {limit : Nat} {depth : Int} {enter : Eval Unit} {forks : Bool} {body orelse : Analysis}
    (he : Eval.Pushes enter) (hb : Restores body) (hrb : Regional body) (hd : Decides forks body) (ho : Restores orelse)
    (hro : Regional orelse) {p : Path} {out : List Path} (h : Leads (loopFrom limit depth enter body orelse) p out) :
    ∃ turns skipped, Unwinds forks p turns skipped ∧ out = turns.flatten ++ skipped := by
  obtain ⟨found, skipped, hfound, hskipped, rfl⟩ := leads_loopFrom h
  obtain ⟨turns, hne, hturns, rfl⟩ := leads_search_turns hfound
  refine ⟨turns, leaveLoop skipped, ⟨hne, fun i turn hturn => ?_, sameStack_leaveLoop ho hro hskipped⟩, rfl⟩
  exact sameStack_turn he hb hrb hd (hturns i turn hturn)

/-- The last path that skips a loop has lost a level, if there was one. -/
theorem Unwinds.restored_iff {forks : Bool} {p : Path} {turns : List (List Path)} {skipped : List Path}
    (h : Unwinds forks p turns skipped) :
    (∀ q ∈ turns.flatten ++ skipped, SameStack p.control q.control) ↔ p.control = [] := by
  obtain ⟨init, last, rfl, hinit, hlast⟩ := h.skip
  constructor
  · intro hall
    have hsame := List.Forall₂.length_eq (hall last (by simp))
    have hlost := List.Forall₂.length_eq hlast
    change p.pop.pop.height = _ at hlost
    rw [← hsame, Path.height_pop, Path.height_pop] at hlost
    change p.height - 1 - 1 = p.height at hlost
    refine List.eq_nil_of_length_eq_zero ?_
    show p.height = 0
    omega
  · intro hnil
    have hpop : ∀ n, (Path.pop^[n] p).control = p.control := fun n => by
      rw [p.control_pop_iterate n, hnil, List.take_nil]
    intro q hq
    rcases List.mem_append.1 hq with hq | hq
    · obtain ⟨turn, hturn, hq⟩ := List.mem_flatten.1 hq
      obtain ⟨i, hi⟩ := List.mem_iff_getElem?.1 hturn
      have hsame := (h.turn i turn hi).2 q hq
      rwa [hpop] at hsame
    · rcases List.mem_append.1 hq with hq | hq
      · have hsame := hinit q hq
        rwa [show p.pop.control = p.control from hpop 1] at hsame
      · rw [List.mem_singleton.1 hq]
        rwa [show p.pop.pop.control = p.control from hpop 2] at hlast

end Analysis

open Analysis

/-! ## Statements -/

mutual

theorem Stmt.decides_analyse [SetOrder] (edition : Edition) (limit : Nat) : ∀ s : Stmt,
    Decides s.forks (s.analyse edition limit)
  | .skip => by
    rw [Stmt.analyse.eq_def]
    exact decides_idle
  | .block body => by
    rw [Stmt.analyse.eq_def]
    exact Stmt.decides_analyseBlock edition limit body
  | .assign targets value spot => by
    rw [Stmt.analyse.eq_def]
    exact decides_onEach _
  | .annotated target value spot => by
    rw [Stmt.analyse.eq_def]
    cases edition
    · exact decides_idle
    · exact decides_onEach _
  | .augmented target current value spot => by
    rw [Stmt.analyse.eq_def]
    cases edition
    · exact decides_idle
    · exact decides_onEach _
  | .eval value => by
    rw [Stmt.analyse.eq_def]
    exact decides_onEach _
  | .branch test body orelse => by
    rw [Stmt.analyse.eq_def]
    exact decides_fork _ _ _ [] []
  | .loop test body orelse => by
    rw [Stmt.analyse.eq_def]
    exact decides_loop _ _ _ _ _
  | .each target iter body orelse spot => by
    rw [Stmt.analyse.eq_def]
    exact decides_loop _ _ _ _ _
  | .fails fault => by
    rw [Stmt.analyse.eq_def]
    intro paths report new? h
    cases h

theorem Stmt.decides_analyseBlock [SetOrder] (edition : Edition) (limit : Nat) : ∀ body : List Stmt,
    Decides (Stmt.anyForks body) (Stmt.analyseBlock edition limit body)
  | [] => by
    rw [Stmt.analyseBlock.eq_def]
    exact decides_idle
  | s :: rest => by
    rw [Stmt.analyseBlock.eq_def]
    exact (Stmt.decides_analyse edition limit s).andThen (Stmt.decides_analyseBlock edition limit rest)

end

/-- A loop whose parts restore the stack leads each path to the paths of its rounds, and to those that skip the loop. If
the body forks, the paths of the rounds have the stack that was given; if not, they lack one level for each
iteration. The paths that skip the loop lack one level, and the last of them two. So the stack of a path is
restored exactly if it is empty. -/
theorem loop_restores_stacks_iff [SetOrder] (edition : Edition) (limit : Nat) (header : Header) {body orelse : Stmt}
    (hbody : Restores (body.analyse edition limit)) (horelse : Restores (orelse.analyse edition limit))
    {paths out : List Path} {report : Report}
    (h : ((header.loop body orelse).analyse edition limit paths report).paths? = .ok out) :
    ∃ parts, List.Forall₂ (fun p part => Leads (outcome ((header.loop body orelse).analyse edition limit)) [p] part ∧
        (∃ turns skipped, Unwinds body.forks p turns skipped ∧ part = turns.flatten ++ skipped) ∧
        ((∀ q ∈ part, SameStack p.control q.control) ↔ p.control = [])) paths parts ∧
      out = parts.flatten := by
  have hleads := leads_of_paths? h
  rw [header.analyse_loop] at hleads ⊢
  obtain ⟨parts, hparts, rfl⟩ := leads_loop_each hleads
  refine ⟨parts, hparts.imp fun p part hpart => ⟨hpart.1, ?_⟩, rfl⟩
  obtain ⟨turns, skipped, hunwinds, rfl⟩ := unwinds_loopFrom (header.pushes_enter edition) hbody
    (body.regional_analyse edition limit) (body.decides_analyse edition limit) horelse
    (orelse.regional_analyse edition limit) hpart.2
  exact ⟨⟨turns, skipped, hunwinds, rfl⟩, hunwinds.restored_iff⟩

/-- `while c: (if b: x = 0)` with two conditions around it: the paths of the rounds keep both, and the path that skips
the loop keeps none. -/
theorem rounds_of_branching_body_keep_stack :
    let a : Pattern := { name := "A", sources := ["get"], sinks := ["sink"], modes := [], implicit := true }
    let m : Taint := (Path.start [a]).addSource (Path.start [a]).clean "get" { line := 1 }
    let p : Path := ((Path.start [a]).push m).push m
    let body : Stmt := .block [.branch (.name "b" { line := 3 }) (.block [.assign [.name "x"] .inert { line := 4 }])
      (.block [])]
    let header : Header := .test (.name "c" { line := 2 })
    let s : Stmt := header.loop body (.block [])
    ∃ out, (s.analyse .plain 5 [p] {}).paths? = .ok out ∧ out.map (·.height) = [2, 2, 2, 2, 2, 2, 0] ∧
      ∃ turns skipped, Unwinds true p turns skipped ∧ out = turns.flatten ++ skipped := by
  intro a m p body header s
  have hheights : (s.analyse .plain 5 [p] {}).paths?.toOption.map (·.map (·.height)) =
      some [2, 2, 2, 2, 2, 2, 0] := by
    decide +kernel
  obtain ⟨out, hout, hheights⟩ := ok_of_toOption_map hheights
  obtain ⟨parts, hparts, rfl⟩ := loop_restores_stacks_iff .plain 5 header
    (Stmt.restores_of_steady rfl) (Stmt.restores_of_steady rfl) hout
  cases hparts with
  | cons hpart hrest =>
    cases hrest
    obtain ⟨-, ⟨turns, skipped, hunwinds, rfl⟩, -⟩ := hpart
    exact ⟨_, hout, hheights, turns, skipped, hunwinds, List.flatten_singleton⟩

/-- `z = 0; b = 0; if t: z = 0`, and then `sink(z)`: there is an implicit flow of `t` to the sink. With a loop before
the assignment in the branch, `while b: x = 0` or `for i in b: x = 0`, the flow is not recorded, since the loop takes
the label of `t` off the stack. -/
theorem flow_lost_after_loops :
    let a : Pattern := { name := "A", sources := ["get"], sinks := ["sink"], modes := [], implicit := true }
    let put (x : String) (line : Int) : Stmt := .assign [.name x] .inert { line }
    let program (inner : List Stmt) : Stmt := .block [put "z" 1, put "b" 2,
      .branch (.name "t" { line := 3 }) (.block (inner ++ [put "z" 6])) (.block []),
      .eval (.call "" "sink" [.name "z" { line := 7 }] { line := 7 })]
    let loops : List Stmt := [.loop (.name "b" { line := 4 }) (.block [put "x" 5]) (.block []),
      .each (.name "i") (.name "b" { line := 4 }) (.block [put "x" 5]) (.block []) { line := 4 }]
    let subject : Subject := ⟨"A", "t", { line := 3 }, "sink", { line := 7 }⟩
    (analyseProgram .plain 5 [a] (program [])).2.report.Recorded subject .implicit [] ∧
      ∀ edition, ∀ s ∈ loops, (analyseProgram edition 5 [a] (program [s])).1 = none ∧
        (analyseProgram edition 5 [a] (program [s])).2.report.findings.isEmpty = true := by
  intro a put program loops subject
  refine ⟨Report.recorded_iff.2 (by decide +kernel), fun edition => ?_⟩
  cases edition <;> decide +kernel

end TaintFlow
