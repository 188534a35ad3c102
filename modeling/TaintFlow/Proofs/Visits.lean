import TaintFlow.Proofs.Counting

/-
The states at which the rounds of loops end. The searches of a program decide by these states whether to go
on, so whether an analysis stops is a question about them alone.

An analysis with a limit is a family of runs, one for each limit. A family is `Watched` together with the
states it visits if two things hold: once a limit is large enough for a result, larger limits give the same
result and visit the same states; and if the states visited at large limits have some property, there is such a
limit. The laws carry this through the parts of an analysis. They leave open what the property is; the search
of a loop needs one that finitely many states have which a search tells apart.
-/
namespace TaintFlow

open Filter

/-! ## The states visited -/

namespace Analysis

/-- The states visited by parts of the program that are run one after the other on each path of a branch. -/
def forkVisits (enter : Eval Unit) (body orelse : Analysis) (bodyVisits orelseVisits : List Path → Report → List Path) :
    List Path → Report → List Path
  | [], _ => []
  | p :: rest, report =>
    match enter.run ⟨{ p with scope := p.scope + 1 }, report⟩ with
    | (.error _, _) => []
    | (.ok (), w) =>
      let yes := body [w.path.fork] w.report
      bodyVisits [w.path.fork] w.report ++ match yes.paths? with
        | .error _ => []
        | .ok _ =>
          let no := orelse [w.path.fork] yes.report
          orelseVisits [w.path.fork] yes.report ++ match no.paths? with
            | .error _ => []
            | .ok _ => forkVisits enter body orelse bodyVisits orelseVisits rest no.report

def iterationVisits (enter : Eval Unit) (bodyVisits : List Path → Report → List Path) (p : Path) (report : Report) :
    List Path :=
  match enter.run ⟨p, report⟩ with
  | (.error _, _) => []
  | (.ok (), w) => bodyVisits [w.path] w.report

def iterateVisits (step : Walk) (stepVisits : Path → Report → List Path) : List Path → Report → List Path
  | [], _ => []
  | p :: rest, report =>
    stepVisits p report ++ match step p report with
      | (.error _, _) => []
      | (.ok _, report) => iterateVisits step stepVisits rest report

def unrollVisits (step : Walk) (stepVisits : Path → Report → List Path) : Nat → List Path → Report → List Path
  | 0, _, _ => []
  | n + 1, paths, report =>
    iterateVisits step stepVisits paths report ++ match iterate step paths report with
      | (.error _, _) => []
      | (.ok paths, report) => unrollVisits step stepVisits n paths report

/-- The states visited by a search: those that its rounds visit, and those at which its rounds end. -/
def settleVisits (same : Path → Path → Bool) (unrolled : Nat → Report → Except Fault (List Path) × Report)
    (visits : Nat → Report → List Path) : (limit n : Nat) → (seen : List Path) → Report → List Path
  | 0, _, _, _ => []
  | limit + 1, n, seen, report =>
    visits (n + 1) report ++ match unrolled (n + 1) report with
      | (.error _, _) => []
      | (.ok paths, report) =>
        let seen' := addNew same seen paths
        paths ++ if seen'.length = seen.length then []
          else settleVisits same unrolled visits limit (n + 1) seen' report

def searchVisits (limit : Nat) (depth : Int) (enter : Eval Unit) (body : Analysis)
    (bodyVisits : List Path → Report → List Path) (p : Path) (report : Report) : List Path :=
  settleVisits Path.same (rounds depth enter body (entry depth p))
    (fun n => unrollVisits (iteration enter body) (iterationVisits enter bodyVisits) n [entry depth p])
    limit 0 [] report

def loopVisits (limit : Nat) (depth : Int) (enter : Eval Unit) (body : Analysis)
    (bodyVisits orelseVisits : List Path → Report → List Path) (p : Path) (report : Report) : List Path :=
  searchVisits limit depth enter body bodyVisits p report ++ match search limit depth enter body p report with
    | (.error _, _) => []
    | (.ok _, report) => orelseVisits [entry depth p] report

end Analysis

mutual

/-- The states at which the rounds of the loops of a statement end. -/
def Stmt.visits [SetOrder] (edition : Edition) (limit : Nat) : Stmt → List Path → Report → List Path
  | .block body => Stmt.visitsBlock edition limit body
  | .branch test body orelse =>
    Analysis.forkVisits (Eval.enterTest edition test) (body.analyse edition limit) (orelse.analyse edition limit)
      (body.visits edition limit) (orelse.visits edition limit)
  | .loop test body orelse =>
    Analysis.iterateVisits
      (Analysis.loopFrom limit 0 (Eval.enterTest edition test) (body.analyse edition limit)
        (orelse.analyse edition limit))
      (Analysis.loopVisits limit 0 (Eval.enterTest edition test) (body.analyse edition limit)
        (body.visits edition limit) (orelse.visits edition limit))
  | .each target iter body orelse spot =>
    Analysis.iterateVisits
      (Analysis.loopFrom limit 1 (Eval.enterItem edition target iter { line := spot.line }) (body.analyse edition limit)
        (orelse.analyse edition limit))
      (Analysis.loopVisits limit 1 (Eval.enterItem edition target iter { line := spot.line })
        (body.analyse edition limit) (body.visits edition limit) (orelse.visits edition limit))
  | _ => fun _ _ => []

def Stmt.visitsBlock [SetOrder] (edition : Edition) (limit : Nat) : List Stmt → List Path → Report → List Path
  | [] => fun _ _ => []
  | s :: rest => fun paths report =>
    let r := s.analyse edition limit paths report
    s.visits edition limit paths report ++ match r.paths? with
      | .error _ => []
      | .ok next => Stmt.visitsBlock edition limit rest next r.report

end

/-! ## Families of runs -/

/-- A family of runs, with the states they visit: results last, and there is one if the visited states have the
property `P`. `bad` are the results of runs that reached their limit. -/
structure Watched {ρ : Type} (P : Path → Prop) (bad : ρ → Prop) (run : Nat → ρ) (visits : Nat → List Path) : Prop where
  stable : ∀ limit limit', limit ≤ limit' → ¬ bad (run limit) →
    run limit' = run limit ∧ visits limit' = visits limit
  halts : (∀ᶠ limit in atTop, ∀ q ∈ visits limit, P q) → ∃ y, ¬ bad y ∧ ∀ᶠ limit in atTop, run limit = y

/-- The walk reached its limit. -/
def Unsettled {α β : Type} (x : Except Fault α × β) : Prop := x.1 = .error .unsettled

/-- The run reached its limit. -/
def Run.Unsettled (r : Run) : Prop := r.result = .error .unsettled

namespace Watched

variable {ρ σ : Type} {P : Path → Prop} {bad : ρ → Prop} {bad' : σ → Prop} {run : Nat → ρ} {visits : Nat → List Path}

theorem const {y : ρ} (h : ¬ bad y) : Watched P bad (fun _ => y) (fun _ => []) :=
  ⟨fun _ _ _ _ => ⟨rfl, rfl⟩, fun _ => ⟨y, h, .of_forall fun _ => rfl⟩⟩

/-- A run that makes something of the result of another. -/
theorem map {run' : Nat → σ} (h : Watched P bad run visits)
    (hmap : ∀ y, ∃ z, (∀ limit, run limit = y → run' limit = z) ∧ (bad' z ↔ bad y)) : Watched P bad' run' visits := by
  refine ⟨fun limit limit' hle hgood => ?_, fun hP => ?_⟩
  · obtain ⟨z, heq, hz⟩ := hmap (run limit)
    rw [heq limit rfl, hz] at hgood
    obtain ⟨hrun, hvisits⟩ := h.stable limit limit' hle hgood
    exact ⟨(heq limit' hrun).trans (heq limit rfl).symm, hvisits⟩
  · obtain ⟨y, hy, hrun⟩ := h.halts hP
    obtain ⟨z, heq, hz⟩ := hmap y
    exact ⟨z, fun hb => hy (hz.1 hb), hrun.mono heq⟩

/-- A run that goes on with the result of another. Where the first has a result, the whole is a family of its
own, `next`. -/
theorem bind {run' : Nat → σ} {rest : Nat → List Path} (h : Watched P bad run visits)
    (hbad : ∀ limit, bad (run limit) → bad' (run' limit))
    (hnext : ∀ limit y, run limit = y → ¬ bad y → ∃ next nextVisits,
      (∀ limit, run limit = y → run' limit = next limit ∧ rest limit = nextVisits limit) ∧
        Watched P bad' next nextVisits) :
    Watched P bad' run' (fun limit => visits limit ++ rest limit) := by
  refine ⟨fun limit limit' hle hgood => ?_, fun hP => ?_⟩
  · have hy : ¬ bad (run limit) := fun hb => hgood (hbad limit hb)
    obtain ⟨hrun, hvisits⟩ := h.stable limit limit' hle hy
    obtain ⟨next, nextVisits, heq, hwatched⟩ := hnext limit _ rfl hy
    obtain ⟨hlow, hlow'⟩ := heq limit rfl
    obtain ⟨hhigh, hhigh'⟩ := heq limit' hrun
    rw [hlow] at hgood ⊢
    obtain ⟨hsame, hsame'⟩ := hwatched.stable limit limit' hle hgood
    rw [hhigh, hhigh', hlow', hvisits, hsame, hsame']
    exact ⟨rfl, rfl⟩
  · obtain ⟨y, hy, hrun⟩ := h.halts (hP.mono fun limit hq q hmem => hq q (List.mem_append.2 (.inl hmem)))
    obtain ⟨limit, hlimit⟩ := hrun.exists
    obtain ⟨next, nextVisits, heq, hwatched⟩ := hnext limit y hlimit hy
    have hnextP : ∀ᶠ limit in atTop, ∀ q ∈ nextVisits limit, P q := by
      filter_upwards [hP, hrun] with limit hq hlimit q hmem
      exact hq q (List.mem_append.2 (.inr ((heq limit hlimit).2 ▸ hmem)))
    obtain ⟨z, hz, hrest⟩ := hwatched.halts hnextP
    refine ⟨z, hz, ?_⟩
    filter_upwards [hrun, hrest] with limit hlimit hlast
    rw [(heq limit hlimit).1, hlast]

end Watched

/-! ## The parts of an analysis -/

theorem Run.paths?_eq_error {r : Run} {f : Fault} : r.paths? = .error f ↔ r.result = .error f := by
  obtain ⟨given, report, result⟩ := r
  cases result with
  | error g => exact ⟨fun h => by cases h; rfl, fun h => by cases h; rfl⟩
  | ok new => cases new <;> exact ⟨nofun, nofun⟩

namespace Analysis

variable {P : Path → Prop}

theorem watched_andThen {a b : Nat → Analysis} {aVisits bVisits : Nat → List Path → Report → List Path}
    {paths : List Path} {r : Report}
    (ha : Watched P Run.Unsettled (fun limit => a limit paths r) (fun limit => aVisits limit paths r))
    (hb : ∀ limit next r', (a limit paths r).paths? = .ok next →
      Watched P Run.Unsettled (fun limit => b limit next r') (fun limit => bVisits limit next r')) :
    Watched P Run.Unsettled (fun limit => (a limit paths r).andThen (b limit))
      (fun limit => aVisits limit paths r ++ match (a limit paths r).paths? with
        | .error _ => []
        | .ok next => bVisits limit next (a limit paths r).report) := by
  refine ha.bind (fun limit h => ?_) ?_
  · generalize a limit paths r = y at h ⊢
    obtain ⟨given, r', result⟩ := y
    cases h
    rfl
  · rintro limit ⟨given, r', result⟩ hy hgood
    have hb := hb limit
    rw [hy] at hb
    cases result with
    | error f => exact ⟨_, _, fun limit hlimit => by rw [hlimit]; exact ⟨rfl, rfl⟩, .const hgood⟩
    | ok new => cases new with
      | none => exact ⟨_, _, fun limit hlimit => by rw [hlimit]; exact ⟨rfl, rfl⟩, hb given r' rfl⟩
      | some new =>
        refine ⟨_, _, fun limit hlimit => by rw [hlimit]; exact ⟨rfl, rfl⟩, ?_⟩
        refine (hb new r' rfl).map fun y => ⟨⟨given, y.report, y.paths?.map some⟩, fun limit hlimit => ?_, ?_⟩
        · rw [← hlimit]
          rfl
        · show y.paths?.map some = .error .unsettled ↔ y.result = .error .unsettled
          rw [← Run.paths?_eq_error]
          cases y.paths? <;> simp [Except.map]

theorem watched_fork {enter : Eval Unit} {body orelse : Nat → Analysis}
    {bodyVisits orelseVisits : Nat → List Path → Report → List Path} {Q : Path → Prop}
    (he : ∀ p r, Q p → ¬ Unsettled (enter.run ⟨{ p with scope := p.scope + 1 }, r⟩))
    (hbody : ∀ p r w, Q p → enter.run ⟨{ p with scope := p.scope + 1 }, r⟩ = (.ok (), w) → ∀ r',
      Watched P Run.Unsettled (fun limit => body limit [w.path.fork] r')
        (fun limit => bodyVisits limit [w.path.fork] r') ∧
      Watched P Run.Unsettled (fun limit => orelse limit [w.path.fork] r')
        (fun limit => orelseVisits limit [w.path.fork] r')) :
    ∀ (paths done new : List Path) (r : Report), (∀ p ∈ paths, Q p) →
      Watched P Run.Unsettled (fun limit => fork enter (body limit) (orelse limit) done new paths r)
        (fun limit => forkVisits enter (body limit) (orelse limit) (bodyVisits limit) (orelseVisits limit) paths r)
  | [], _, _, _, _ => .const nofun
  | p :: rest, done, new, r, hQ => by
    have hp := hQ p (List.mem_cons_self ..)
    have henter := he p r hp
    have hinner := hbody p r
    simp only [fork, forkVisits]
    generalize enter.run ⟨{ p with scope := p.scope + 1 }, r⟩ = x at henter hinner
    obtain ⟨result, w⟩ := x
    cases result with
    | error f => exact .const fun hb => henter (congrArg Except.error (Except.error.inj hb))
    | ok _ =>
      dsimp only
      refine (hinner w hp rfl w.report).1.bind (fun limit h => ?_) ?_
      · rw [Run.paths?_eq_error.2 h]
        rfl
      · intro limit yes hyes hgood
        cases hpaths : yes.paths? with
        | error f =>
          refine ⟨_, _, fun limit hlimit => by rw [hlimit, hpaths]; exact ⟨rfl, rfl⟩, .const ?_⟩
          exact fun h => hgood (Run.paths?_eq_error.1 (hpaths.trans (congrArg _ (Except.error.inj h))))
        | ok out =>
          refine ⟨_, _, fun limit hlimit => by rw [hlimit, hpaths]; exact ⟨rfl, rfl⟩, ?_⟩
          refine (hinner w hp rfl yes.report).2.bind (fun limit h => ?_) ?_
          · dsimp only
            rw [Run.paths?_eq_error.2 h]
            rfl
          · intro limit no hno hgood
            cases hpaths : no.paths? with
            | error f =>
              refine ⟨_, _, fun limit hlimit => by rw [hlimit, hpaths]; exact ⟨rfl, rfl⟩, .const ?_⟩
              exact fun h => hgood (Run.paths?_eq_error.1 (hpaths.trans (congrArg _ (Except.error.inj h))))
            | ok out' =>
              refine ⟨_, _, fun limit hlimit => by rw [hlimit, hpaths]; exact ⟨rfl, rfl⟩, ?_⟩
              exact watched_fork he hbody rest _ _ _ fun p' hp' => hQ p' (List.mem_cons_of_mem _ hp')

theorem watched_iteration {enter : Eval Unit} {body : Nat → Analysis}
    {bodyVisits : Nat → List Path → Report → List Path} {p : Path} {r : Report} (he : ¬ Unsettled (enter.run ⟨p, r⟩))
    (hbody : ∀ w, enter.run ⟨p, r⟩ = (.ok (), w) → Watched P Run.Unsettled (fun limit => body limit [w.path] w.report)
      (fun limit => bodyVisits limit [w.path] w.report)) :
    Watched P Unsettled (fun limit => iteration enter (body limit) p r)
      (fun limit => iterationVisits enter (bodyVisits limit) p r) := by
  simp only [iteration, iterationVisits]
  generalize enter.run ⟨p, r⟩ = x at he hbody
  obtain ⟨result, w⟩ := x
  cases result with
  | error f => exact .const fun hb => he (congrArg Except.error (Except.error.inj hb))
  | ok _ =>
    refine (hbody w rfl).map ?_
    rintro ⟨given, r', result⟩
    unfold Unsettled Run.Unsettled
    rcases result with f | _ | new <;> refine ⟨_, fun limit hlimit => by dsimp only; rw [hlimit], ?_⟩ <;> simp

section Walks

variable {step : Nat → Walk} {stepVisits : Nat → Path → Report → List Path} {Q : Path → Prop}
  (hstep : ∀ p r, Q p → Watched P Unsettled (fun limit => step limit p r) (fun limit => stepVisits limit p r))

include hstep

theorem watched_iterate : ∀ (paths : List Path) (r : Report), (∀ p ∈ paths, Q p) →
    Watched P Unsettled (fun limit => iterate (step limit) paths r)
      (fun limit => iterateVisits (step limit) (stepVisits limit) paths r)
  | [], _, _ => .const nofun
  | p :: rest, r, hQ => by
    simp only [iterate, iterateVisits]
    refine (hstep p r (hQ p (List.mem_cons_self ..))).bind (fun limit h => ?_) ?_
    · generalize step limit p r = x at h ⊢
      obtain ⟨out, r'⟩ := x
      cases h
      rfl
    · rintro limit ⟨first, r'⟩ _ hgood
      cases first with
      | error f => exact ⟨_, _, fun limit hlimit => by rw [hlimit]; exact ⟨rfl, rfl⟩, .const hgood⟩
      | ok first =>
        refine ⟨_, _, fun limit hlimit => by rw [hlimit]; exact ⟨rfl, rfl⟩, ?_⟩
        have hrest := watched_iterate rest r' fun p hp => hQ p (List.mem_cons_of_mem _ hp)
        refine hrest.map ?_
        rintro ⟨others, r''⟩
        unfold Unsettled
        cases others <;> refine ⟨_, fun limit hlimit => by dsimp only; rw [hlimit], ?_⟩ <;> simp

theorem watched_unroll (hQ : ∀ limit, Keeps Q (step limit)) : ∀ (n : Nat) (paths : List Path) (r : Report),
    (∀ p ∈ paths, Q p) → Watched P Unsettled (fun limit => unroll (step limit) n paths r)
      (fun limit => unrollVisits (step limit) (stepVisits limit) n paths r)
  | 0, _, _, _ => .const nofun
  | n + 1, paths, r, hp => by
    simp only [unroll, unrollVisits]
    refine (watched_iterate hstep paths r hp).bind (fun limit h => ?_) ?_
    · generalize iterate (step limit) paths r = x at h ⊢
      obtain ⟨out, r'⟩ := x
      cases h
      rfl
    · rintro limit ⟨out, r'⟩ hlimit hgood
      cases out with
      | error f => exact ⟨_, _, fun limit hlimit => by rw [hlimit]; exact ⟨rfl, rfl⟩, .const hgood⟩
      | ok out =>
        refine ⟨_, _, fun limit hlimit => by rw [hlimit]; exact ⟨rfl, rfl⟩, ?_⟩
        exact watched_unroll hQ n out r' (iterate_ok (hQ limit) hp hlimit)

end Walks

/-! ## The search of a loop -/

section Search

variable {same : Path → Path → Bool} {unrolled : Nat → Nat → Report → Except Fault (List Path) × Report}
  {visits : Nat → Nat → Report → List Path}
  (hu : ∀ n r, Watched P Unsettled (fun limit => unrolled limit (n + 1) r) (fun limit => visits limit (n + 1) r))

include hu

/-- A search that stopped stops in the same way with a larger limit. -/
theorem settle_stable {limit limit' : Nat} (hle : limit ≤ limit') : ∀ (fuel fuel' n : Nat) (seen found : List Path)
    (r : Report), fuel ≤ fuel' → ¬ Unsettled (settle same (unrolled limit) fuel n seen found r) →
    settle same (unrolled limit') fuel' n seen found r = settle same (unrolled limit) fuel n seen found r ∧
      settleVisits same (unrolled limit') (visits limit') fuel' n seen r =
        settleVisits same (unrolled limit) (visits limit) fuel n seen r
  | 0, _, _, _, _, _, _, hgood => absurd rfl hgood
  | fuel + 1, 0, _, _, _, _, hfuel, _ => absurd hfuel (Nat.not_succ_le_zero _)
  | fuel + 1, fuel' + 1, n, seen, found, r, hfuel, hgood => by
    have hround := (hu n r).stable limit limit' hle
    rw [settle] at hgood
    rw [settle, settle, settleVisits, settleVisits]
    generalize unrolled limit (n + 1) r = x at hround hgood ⊢
    obtain ⟨out, r'⟩ := x
    -- this round did not run out of its limit either, or the search would not have stopped
    cases out with
    | error f =>
      obtain ⟨hrun, hvisits⟩ := hround hgood
      rw [hrun, hvisits]
      exact ⟨rfl, rfl⟩
    | ok out =>
      obtain ⟨hrun, hvisits⟩ := hround fun h => by cases h
      rw [hrun, hvisits]
      dsimp only at hgood ⊢
      split at hgood
      · rename_i hstop
        rw [if_pos hstop, if_pos hstop, if_pos hstop, if_pos hstop]
        exact ⟨rfl, rfl⟩
      · rename_i hstop
        rw [if_neg hstop, if_neg hstop, if_neg hstop, if_neg hstop]
        obtain ⟨hrest, hrest'⟩ := settle_stable hle fuel fuel' (n + 1) (addNew same seen out) (found ++ out) r'
          (Nat.le_of_succ_le_succ hfuel) hgood
        rw [hrest, hrest']
        exact ⟨rfl, rfl⟩

/-- A search whose rounds come to results does so too, if among the states that may end a round and have the
property not arbitrarily many are told apart. -/
theorem watched_settle {Q : Path → Prop} {N : Nat}
    (hN : ∀ l : List Path, (∀ p ∈ l, Q p ∧ P p) → l.Pairwise (fun p q => same q p = false) → l.length ≤ N)
    (hout : ∀ limit n r out r', unrolled limit (n + 1) r = (.ok out, r') → ∀ q ∈ out, Q q) (r : Report) :
    Watched P Unsettled (fun limit => settle same (unrolled limit) limit 0 [] [] r)
      (fun limit => settleVisits same (unrolled limit) (visits limit) limit 0 [] r) := by
  refine ⟨fun limit limit' hle => settle_stable hu hle limit limit' 0 [] [] r hle, fun hP => ?_⟩
  refine @settle_halts same (fun q => Q q ∧ P q) N hN unrolled (fun n seen _ r => ∀ᶠ limit in atTop,
    ∀ q ∈ settleVisits same (unrolled limit) (visits limit) (limit - n) n seen r, P q) ?_ 0 [] [] r hP
    (List.forall_mem_nil _) .nil
  intro n seen found r hI
  -- the states visited by the next round, at large limits
  have hunfold : ∀ᶠ limit in atTop, settleVisits same (unrolled limit) (visits limit) (limit - n) n seen r =
      settleVisits same (unrolled limit) (visits limit) (limit - (n + 1) + 1) n seen r := by
    filter_upwards [eventually_gt_atTop n] with limit hn
    rw [show limit - n = limit - (n + 1) + 1 by omega]
  obtain ⟨x, hx, hround⟩ := (hu n r).halts <| by
    filter_upwards [hI, hunfold] with limit hq heq q hmem
    rw [heq, settleVisits] at hq
    exact hq q (List.mem_append.2 (.inl hmem))
  refine ⟨x, hx, hround, ?_⟩
  rintro out r' rfl
  have htail : ∀ᶠ limit in atTop, unrolled limit (n + 1) r = (.ok out, r') ∧
      ∀ q ∈ out ++ if (addNew same seen out).length = seen.length then [] else
        settleVisits same (unrolled limit) (visits limit) (limit - (n + 1)) (n + 1) (addNew same seen out) r', P q := by
    filter_upwards [hI, hunfold, hround] with limit hq heq hlimit
    rw [heq, settleVisits, hlimit] at hq
    exact ⟨hlimit, fun q hmem => hq q (List.mem_append.2 (.inr hmem))⟩
  obtain ⟨limit, hlimit, hP⟩ := htail.exists
  refine ⟨fun q hq => ⟨hout limit n r out r' hlimit q hq, hP q (List.mem_append.2 (.inl hq))⟩, fun hstop => ?_⟩
  filter_upwards [htail] with limit hlimit q hmem
  rw [if_neg hstop] at hlimit
  exact hlimit.2 q (List.mem_append.2 (.inr hmem))

end Search

/-! ## Loops -/

section Loop

variable {depth : Int} {enter : Eval Unit} {body orelse : Nat → Analysis}
  {bodyVisits orelseVisits : Nat → List Path → Report → List Path} {Q : Path → Prop}

theorem watched_rounds
    (hstep : ∀ p r, Q p → Watched P Unsettled (fun limit => iteration enter (body limit) p r)
      (fun limit => iterationVisits enter (bodyVisits limit) p r))
    (hQ : ∀ limit, Keeps Q (iteration enter (body limit))) {start : Path} (hstart : Q start) (depth : Int)
    (n : Nat) (r : Report) :
    Watched P Unsettled (fun limit => rounds depth enter (body limit) start n r)
      (fun limit => unrollVisits (iteration enter (body limit)) (iterationVisits enter (bodyVisits limit)) n
        [start] r) := by
  refine (watched_unroll hstep hQ n [start] r (List.forall_mem_singleton.2 hstart)).map ?_
  rintro ⟨out, r'⟩
  unfold Unsettled
  cases out <;> refine ⟨_, fun limit hlimit => by unfold rounds; rw [hlimit], ?_⟩ <;> simp

theorem watched_loopFrom {p : Path} {r : Report}
    (hsearch : Watched P Unsettled (fun limit => search limit depth enter (body limit) p r)
      (fun limit => searchVisits limit depth enter (body limit) (bodyVisits limit) p r))
    (horelse : ∀ r', Watched P Run.Unsettled (fun limit => orelse limit [entry depth p] r')
      (fun limit => orelseVisits limit [entry depth p] r')) :
    Watched P Unsettled (fun limit => loopFrom limit depth enter (body limit) (orelse limit) p r)
      (fun limit => loopVisits limit depth enter (body limit) (bodyVisits limit) (orelseVisits limit) p r) := by
  unfold loopVisits
  refine hsearch.bind (fun limit h => ?_) ?_
  · unfold loopFrom
    generalize search limit depth enter (body limit) p r = x at h ⊢
    obtain ⟨out, r'⟩ := x
    cases h
    rfl
  · rintro limit ⟨out, r'⟩ - hgood
    cases out with
    | error f => exact ⟨_, _, fun limit hlimit => by unfold loopFrom; rw [hlimit]; exact ⟨rfl, rfl⟩, .const hgood⟩
    | ok found =>
      refine ⟨_, _, fun limit hlimit => by unfold loopFrom; rw [hlimit]; exact ⟨rfl, rfl⟩, ?_⟩
      refine (horelse r').map fun y => ?_
      cases hpaths : y.paths? with
      | error f =>
        refine ⟨_, fun limit hlimit => by dsimp only; rw [hlimit, hpaths], ?_⟩
        unfold Unsettled Run.Unsettled
        rw [Run.paths?_eq_error.1 hpaths]
        simp
      | ok skipped =>
        refine ⟨_, fun limit hlimit => by dsimp only; rw [hlimit, hpaths], ?_⟩
        refine ⟨nofun, fun h => ?_⟩
        cases hpaths.symm.trans (Run.paths?_eq_error.2 h)

theorem watched_loop
    (hfrom : ∀ p r, Q p → Watched P Unsettled
      (fun limit => loopFrom limit depth enter (body limit) (orelse limit) p r)
      (fun limit => loopVisits limit depth enter (body limit) (bodyVisits limit) (orelseVisits limit) p r))
    (paths : List Path) (r : Report) (hp : ∀ p ∈ paths, Q p) :
    Watched P Run.Unsettled (fun limit => loop limit depth enter (body limit) (orelse limit) paths r)
      (fun limit => iterateVisits (loopFrom limit depth enter (body limit) (orelse limit))
        (loopVisits limit depth enter (body limit) (bodyVisits limit) (orelseVisits limit)) paths r) := by
  refine (watched_iterate hfrom paths r hp).map ?_
  rintro ⟨out, r'⟩
  unfold Unsettled Run.Unsettled
  cases out <;> refine ⟨_, fun limit hlimit => by dsimp only [loop]; rw [hlimit], ?_⟩ <;> simp [Run.stop]

end Loop

end Analysis

end TaintFlow
