import TaintFlow.Proofs.Completeness
import TaintFlow.Proofs.Counting

/-
What the search of a loop finds of the labels that conditions left on variables, in the plain edition. The
search does not compare these labels, and they may still be on their way through the variables when everything
that it compares has settled: so it can stop too early for them.

A search that compares them as well stops too, and misses nothing. It tells exactly when the search found the
implicit taint of every number of iterations: when each of the states it collects has the implicit taint of a
state that was found.
-/
namespace TaintFlow

open Filter Listing

/-! ## What conditions left on the variables -/

namespace Path

/-- The flows that conditions left on variables, each with the variable, the pattern name and the source. -/
def left (p : Path) : List (String × String × String × Flow) :=
  p.controlLabels.table.entries.flatMap fun e => e.2.entries.entries.flatMap fun t =>
    t.2.label.flows.entries.flatMap fun l => l.2.map fun f => (e.1, t.1, l.1, f)

theorem mem_left {p : Path} {x name s : String} {f : Flow} :
    (x, name, s, f) ∈ p.left ↔ Accord.LeftOn p.controlLabels x name s f := by
  unfold left Accord.LeftOn MultiLabel.Has Label.Holds
  simp only [List.mem_flatMap, List.mem_map, Prod.mk.injEq]
  constructor
  · rintro ⟨⟨x', m⟩, hm, ⟨name', t⟩, ht, ⟨s', flows⟩, hs, f', hf, rfl, rfl, rfl, rfl⟩
    exact ⟨m, Table.mem_entries.1 hm, t, Table.mem_entries.1 ht, flows, Table.mem_entries.1 hs, hf⟩
  · rintro ⟨m, hm, t, ht, flows, hs, hf⟩
    exact ⟨(x, m), Table.mem_entries.2 hm, (name, t), Table.mem_entries.2 ht, (s, flows), Table.mem_entries.2 hs, f, hf,
      rfl, rfl, rfl, rfl⟩

/-- Conditions left the same flows on every variable. -/
def SameImplicit (p q : Path) : Prop :=
  ∀ x name s f, Accord.LeftOn p.controlLabels x name s f ↔ Accord.LeftOn q.controlLabels x name s f

theorem sameImplicit_iff {p q : Path} : p.SameImplicit q ↔ sameMembers p.left q.left = true := by
  rw [sameMembers_iff]
  constructor
  · rintro h ⟨x, name, s, f⟩
    rw [mem_left, mem_left]
    exact h x name s f
  · intro h x name s f
    rw [← mem_left, ← mem_left]
    exact h (x, name, s, f)

instance (p q : Path) : Decidable (p.SameImplicit q) := decidable_of_iff _ sameImplicit_iff.symm

/-- The paths know the same, and conditions left the same flows on every variable. -/
def sameWithLeft (p q : Path) : Bool := p.same q && sameMembers p.left q.left

end Path

/-! ## A search that compares this too -/

namespace Accord

variable {policy : List Pattern} {strict full clear : Prop} {S : Stock}

/-- What conditions can leave on variables on a stock. -/
def leftovers (policy : List Pattern) (S : Stock) : Set (String × String × String × Flow) :=
  (S.names : Set String) ×ˢ {name | name ∈ policy.map (·.name)} ×ˢ (S.names : Set String) ×ˢ S.flows .plain 0

theorem finite_leftovers : (leftovers policy S).Finite :=
  S.names.finite_toSet.prod ((List.finite_toSet _).prod (S.names.finite_toSet.prod (S.finite_flows .plain 0)))

theorem Tamed.left_subset {p : Path} (hp : (stocked .plain policy strict full clear S).Tamed p) :
    {e | e ∈ p.left} ∈ {l | l ⊆ leftovers policy S} := by
  rintro ⟨x, name, s, f⟩ he
  obtain ⟨m, hm, t, ht, hf⟩ := Path.mem_left.1 he
  have htame := hp.controlLabels x m hm
  have hflow := htame.flows name s f ⟨t, ht, hf⟩
  exact ⟨hp.controlKeys x m hm, (htame.refs name t ht).1, hflow.1, hflow.2.1, nofun⟩

/-- On a stock, lists of bounded paths that differ in what a search compares or in what conditions left on
variables are not arbitrarily long. -/
theorem exists_bound_withLeft (hS : S.Covers policy) (bound : Nat) {C : List Taint} (hC : Settled C) :
    ∃ N, ∀ l : List Path, (∀ p ∈ l, (stocked .plain policy strict full clear S).Tamed p ∧ p.Bounded .plain bound ∧
      p.Begins C) → l.Pairwise (fun p q => q.sameWithLeft p = false) → l.length ≤ N := by
  refine exists_bound_of_finite
    ((S.finite_allows .plain policy bound C.length).finite_subsets.prod (@finite_leftovers policy S).finite_subsets)
    (fun p => ({fact | p.Shows fact}, {e | e ∈ p.left})) (fun p hp => ?_) (fun p q hp hq h => ?_)
  · exact ⟨hp.1.shows_subset hS hp.2.1 hp.2.2, hp.1.left_subset⟩
  · obtain ⟨hshows, hleft⟩ := Prod.mk.inj h
    unfold Path.sameWithLeft
    rw [hp.1.same_of_shows hq.1 hC hp.2.2 hq.2.2 hshows, Bool.true_and, sameMembers_iff]
    exact Set.ext_iff.1 hleft

theorem eventually_tame {m : Taint} (h : MultiLabel.Sound policy m) :
    ∀ᶠ S : Stock in atTop, (stocked .plain policy strict full clear S).Tame m := by
  have hall : ∀ᶠ S : Stock in atTop, ∀ e ∈ m.entries.entries, S.Refers e.2.pattern ∧
      ∀ l ∈ e.2.label.flows.entries, l.1 ∈ S.names ∧ ∀ f ∈ l.2, S.Makes .plain f := by
    refine Stock.eventually_forall_mem _ fun e he => (Stock.eventually_refers e.2.pattern).and ?_
    refine Stock.eventually_forall_mem _ fun l hl => (Stock.eventually_name l.1).and ?_
    refine Stock.eventually_forall_mem _ fun f hf => Stock.eventually_makes .plain ?_
    exact h.marks e.1 l.1 f ⟨e.2, Table.mem_entries.1 he, l.2, Table.mem_entries.1 hl, hf⟩
  filter_upwards [hall] with S hS
  refine ⟨fun name t ht => .inr (contains_blank (h.tracked name t ht)), fun name t ht => ?_, ?_, ?_⟩
  · exact ⟨h.tracked name t ht, (hS _ (Table.mem_entries.2 ht)).1⟩
  · rintro name s ⟨t, ht, hs⟩
    obtain ⟨flows, hs⟩ := Option.isSome_iff_exists.1 hs
    exact ((hS _ (Table.mem_entries.2 ht)).2 _ (Table.mem_entries.2 hs)).1
  · rintro name s f ⟨t, ht, flows, hs, hf⟩
    obtain ⟨hname, hflows⟩ := (hS _ (Table.mem_entries.2 ht)).2 _ (Table.mem_entries.2 hs)
    refine ⟨hname, hflows f hf, fun _ _ _ k hk => ?_⟩
    obtain ⟨function, line, rfl⟩ := h.marks name s f ⟨t, ht, flows, hs, hf⟩ k hk
    exact ⟨function, line, rfl, nofun⟩

theorem eventually_tamed {p : Path} (h : p.Sound) :
    ∀ᶠ S : Stock in atTop, (stocked .plain p.patterns strict full clear S).Tamed p := by
  have hlabelling : ∀ {g : Labelling PatternRef}, (∀ x m, g.get? x = some m → MultiLabel.Sound p.patterns m) →
      ∀ᶠ S : Stock in atTop, ∀ e ∈ g.table.entries,
        e.1 ∈ S.names ∧ (stocked .plain p.patterns strict full clear S).Tame e.2 := fun hg =>
    Stock.eventually_forall_mem _ fun e he =>
      (Stock.eventually_name e.1).and (eventually_tame (hg e.1 e.2 (Table.mem_entries.1 he)))
  filter_upwards [hlabelling h.labels, hlabelling h.controlLabels,
    Stock.eventually_forall_mem p.control fun m hm => eventually_tame (h.control m hm),
    Stock.eventually_forall_mem p.initialized fun x _ => Stock.eventually_name x,
    Stock.eventually_forall_mem p.patterns fun q _ => Stock.eventually_forall_mem q.sources fun s _ =>
      Stock.eventually_name s] with S hlabels hleft hcontrol hinit hsources
  exact {
    patterns := rfl
    sources := hsources
    initialized := hinit
    keys := fun x m hm => (hlabels _ (Table.mem_entries.2 hm)).1
    labels := fun x m hm => (hlabels _ (Table.mem_entries.2 hm)).2
    control := hcontrol
    controlKeys := fun x m hm => (hleft _ (Table.mem_entries.2 hm)).1
    controlLabels := fun x m hm => (hleft _ (Table.mem_entries.2 hm)).2 }

end Accord

theorem Header.eventually_fits [SetOrder] {edition : Edition} {policy : List Pattern}
    (hpolicy : Policy.Coherent edition policy) {strict full clear : Prop} : ∀ h : Header,
    h.Fits (Accord.lenient clear) → ∀ᶠ S : Stock in atTop, h.Fits (Accord.stocked edition policy strict full clear S)
  | .test e, h => Accord.eventually_fits_expr hpolicy e h
  | .item target iter _, h =>
    (Accord.eventually_fits_target hpolicy target h.1).and (Accord.eventually_fits_expr hpolicy iter h.2)

theorem Analysis.settle_error {same : Path → Path → Bool} {unrolled : Nat → Report → Except Fault (List Path) × Report}
    (hu : ∀ n r, ∃ out r', unrolled (n + 1) r = (.ok out, r')) : ∀ {limit n : Nat} {seen found : List Path}
    {r r' : Report} {f : Fault}, settle same unrolled limit n seen found r = (.error f, r') → f = .unsettled
  | 0, _, _, _, _, _, _, h => by
    cases h
    rfl
  | limit + 1, n, seen, found, r, r', f, h => by
    obtain ⟨out, r₁, ho⟩ := hu n r
    rw [settle, ho] at h
    dsimp only at h
    split at h
    · cases h
    · exact settle_error hu h

section Refined

variable [SetOrder] (header : Header) {body : Stmt} (hbody : body.LoopFree) {p : Path} (hp : p.Sound) {limit : Nat}
  {r r₁ : Report} {found : List Path}
  (hfound : Analysis.search limit header.depth (header.enter .plain) (body.analyse .plain limit) p r = (.ok found, r₁))

/-- Some stock is enough for the loop from this path. -/
theorem exists_stock (header : Header) (body : Stmt) {p : Path} (hp : p.Sound) : ∃ S : Stock, S.Covers p.patterns ∧
    header.Fits (.stocked .plain p.patterns False True False S) ∧
    body.Fits (.stocked .plain p.patterns False True False S) ∧
    (Accord.stocked .plain p.patterns False True False S).Tamed p := by
  have hpolicy : Policy.Coherent .plain p.patterns := nofun
  have hopen := Accord.open_lenient not_false
  exact ((Stock.eventually_covers p.patterns).and ((header.eventually_fits hpolicy (hopen.fits_header header)).and
    ((Accord.eventually_fits hpolicy body (hopen.fits body)).and (Accord.eventually_tamed hp)))).exists

include hbody hp hfound in
/-- If the search stops, so does one that compares what conditions left on variables as well. -/
theorem refined_search_stops : ∃ limit' all r₂, Analysis.settle Path.sameWithLeft
    (Analysis.rounds header.depth (header.enter .plain) (body.analyse .plain limit) (Analysis.entry header.depth p))
    limit' 0 [] [] r = (.ok all, r₂) := by
  obtain ⟨S, hS, hh, hb, hpS⟩ := exists_stock header body hp
  have hc : (Accord.stocked .plain p.patterns False True False S).Lawful := Accord.lawful_stocked (fun _ => id) hS
  have hs := Header.lockstep_iteration hc hh limit hb hbody
  have hstart := hpS.entry hc header.depth
  -- the explicit labels of all rounds are as long as those of the states that were found
  obtain ⟨bound, hbound⟩ : ∃ bound, ∀ s ∈ found, s.Bounded .plain bound :=
    (Stock.eventually_forall_mem found fun s _ => s.eventually_bounded .plain).exists
  obtain ⟨N, hN⟩ := @Accord.exists_bound_withLeft p.patterns False True False S hS bound _ p.settled_fork
  have hround := covered_of_search header hbody hp hfound
  obtain ⟨y, hy, hsettle⟩ := @Analysis.settle_halts _ _ N hN (fun _ => Analysis.rounds header.depth
      (header.enter .plain) (body.analyse .plain limit) (Analysis.entry header.depth p)) (fun _ _ _ _ => True)
    (by
      intro n seen _ r' _
      obtain ⟨out, r'', ho, hcov⟩ := hround n r'
      refine ⟨(.ok out, r''), (by simp), .of_forall fun _ => ho, fun _ _ ho' => ⟨fun q hq => ?_, fun _ => trivial⟩⟩
      cases ho'
      obtain ⟨s, hsf, hkin⟩ := hcov q hq
      exact ⟨Accord.tamed_rounds hs hstart ho q hq, (hbound s hsf).of_sameExplicit hkin.sameExplicit,
        Accord.begins_rounds (header.pushes_enter .plain) (body.shortening_analyse .plain limit) p ho q hq⟩)
    0 [] [] r trivial (List.forall_mem_nil _) .nil
  obtain ⟨limit', hlimit⟩ := hsettle.exists
  obtain ⟨_ | all, r₂⟩ := y
  · have herror := Analysis.settle_error (fun n r => (hround n r).imp fun _ h => h.imp fun _ h => h.1) hlimit
    exact absurd (congrArg Except.error herror) hy
  · exact ⟨limit' - 0, all, r₂, hlimit⟩

include hbody hp in
/-- A search that compares what conditions left on variables as well finds the implicit taint of every number
of iterations. -/
theorem refined_search_complete {limit' : Nat} {all : List Path} {r₂ : Report}
    (hall : Analysis.settle Path.sameWithLeft (Analysis.rounds header.depth (header.enter .plain)
      (body.analyse .plain limit) (Analysis.entry header.depth p)) limit' 0 [] [] r = (.ok all, r₂)) (m : Nat)
    (r' : Report) :
    ∃ out r'', Analysis.rounds header.depth (header.enter .plain) (body.analyse .plain limit)
        (Analysis.entry header.depth p) (m + 1) r' = (.ok out, r'') ∧ ∀ q ∈ out, ∃ s ∈ all, q.SameImplicit s := by
  have hc : (Accord.sound p.patterns False True).Lawful := Accord.lawful_sound fun _ => id
  have hs := Header.lockstep_iteration hc (Accord.open_sound.fits_header header) limit
    (Accord.open_sound.fits body) hbody
  have hstart := (Accord.tamed_of_sound hp).entry hc header.depth
  have hsame : ∀ p₁ p₂, (Accord.sound p.patterns False True).Tamed p₁ → (Accord.sound p.patterns False True).Tamed p₂ →
      p₁.sameWithLeft p₂ = true → (Accord.sound p.patterns False True).Kin p₁ p₂ := by
    intro p₁ p₂ hp₁ hp₂ h
    obtain ⟨hsame, hleft⟩ := (Bool.and_eq_true _ _).mp h
    exact Accord.kin_of_same rfl id hp₁ hp₂ (fun _ => Path.sameImplicit_iff.2 hleft) hsame
  obtain ⟨out, r'', ho, hcov⟩ := Accord.covered_of_settle rfl id hs hstart hsame (List.forall_mem_nil _)
    Accord.explored_nil hall m r'
  refine ⟨out, r'', ho, fun q hq => ?_⟩
  obtain ⟨s, hmem, hkin⟩ := hcov q hq
  exact ⟨s, hmem, hkin.controlLabels trivial⟩

end Refined

/-- The search of a loop finds the implicit taint of every number of iterations exactly if it finds that of the
states which a search that compares implicit taint collects; and that search stops. -/
theorem loop_search_finds_implicit_taint_iff [SetOrder] (header : Header) {body : Stmt} (hbody : body.LoopFree)
    {p : Path} (hp : p.Sound) {limit : Nat} {r r₁ : Report} {found : List Path}
    (hfound : Analysis.search limit header.depth (header.enter .plain) (body.analyse .plain limit) p r =
      (.ok found, r₁)) :
    ∃ limit' all r₂, Analysis.settle Path.sameWithLeft (Analysis.rounds header.depth (header.enter .plain)
        (body.analyse .plain limit) (Analysis.entry header.depth p)) limit' 0 [] [] r = (.ok all, r₂) ∧
      ((∀ m ≥ 1, ∀ r', ∃ out r'', Analysis.rounds header.depth (header.enter .plain) (body.analyse .plain limit)
          (Analysis.entry header.depth p) m r' = (.ok out, r'') ∧ ∀ q ∈ out, ∃ s ∈ found, q.SameImplicit s) ↔
        ∀ q ∈ all, ∃ s ∈ found, q.SameImplicit s) := by
  obtain ⟨limit', all, r₂, hall⟩ := refined_search_stops header hbody hp hfound
  refine ⟨limit', all, r₂, hall, ?_, ?_⟩
  · -- what the finer search collects comes from its rounds
    intro h
    refine Analysis.settle_ok (fun n r' r'' out ho q hq => ?_) (by intro q hq; cases hq) hall
    obtain ⟨out', r₃, ho', hout⟩ := h (n + 1) (by omega) r'
    cases ho.symm.trans ho'
    exact hout q hq
  · rintro h m hm r'
    obtain ⟨n, rfl⟩ : ∃ n, m = n + 1 := ⟨m - 1, by omega⟩
    obtain ⟨out, r'', ho, hout⟩ := refined_search_complete header hbody hp hall n r'
    refine ⟨out, r'', ho, fun q hq => ?_⟩
    obtain ⟨q', hq', himplicit⟩ := hout q hq
    obtain ⟨s, hs, himplicit'⟩ := h q' hq'
    exact ⟨s, hs, fun x name source f => (himplicit x name source f).trans (himplicit' x name source f)⟩

/-! ## A search that stops too early -/

/-- What a walk comes to, where it does not fault. -/
def Analysis.reached (x : Except Fault (List Path) × Report) : List Path := x.1.toOption.getD []

theorem Analysis.eq_reached {x : Except Fault (List Path) × Report} (h : x.1.isOk = true) :
    x = (.ok (reached x), x.2) := by
  obtain ⟨out, r⟩ := x
  cases out with
  | error f => cases h
  | ok out => rfl

/-- One pattern, of which `t` is a source. -/
def watchful : List Pattern := [
  { name := "A", sources := ["t"], sinks := ["sink"], modes := [], implicit := true }]

/-- Four constants, the last of them assigned again under the condition `t`. -/
def guarded : Stmt := .block [
  .assign [.name "a"] .inert { line := 1 },
  .assign [.name "b"] .inert { line := 2 },
  .assign [.name "c"] .inert { line := 3 },
  .assign [.name "z"] .inert { line := 4 },
  .branch (.name "t" { line := 5 }) (.block [.assign [.name "z"] .inert { line := 6 }]) (.block [])]

/-- The body of a loop that moves values from `z` on to `a`, `b` and `c`, by one variable in each iteration. -/
def shift : Stmt := .block [
  .assign [.name "c"] (.name "b" { line := 8 }) { line := 8 },
  .assign [.name "b"] (.name "a" { line := 9 }) { line := 9 },
  .assign [.name "a"] (.name "z" { line := 10 }) { line := 10 }]

/-- The search through this loop and three iterations of it, from a path. -/
def shiftFound [SetOrder] (p : Path) : Except Fault (List Path) × Report :=
  Analysis.search 5 0 ((Header.test .inert).enter .plain) (shift.analyse .plain 5) p {}

def shiftedThrice [SetOrder] (p : Path) : Except Fault (List Path) × Report :=
  Analysis.rounds 0 ((Header.test .inert).enter .plain) (shift.analyse .plain 5) (Analysis.entry 0 p) 3 {}

/-- At the start of a program nothing is on its way through the variables yet. -/
theorem loop_search_finds_implicit_taint_of_shift_iff :
    ∃ found r₁, shiftFound (Path.start watchful) = (.ok found, r₁) ∧
      ∃ limit all r₂, Analysis.settle Path.sameWithLeft (Analysis.rounds 0 ((Header.test .inert).enter .plain)
          (shift.analyse .plain 5) (Analysis.entry 0 (Path.start watchful))) limit 0 [] [] {} = (.ok all, r₂) ∧
        ((∀ m ≥ 1, ∀ r, ∃ out r', Analysis.rounds 0 ((Header.test .inert).enter .plain) (shift.analyse .plain 5)
            (Analysis.entry 0 (Path.start watchful)) m r = (.ok out, r') ∧ ∀ q ∈ out, ∃ s ∈ found, q.SameImplicit s) ↔
          ∀ q ∈ all, ∃ s ∈ found, q.SameImplicit s) := by
  have hstop : (shiftFound (Path.start watchful)).1.isOk = true := by decide +kernel
  have hbody : shift.LoopFree := ⟨trivial, trivial, trivial, trivial⟩
  have hfound := Analysis.eq_reached hstop
  exact ⟨_, _, hfound, loop_search_finds_implicit_taint_iff (.test .inert) hbody (Path.sound_start _) hfound⟩

/-- The condition `t` reaches `c` after three iterations, and the search has stopped before. -/
theorem loop_search_misses_shifted_taint :
    ∃ entries, (guarded.analyse .plain 5 [Path.start watchful] {}).paths? = .ok entries ∧ ∃ p ∈ entries,
      ∃ found r₁, shiftFound p = (.ok found, r₁) ∧ ∃ out r, shiftedThrice p = (.ok out, r) ∧
        ∃ q ∈ out, ∀ s ∈ found, ¬ q.SameImplicit s := by
  have hentries : (guarded.analyse .plain 5 [Path.start watchful] {}).paths?.isOk = true := by decide +kernel
  have hmissed : ∃ p ∈ (guarded.analyse .plain 5 [Path.start watchful] {}).paths?.toOption.getD [],
      (shiftFound p).1.isOk = true ∧ (shiftedThrice p).1.isOk = true ∧
        ∃ q ∈ Analysis.reached (shiftedThrice p), ∀ s ∈ Analysis.reached (shiftFound p), ¬ q.SameImplicit s := by
    decide +kernel
  obtain ⟨entries | entries, he⟩ : ∃ x, (guarded.analyse .plain 5 [Path.start watchful] {}).paths? = x := ⟨_, rfl⟩
  · rw [he] at hentries
    cases hentries
  · rw [he] at hmissed
    obtain ⟨p, hp, hfound, hout, hq⟩ := hmissed
    exact ⟨entries, he, p, hp, _, _, Analysis.eq_reached hfound, _, _, Analysis.eq_reached hout, hq⟩

end TaintFlow
