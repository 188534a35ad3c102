import TaintFlow.Proofs.Search

/-
What the search of a loop finds, in the plain edition. The search stops at the first round whose states are
all known, where states are compared in their explicit labels, their assigned variables, the sources of
their patterns and the conditions around them. This comparison is respected by an iteration of a body without
loops, so for the explicit taint nothing is missed: whatever any number of iterations would lead to, some state
that was collected has the same explicit taint.

The labels that conditions left on variables are not part of the comparison, and are not determined by what
is.
-/
namespace TaintFlow

open Listing

/-! ## Loops -/

namespace Header

def Fits [SetOrder] (c : Accord) : Header → Prop
  | .test e => e.Fits c
  | .item target iter _ => target.Fits c ∧ iter.Fits c

theorem sim_enter [SetOrder] {c : Accord} (hc : c.Lawful) : ∀ {h : Header}, h.Fits c →
    c.Sim (fun _ _ => True) (h.enter c.edition) (h.enter c.edition)
  | .test _, hf => Accord.sim_enterTest hc hf
  | .item _ _ spot, hf => Accord.sim_enterItem hc hf.1 hf.2 { line := spot.line }

end Header

theorem Accord.Open.fits_header [SetOrder] {c : Accord} (h : c.Open) : ∀ header : Header, header.Fits c
  | .test e => h.fits_expr e
  | .item target iter _ => ⟨h.fits_target target, h.fits_expr iter⟩

/-- Two runs of an iteration of a body without loops have the same results. -/
theorem Header.lockstep_iteration [SetOrder] {c : Accord} (hc : c.Lawful) {h : Header} (hh : h.Fits c) (limit : Nat)
    {body : Stmt} (hb : body.Fits c) (hl : body.LoopFree) :
    c.WalkLockstep (Analysis.iteration (h.enter c.edition) (body.analyse c.edition limit)) :=
  Accord.lockstep_iteration (Header.sim_enter hc hh) (Accord.lockstep_analyse hc limit body hb (.inr hl))

/-! ## Sound paths -/

/-- The multilabel tracks patterns of the policy, and its flows passed nothing but calls of sanitizers. -/
structure MultiLabel.Sound (policy : List Pattern) (m : Taint) : Prop where
  tracked : ∀ name t, m.entries.get? name = some t → name ∈ policy.map (·.name)
  marks : ∀ name s f, m.Has name s f → ∀ k ∈ f.marks, ∃ function line, k = .sanitizer function line

/-- The labels of the path track its own patterns, and their flows passed nothing but calls of
sanitizers. -/
structure Path.Sound (p : Path) : Prop where
  labels : ∀ x m, p.labels.get? x = some m → MultiLabel.Sound p.patterns m
  control : ∀ m ∈ p.control, MultiLabel.Sound p.patterns m
  controlLabels : ∀ x m, p.controlLabels.get? x = some m → MultiLabel.Sound p.patterns m

namespace Accord

/-- Two runs of the plain edition under a policy; `strict` and `full` say what is compared. -/
def sound (policy : List Pattern) (strict full : Prop) : Accord where
  edition := .plain
  policy := policy
  strict := strict
  full := full
  clear := False
  name := fun _ => True
  flow := fun _ _ f => ∀ k ∈ f.marks, ∃ function line, k = .sanitizer function line
  ref := fun name _ => name ∈ policy.map (·.name)

variable {policy : List Pattern} {strict full : Prop}

theorem lawful_sound (h : full → ¬ strict) : (sound policy strict full).Lawful where
  listed := by
    intro name s f hf p _ _ k hk
    obtain ⟨function, line, rfl⟩ := hf k hk
    exact ⟨function, line, rfl, fun he => nomatch he⟩
  own := fun i hi => List.mem_map_of_mem (Path.view_own_mem (p := Path.start policy) hi)
  kept := fun _ _ _ _ _ h => h
  apart := h

theorem open_sound [SetOrder] : (sound policy strict full).Open where
  names := fun _ => trivial
  raw := fun _ _ _ k hk => nomatch hk
  sanitizes := by
    intro function line name s f hf _ k hk
    rcases Mark.mem_extend.1 hk with hk | rfl
    · exact hf k hk
    · exact ⟨function, line, rfl⟩
  faults := fun h => h

theorem tame_of_sound {m : Taint} (h : MultiLabel.Sound policy m) : (sound policy strict full).Tame m :=
  ⟨fun name t ht => .inr (contains_blank (h.tracked name t ht)), h.tracked, fun _ _ _ => trivial, h.marks⟩

theorem tamed_of_sound {p : Path} (h : p.Sound) : (sound p.patterns strict full).Tamed p where
  patterns := rfl
  sources := fun _ _ _ _ => trivial
  initialized := fun _ _ => trivial
  keys := fun _ _ _ => trivial
  labels := fun x m hm => tame_of_sound (h.labels x m hm)
  control := fun m hm => tame_of_sound (h.control m hm)
  controlKeys := fun _ _ _ => trivial
  controlLabels := fun x m hm => tame_of_sound (h.controlLabels x m hm)

theorem Tamed.sound {p : Path} (h : (sound policy strict full).Tamed p) : p.Sound := by
  have hnames : p.patterns.map (·.name) = policy.map (·.name) := by
    have hmap := congrArg (List.map Pattern.name) h.patterns
    rw [List.map_map, List.map_map] at hmap
    exact hmap
  have hm : ∀ {m : Taint}, (Accord.sound policy strict full).Tame m → MultiLabel.Sound p.patterns m :=
    fun hm => ⟨fun name t ht => hnames ▸ hm.refs name t ht, hm.flows⟩
  exact ⟨fun x m hx => hm (h.labels x m hx), fun m hx => hm (h.control m hx),
    fun x m hx => hm (h.controlLabels x m hx)⟩

/-! ## States that count as the same are kin -/

variable {c : Accord}

theorem same_of_same {p q : Path} (hloose : ¬ c.strict) {m m' : Taint} (h : m.same p.view q.view m' = true) :
    c.Same m m' := by
  intro name
  have hr := MultiLabel.same_iff.1 h name
  generalize m.entries.get? name = o at hr ⊢
  generalize m'.entries.get? name = o' at hr ⊢
  cases hr with
  | none => exact .none
  | some hs => exact .some ⟨hs.2, fun hstrict => absurd hstrict hloose⟩

theorem alike_of_samePatterns : ∀ {ps qs : List Pattern}, ps.map Pattern.bare = qs.map Pattern.bare →
    List.Forall₂ (fun p q => p.same q = true) ps qs → List.Forall₂ Pattern.Alike ps qs
  | _, _, _, .nil => .nil
  | _ :: _, _ :: _, hb, .cons h hs => by
    rw [List.map_cons, List.map_cons, List.cons.injEq] at hb
    exact .cons ((Pattern.same_iff_of_bare hb.1).1 h) (alike_of_samePatterns hb.2 hs)

/-- In the plain edition states that a search does not tell apart are kin, if what conditions left on their
variables is the same or does not count. -/
theorem kin_of_same (hplain : c.edition = .plain) (hloose : ¬ c.strict) {p q : Path} (hp : c.Tamed p) (hq : c.Tamed q)
    (hleft : c.full → ∀ x name s f, LeftOn p.controlLabels x name s f ↔ LeftOn q.controlLabels x name s f)
    (h : p.same q = true) : c.Kin p q := by
  unfold Path.same at h
  simp only [Bool.and_eq_true] at h
  obtain ⟨⟨⟨hl, hi⟩, hpat⟩, hstack⟩ := h
  refine {
    left := hp
    right := hq
    patterns := alike_of_samePatterns (hp.patterns.trans hq.patterns.symm) (Path.samePatterns_iff.1 hpat)
    initialized := sameMembers_iff.1 hi
    labels := fun x => ?_
    control := (Path.sameStack_iff.1 hstack).imp fun _ _ hm _ => (same_of_same hloose hm).has
    controlLabels := hleft
    scope := fun he => absurd (hplain.symm.trans he) (by decide) }
  have hr := Table.agree_iff.1 hl x
  show Option.Rel c.Same (p.labels.table.get? x) (q.labels.table.get? x)
  generalize p.labels.table.get? x = o at hr ⊢
  generalize q.labels.table.get? x = o' at hr ⊢
  cases hr with
  | none => exact .none
  | some hs => exact .some (same_of_same hloose hs)

end Accord

/-! ## Explicit taint -/

/-- The path at the start of a program is sound. -/
theorem Path.sound_start (policy : List Pattern) : (Path.start policy).Sound where
  labels := fun _ _ h => nomatch h
  control := fun _ h => nomatch h
  controlLabels := fun _ _ h => nomatch h

/-- The analysis goes on with sound paths. -/
theorem Path.Sound.analyse [SetOrder] {p : Path} (hp : p.Sound) (limit : Nat) (program : Stmt) {r : Report}
    {out : List Path} (h : (program.analyse .plain limit [p] r).paths? = .ok out) : ∀ q ∈ out, q.Sound := by
  have hc : (Accord.sound p.patterns True False).Lawful := Accord.lawful_sound False.elim
  have hrun := Accord.lockstep_analyse hc limit program (Accord.open_sound.fits program) (.inl trivial)
  have hout := hrun.tamed (List.forall_mem_singleton.2 (Accord.tamed_of_sound hp)) h
  exact fun q hq => (hout q hq).sound

/-- For every state after any number of iterations the search has found one that is kin, where control labels
are not compared. -/
theorem covered_of_search [SetOrder] (header : Header) {body : Stmt} (hbody : body.LoopFree) {p : Path} (hp : p.Sound)
    {limit : Nat} {r r₁ : Report} {found : List Path}
    (hfound : Analysis.search limit header.depth (header.enter .plain) (body.analyse .plain limit) p r =
      (.ok found, r₁)) (m : Nat) :
    (Accord.sound p.patterns False False).EndsIn found (Analysis.rounds header.depth (header.enter .plain)
      (body.analyse .plain limit) (Analysis.entry header.depth p) (m + 1)) := by
  have hc : (Accord.sound p.patterns False False).Lawful := Accord.lawful_sound False.elim
  have hs := Header.lockstep_iteration hc (Accord.open_sound.fits_header header) limit
    (Accord.open_sound.fits body) hbody
  have hstart := (Accord.tamed_of_sound hp).entry hc header.depth
  exact Accord.covered_of_settle rfl id hs hstart (fun p q hp hq => Accord.kin_of_same rfl id hp hq False.elim)
    (List.forall_mem_nil _) Accord.explored_nil hfound m

/-- The search of a loop finds the explicit taint of every number of iterations. -/
theorem loop_search_finds_explicit_taint [SetOrder] (header : Header) {body : Stmt} (hbody : body.LoopFree) {p : Path}
    (hp : p.Sound) {limit : Nat} {r r₁ : Report} {found : List Path}
    (hfound : Analysis.search limit header.depth (header.enter .plain) (body.analyse .plain limit) p r =
      (.ok found, r₁)) {m : Nat} (hm : 1 ≤ m) (r' : Report) :
    ∃ out r'', Analysis.rounds header.depth (header.enter .plain) (body.analyse .plain limit)
        (Analysis.entry header.depth p) m r' = (.ok out, r'') ∧
      ∀ q ∈ out, ∃ s ∈ found, q.SameExplicit s := by
  obtain ⟨n, rfl⟩ : ∃ n, m = n + 1 := ⟨m - 1, by omega⟩
  obtain ⟨out, r'', ho, hcov⟩ := covered_of_search header hbody hp hfound n r'
  refine ⟨out, r'', ho, fun q hq => ?_⟩
  obtain ⟨s, hsf, hkin⟩ := hcov q hq
  exact ⟨s, hsf, hkin.sameExplicit⟩

/-- Taint that moves on by one variable in each iteration. -/
def relay : Stmt := .block [
  .assign [.name "y"] (.name "x" { line := 2 }) { line := 2 },
  .assign [.name "x"] (.call "" "src" [] { line := 3 }) { line := 3 }]

/-- The search through such a loop, and seven iterations of it. -/
theorem loop_search_finds_relayed_taint :
    let header := Header.test (.name "c" { line := 1 })
    let start := Path.start [{ name := "A", sources := ["src"], sinks := ["sink"], modes := [], implicit := true }]
    ∃ found r₁, Analysis.search 5 header.depth (header.enter .plain) (relay.analyse .plain 5) start {} =
        (.ok found, r₁) ∧
      ∃ out r, Analysis.rounds header.depth (header.enter .plain) (relay.analyse .plain 5)
          (Analysis.entry header.depth start) 7 {} = (.ok out, r) ∧
        ∀ q ∈ out, ∃ s ∈ found, q.SameExplicit s := by
  intro header start
  have hstop : (Analysis.search 5 header.depth (header.enter .plain) (relay.analyse .plain 5) start {}).1.isOk =
      true := by
    decide +kernel
  obtain ⟨⟨_ | found, r₁⟩, hx⟩ : ∃ x, Analysis.search 5 header.depth (header.enter .plain) (relay.analyse .plain 5)
    start {} = x := ⟨_, rfl⟩
  · rw [hx] at hstop
    cases hstop
  · have hbody : relay.LoopFree := ⟨trivial, trivial, trivial⟩
    exact ⟨found, r₁, hx, loop_search_finds_explicit_taint header hbody (Path.sound_start _) hx (by decide) {}⟩

end TaintFlow
