import Mathlib.Data.List.Nodup
import TaintFlow.Session
import TaintFlow.Proofs.Custody
import TaintFlow.Proofs.Reached

/-
Where taint comes from. Every flow that a state holds, and everything that is reported, can be traced
back to the program and to the policy: its source is a source of the pattern or a variable that the
program reads, its position is that of a site that mentions the source, and its marks are calls of
sanitizers of the pattern. What is reported has reached a sink of the pattern at a site that exposes it.

The labels of a state refer to patterns in two ways, and both follow the state's own pattern at some
place of the policy: the reference is that place, or a copy from an earlier fork that had fewer sources.
-/
namespace TaintFlow

open Listing

theorem Edition.line_place (edition : Edition) (spot : Spot) (scope : Int) :
    (edition.place spot scope).line = spot.line := by
  cases edition <;> rfl

/-- The variable is read somewhere. -/
def Site.ReadIn (sites : List Site) (x : String) : Prop := ∃ site ∈ sites, x ∈ site.reads

/-- A flow from `s` with this position and these marks is accounted for by the sites of a program and the
pattern, as the policy has it. -/
structure Pattern.Traces (sites : List Site) (q : Pattern) (s : String) (position : Position) (marks : List Mark) :
    Prop where
  source : s ∈ q.sources ∨ Site.ReadIn sites s
  place : ∃ site ∈ sites, s ∈ site.mentions ∧ site.spot.line = position.line
  marks : ∀ k ∈ marks, ∃ receiver function spot, k = .sanitizer function spot.line ∧
    q.isSanitizer function = true ∧ .call receiver function spot ∈ sites

namespace Path

/-- The reference is to the pattern at a place of the path, as it is now or as it was before. -/
def Follows (p : Path) (i : Nat) (r : PatternRef) : Prop :=
  r = .own i ∨ ∃ b, r = .kept b ∧ b.bare = (p.view (.own i)).bare ∧ ∀ s ∈ b.sources, s ∈ (p.view (.own i)).sources

/-- Every flow of the multilabel is accounted for, and comes from a source that the path has found. -/
structure Vouches (policy : List Pattern) (sites : List Site) (p : Path) (m : Taint) : Prop where
  refs : ∀ name t, m.entries.get? name = some t →
    ∃ i < policy.length, (policy.getD i default).name = name ∧ p.Follows i t.pattern
  flows : ∀ name s f, m.Has name s f →
    ∃ i < policy.length, (policy.getD i default).name = name ∧ s ∈ (p.view (.own i)).sources ∧
      (policy.getD i default).Traces sites s f.position f.marks

/-- The path has found only sources that the program reads, and all its flows are accounted for. -/
structure Vouched (policy : List Pattern) (sites : List Site) (p : Path) : Prop where
  patterns : List.Forall₂ (Pattern.Grows (Site.ReadIn sites)) policy p.patterns
  stores : ∀ m, p.Stores m → p.Vouches policy sites m

end Path

/-- What is recorded is accounted for, and is at a sink of the pattern that the program exposes. -/
def Report.Vouched (policy : List Pattern) (sites : List Site) (r : Report) : Prop :=
  ∀ s kind marks, r.Recorded s kind marks → ∃ q ∈ policy, q.name = s.pattern ∧
    q.Traces sites s.source s.sourceAt marks ∧ q.isSink s.sink = true ∧
    (∃ site ∈ sites, s.sink ∈ site.sinks ∧ site.spot.line = s.sinkAt.line) ∧
    (kind = .implicit → q.implicit = true)

section

variable {policy : List Pattern} {sites : List Site} {p q : Path} {m k : Taint} {i : Nat} {r : PatternRef}

/-! ## References -/

namespace Path

theorem Follows.bare (h : p.Follows i r) : (p.view r).bare = (p.view (.own i)).bare := by
  rcases h with rfl | ⟨b, rfl, hb, -⟩
  · rfl
  · exact hb

theorem Follows.sources (h : p.Follows i r) : ∀ s ∈ (p.view r).sources, s ∈ (p.view (.own i)).sources := by
  rcases h with rfl | ⟨b, rfl, -, hb⟩
  · exact fun _ hs => hs
  · exact hb

theorem Follows.later {N : String → Prop} (hpq : List.Forall₂ (Pattern.Grows N) p.patterns q.patterns)
    (h : p.Follows i r) : q.Follows i r := by
  have hview := Pattern.getD_grows hpq i
  rcases h with rfl | ⟨b, rfl, hb, hs⟩
  · exact .inl rfl
  · exact .inr ⟨b, rfl, hb.trans hview.bare, fun s hb => hview.sources s (hs s hb)⟩

theorem Follows.fork (h : p.Follows i r) : p.fork.Follows i (p.keep r) :=
  .inr ⟨p.view r, rfl, h.bare, h.sources⟩

/-! ## Labels -/

theorem Vouches.later {N : String → Prop} (hpq : List.Forall₂ (Pattern.Grows N) p.patterns q.patterns)
    (h : p.Vouches policy sites m) : q.Vouches policy sites m where
  refs name t ht := by
    obtain ⟨i, hi, hn, hr⟩ := h.refs name t ht
    exact ⟨i, hi, hn, hr.later hpq⟩
  flows name s f hf := by
    obtain ⟨i, hi, hn, hs, ht⟩ := h.flows name s f hf
    exact ⟨i, hi, hn, (Pattern.getD_grows hpq i).sources s hs, ht⟩

theorem Vouches.combine [SetOrder] (hm : p.Vouches policy sites m) (hk : p.Vouches policy sites k) :
    p.Vouches policy sites (m.combine k) where
  refs name t ht := by
    rcases MultiLabel.get?_combine_some ht with ⟨u, hu, hp⟩ | ⟨-, hu⟩
    · rw [hp]
      exact hm.refs name u hu
    · exact hk.refs name t hu
  flows name s f hf := (MultiLabel.has_combine.1 hf).elim (hm.flows name s f) (hk.flows name s f)

theorem Vouches.fork (h : p.Vouches policy sites m) : p.fork.Vouches policy sites (m.mapPatterns p.keep) where
  refs name t ht := by
    rw [MultiLabel.get?_mapPatterns] at ht
    obtain ⟨u, hu, rfl⟩ := Option.map_eq_some_iff.1 ht
    obtain ⟨i, hi, hn, hr⟩ := h.refs name u hu
    exact ⟨i, hi, hn, hr.fork⟩
  flows name s f hf := h.flows name s f (MultiLabel.has_mapPatterns.1 hf)

theorem Vouched.name_own (h : p.Vouched policy sites) (i : Nat) :
    (policy.getD i default).name = (p.view (.own i)).name :=
  Pattern.name_of_bare (Pattern.getD_grows h.patterns i).bare

theorem Vouched.vouches_clean (h : p.Vouched policy sites) : p.Vouches policy sites p.clean where
  refs name t ht := by
    obtain ⟨i, hi, rfl, hn⟩ := get?_clean ht
    exact ⟨i, h.patterns.length_eq ▸ hi, (h.name_own i).trans hn, .inl rfl⟩
  flows name s f hf := absurd hf (not_has_clean p name s f)

/-- A new flow from a source that the pattern of a label has is one that the path has found. -/
theorem Vouched.vouches_addSource (h : p.Vouched policy sites) (hm : p.Vouches policy sites m) {x : String}
    {spot : Spot} (hx : Coupling.Mentioned (· ∈ sites) x spot) {position : Position}
    (hline : position.line = spot.line) :
    p.Vouches policy sites (p.addSource m x position) where
  refs name t ht := by
    obtain ⟨u, hu, hp⟩ := MultiLabel.get?_addSource_some ht
    rw [hp]
    exact hm.refs name u hu
  flows name s f hf := by
    rcases MultiLabel.has_addSource.1 hf with hf | ⟨rfl, rfl, t, ht, hs⟩
    · exact hm.flows name s f hf
    · obtain ⟨i, hi, hn, hr⟩ := hm.refs name t ht
      have hs := hr.sources s (of_decide_eq_true hs)
      obtain ⟨site, hsite, hmen, hspot⟩ := hx
      exact ⟨i, hi, hn, hs, (Pattern.getD_grows h.patterns i).new s hs, ⟨site, hsite, hmen, by rw [hspot, hline]⟩,
        List.forall_mem_nil _⟩

/-- With distinct names, a name stands at one place of the policy. -/
theorem place_unique {policy : List Pattern} (hn : (policy.map (·.name)).Nodup) {i j : Nat} (hi : i < policy.length)
    (hj : j < policy.length) (h : (policy.getD i default).name = (policy.getD j default).name) : i = j := by
  have hget : ∀ {i} (hi : i < policy.length), policy.getD i default = policy[i] :=
    fun hi => view_own (p := Path.start policy) hi
  rw [hget hi, hget hj] at h
  have hsame := List.inj_on_of_nodup_map hn (List.getElem_mem hi) (List.getElem_mem hj) h
  exact (List.Nodup.getElem_inj_iff (hn.of_map _)).1 hsame

/-- The flows of a label pass a sanitizer of its own pattern. -/
theorem Vouched.vouches_addSanitizer [SetOrder] (hn : (policy.map (·.name)).Nodup) (h : p.Vouched policy sites)
    (hm : p.Vouches policy sites m) {receiver function : String} {spot : Spot}
    (hs : .call receiver function spot ∈ sites) :
    p.Vouches policy sites (m.addSanitizer p.view function spot.line) where
  refs name t ht := by
    obtain ⟨u, hu, hp⟩ := MultiLabel.get?_addSanitizer_some ht
    rw [hp]
    exact hm.refs name u hu
  flows name s f hf := by
    obtain ⟨t, ht, g, hg, rfl⟩ := MultiLabel.has_addSanitizer.1 hf
    obtain ⟨i, hi, hname, hsrc, htraces⟩ := hm.flows name s g ⟨t, ht, hg⟩
    refine ⟨i, hi, hname, hsrc, ?_⟩
    split
    · rename_i hsan
      obtain ⟨j, hj, hname', hr⟩ := hm.refs name t ht
      cases place_unique hn hi hj (hname.trans hname'.symm)
      have hsan : (policy.getD i default).isSanitizer function = true := by
        rw [Pattern.isSanitizer_of_bare ((Pattern.getD_grows h.patterns i).bare.trans hr.bare.symm)]
        exact hsan
      refine { htraces with marks := fun k hk => ?_ }
      rcases Mark.mem_extend.1 hk with hk | rfl
      · exact htraces.marks k hk
      · exact ⟨receiver, function, spot, rfl, hsan, hs⟩
    · exact htraces

/-! ## Paths -/

theorem grows_self (p : Path) : List.Forall₂ (Pattern.Grows (Site.ReadIn sites)) p.patterns p.patterns :=
  List.forall₂_same.2 fun a _ => .refl a

/-- A path whose patterns may have grown, and that stores nothing else but what is accounted for. -/
theorem Vouched.step (h : p.Vouched policy sites)
    (hpq : List.Forall₂ (Pattern.Grows (Site.ReadIn sites)) p.patterns q.patterns)
    (hs : ∀ m, q.Stores m → p.Stores m ∨ p.Vouches policy sites m) : q.Vouched policy sites where
  patterns := Accord.forall₂_trans (fun _ _ _ => .trans) h.patterns hpq
  stores m hm := ((hs m hm).elim (h.stores m) id).later hpq

theorem inherited_vouched : Path.Inherited (Path.Vouched policy sites) where
  fork p h := by
    refine ⟨h.patterns, fun m hm => ?_⟩
    obtain ⟨k, hk, rfl⟩ := stores_fork hm
    exact (h.stores k hk).fork
  pop p h := h.step (grows_self p) fun m hm => .inl (stores_pop hm)
  scope p k h := h.step (grows_self p) fun m hm => .inl hm

theorem vouched_start (policy : List Pattern) (sites : List Site) : (Path.start policy).Vouched policy sites where
  patterns := grows_self (Path.start policy)
  stores m hm := absurd hm (not_stores_start policy m)

end Path

/-! ## What is reported -/

/-- What reaches a sink that the program exposes is accounted for. -/
theorem Report.Vouched.flag [SetOrder] (edition : Edition) (kind : FlowKind) {w : World} {x : String} {spot : Spot}
    (hn : (policy.map (·.name)).Nodup) (hp : w.path.Vouched policy sites) (hr : w.report.Vouched policy sites)
    (hx : Coupling.Exposed (· ∈ sites) x spot) (hm : w.path.Vouches policy sites m) :
    ((Eval.flag edition x spot m kind).run w).2.report.Vouched policy sites := by
  intro s kind' marks hs
  rcases Eval.recorded_flag_cases hs with
    hs | ⟨i, f, hi, hsink, hf, hpos, himprint, hpattern, rfl, hat, rfl, himplicit⟩
  · exact hr s kind' marks hs
  · obtain ⟨j, hj, hname, -, htraces⟩ := hm.flows _ s.source f hf
    have hi : i < policy.length := hp.patterns.length_eq ▸ hi
    have hown := (Pattern.getD_grows hp.patterns i).bare
    cases Path.place_unique hn hi hj ((Pattern.name_of_bare hown).trans hname.symm)
    obtain ⟨site, hsite, hexposed, hspot⟩ := hx
    have hmarks := mem_of_imprint himprint fun k hk => by
      obtain ⟨_, _, _, rfl, -⟩ := htraces.marks k hk
      rfl
    refine ⟨policy.getD i default, Path.view_own_mem (p := Path.start policy) hi, ?_,
      ⟨htraces.source, hpos ▸ htraces.place, fun k hk => htraces.marks k (hmarks k hk)⟩, ?_,
      ⟨site, hsite, hexposed, ?_⟩, fun hk => ?_⟩
    · exact (Pattern.name_of_bare hown).trans hpattern.symm
    · exact (Pattern.isSink_of_bare hown s.sink).trans hsink
    · rw [hspot, hat, Edition.line_place]
    · exact (Pattern.implicit_of_bare hown).trans (himplicit hk)

end

/-! ## The analysis -/

/-- All flows are accounted for. -/
def Custody.provenance (edition : Edition) (policy : List Pattern) (sites : List Site) : Custody where
  edition := edition
  Kept p := p.Vouched policy sites
  Later p q := List.Forall₂ (Pattern.Grows (Site.ReadIn sites)) p.patterns q.patterns
  Sound p := p.Vouches policy sites
  Reported r := r.Vouched policy sites
  refl p := p.grows_self
  trans := Accord.forall₂_trans fun _ _ _ => .trans

theorem Discipline.writes_provenance [SetOrder] (edition : Edition) {policy : List Pattern} {sites : List Site}
    (hn : (policy.map (·.name)).Nodup) : (Custody.provenance edition policy sites).discipline.Writes (· ∈ sites) := by
  apply Custody.Lawful.writes
  constructor
  case later => exact fun hpq hm => hm.later hpq
  case stores => exact fun hp hm => hp.stores _ hm
  case moves => exact fun hp _ hpq hs => ⟨hp.step hpq hs, hpq⟩
  case combine => exact fun ha hb => ha.combine hb
  case clean => exact fun hp => hp.vouches_clean
  case source => exact fun hp hx hm => hp.vouches_addSource hm hx (Edition.line_place ..)
  case sanitized => exact fun hp hs hm => hp.vouches_addSanitizer hn hm hs
  case flag => exact fun _ hp hr hx hm => Report.Vouched.flag edition _ hn hp hr hx hm

theorem report_analyseProgram [SetOrder] (edition : Edition) (limit : Nat) (patterns : List Pattern) (program : Stmt) :
    (analyseProgram edition limit patterns program).2.report =
      (program.analyse edition limit [Path.start patterns] {}).report := by
  unfold analyseProgram Session.run Session.start
  dsimp only
  generalize (program.analyse edition limit [Path.start patterns] {}).paths? = out
  cases out <;> rfl

/-- Every flow that the analysis of a program stores in any state comes from a source that the state has
found, and can be traced back to the program and the policy; so can everything that is reported, at a sink. -/
theorem taint_traced [SetOrder] {patterns : List Pattern} (hnames : (patterns.map (·.name)).Nodup) (edition : Edition)
    (program : Stmt) (limit : Nat) :
    (∀ p ∈ program.reached edition limit [Path.start patterns] {}, ∀ m, p.Stores m → ∀ name s f, m.Has name s f →
      ∃ q ∈ patterns, q.name = name ∧ q.Traces program.sites s f.position f.marks ∧
        ∃ a ∈ p.patterns, a.bare = q.bare ∧ s ∈ a.sources) ∧
    ∀ s kind marks, (analyseProgram edition limit patterns program).2.report.Recorded s kind marks →
      ∃ q ∈ patterns, q.name = s.pattern ∧ q.Traces program.sites s.source s.sourceAt marks ∧
        q.isSink s.sink = true ∧
        (∃ site ∈ program.sites, s.sink ∈ site.sinks ∧ site.spot.line = s.sinkAt.line) ∧
        (kind = .implicit → q.implicit = true) := by
  have hempty : Report.Vouched patterns program.sites {} := by
    rintro s kind marks ⟨_, _, h, _⟩
    cases h
  obtain ⟨hstates, -, -, hreport⟩ := (Discipline.writes_provenance edition hnames).upholds_analyse
    (fun _ => Iff.rfl) Path.inherited_vouched limit program (fun _ hs => hs) [Path.start patterns] {}
    (List.forall_mem_singleton.2 (Path.vouched_start patterns program.sites)) hempty
  refine ⟨fun p hp m hm name s f hf => ?_, fun s kind marks hs => hreport s kind marks ?_⟩
  · have hp := hstates p hp
    obtain ⟨i, hi, hname, hs, htraces⟩ := (hp.stores m hm).flows name s f hf
    exact ⟨patterns.getD i default, Path.view_own_mem (p := Path.start patterns) hi, hname, htraces, p.view (.own i),
      Path.view_own_mem (hp.patterns.length_eq ▸ hi), (Pattern.getD_grows hp.patterns i).bare.symm, hs⟩
  · rw [report_analyseProgram] at hs
    exact hs

/-- In `while c: x = esc(get(y))` and `if x: sink()` the flow from `y` to the sink passed through `x`, by an
iteration of the loop and by the condition of the branch. -/
theorem taint_of_loop_traced :
    let a : Pattern :=
      { name := "A", sources := ["get"], sinks := ["sink"], modes := [("esc", .text "show")], implicit := true }
    let b : Pattern :=
      { name := "B", sources := ["get"], sinks := ["x"], modes := [("esc", .text "show")], implicit := false }
    let value : Expr := .call "" "esc" [.call "" "get" [.name "y" { line := 2 }] { line := 2 }] { line := 2 }
    let program : Stmt := .block [
      .loop (.name "c" { line := 1 }) (.block [.assign [.name "x"] value { line := 2 }]) (.block []),
      .branch (.name "x" { line := 3 }) (.block [.eval (.call "" "sink" [] { line := 4 })]) (.block [])]
    (analyseProgram .plain 5 [a, b] program).2.report.Recorded ⟨"A", "y", { line := 2 }, "sink", { line := 4 }⟩
        .implicit [.sanitizer "esc" 2] ∧
      ∃ q ∈ [a, b], q.name = "A" ∧ q.Traces program.sites "y" { line := 2 } [.sanitizer "esc" 2] ∧
        q.isSink "sink" = true ∧ (∃ site ∈ program.sites, "sink" ∈ site.sinks ∧ site.spot.line = 4) ∧
        (FlowKind.implicit = .implicit → q.implicit = true) := by
  intro a b value program
  have hrec : (analyseProgram .plain 5 [a, b] program).2.report.Recorded
      ⟨"A", "y", { line := 2 }, "sink", { line := 4 }⟩ .implicit [.sanitizer "esc" 2] :=
    Report.recorded_iff.2 (by decide +kernel)
  exact ⟨hrec, (taint_traced (by decide) .plain program 5).2 _ _ _ hrec⟩

end TaintFlow
