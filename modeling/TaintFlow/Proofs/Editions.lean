import TaintFlow.Proofs.Provenance
import TaintFlow.Proofs.SideBySide
import TaintFlow.Proofs.Submissions

/-
The two editions agree. On a program without loops that both editions read in the same way, under
policies that ask for the same and hide no sanitizer, the plain edition reports what the scoped edition
reports, with columns and nesting levels left out. Several places of the scoped edition fall on one line,
so the two reports need not have as many findings.
-/
namespace TaintFlow

/-- The second pattern asks for the same as the first, and shows all its sanitizers. -/
structure Pattern.ShownBy (a a' : Pattern) : Prop where
  name : a.name = a'.name
  sources : ∀ s, a.isSource s = a'.isSource s
  sinks : ∀ s, a.isSink s = a'.isSink s
  sanitizers : ∀ s, a.isSanitizer s = a'.isSanitizer s
  implicit : a.implicit = a'.implicit
  shown : ∀ s, a'.isSanitizer s = true → a'.shows? s = some true

/-- The place without its column and nesting level. -/
def Position.lineOnly (p : Position) : Position := { line := p.line }

/-! ## Runs whose flows are shown -/

namespace Accord

/-- Runs whose flows passed only sanitizers that the patterns of their name show. -/
def shown (edition : Edition) (policy : List Pattern) : Accord where
  edition := edition
  policy := policy
  strict := False
  full := False
  clear := False
  name := fun _ => True
  flow := fun name _ f => ∀ p ∈ policy, p.name = name → ∀ k ∈ f.marks,
    ∃ function line, k = .sanitizer function line ∧ (edition = .scoped → p.shows? function = some true)
  ref := fun _ _ => True

variable {edition : Edition} {policy : List Pattern}

theorem lawful_shown : (shown edition policy).Lawful where
  listed := by
    intro name s f hf p hp hname k hk
    obtain ⟨function, line, rfl, hshows⟩ := hf p hp hname k hk
    exact ⟨function, line, rfl, fun he => by rw [hshows he]; rfl⟩
  own := fun _ _ => trivial
  kept := fun _ _ _ _ _ _ => trivial
  apart := fun h => h.elim

theorem open_shown [SetOrder] (hnames : (policy.map (·.name)).Nodup)
    (h : edition = .scoped → ∀ p ∈ policy, ∀ x, p.isSanitizer x = true → p.shows? x = some true) :
    (shown edition policy).Open where
  names := fun _ => trivial
  raw := fun _ _ _ _ _ _ => List.forall_mem_nil _
  sanitizes := by
    intro function line name s f hf hsan p hp hname k hk
    rcases Mark.mem_extend.1 hk with hk | rfl
    · exact hf p hp hname k hk
    · -- the pattern of the name that has the sanitizer is the only one of the name
      obtain ⟨q, hq, hn, hs⟩ := Policy.exists_sanitizer hsan hp hname
      have hqp : q = p := List.inj_on_of_nodup_map hnames hq hp (hn.trans hname.symm)
      exact ⟨function, line, rfl, fun he => h he p hp function (hqp ▸ hs)⟩
  faults := fun h => h

theorem tamed_start : (shown edition policy).Tamed (Path.start policy) where
  patterns := rfl
  sources := fun _ _ _ _ => trivial
  initialized := fun _ _ => trivial
  keys := fun _ _ _ => trivial
  labels := fun _ _ hm => by cases hm
  control := List.forall_mem_nil _
  controlKeys := fun _ _ _ => trivial
  controlLabels := fun _ _ hm => by cases hm

end Accord

/-! ## The bridge between the editions -/

namespace Bridge

/-- The scoped edition on the left, the plain edition on the right. -/
def editions (policy policy' : List Pattern) : Bridge where
  left := .shown .scoped policy'
  right := .shown .plain policy
  proj := Position.lineOnly
  shared := fun _ => True
  full := True
  level := fun _ _ => True
  Sight := Set Mark
  sight := fun marks => {k | k ∈ marks}

variable {policy policy' : List Pattern}

theorem sees_editions {r : Report} {s : Subject} {x : FlowKind × Set Mark} :
    (editions policy policy').Sees r s x.1 x.2 ↔ x ∈ r.flows s :=
  exists_congr fun _ => and_congr_right fun _ => eq_comm

theorem lawful_editions [SetOrder] (hpolicy : List.Forall₂ Pattern.ShownBy policy policy')
    (hnames : (policy.map (·.name)).Nodup) : (editions policy policy').Lawful := by
  have hsame : policy.map (·.name) = policy'.map (·.name) := by
    rw [← List.forall₂_eq_eq_eq, List.forall₂_map_left_iff, List.forall₂_map_right_iff]
    exact hpolicy.imp fun _ _ h => h.name
  have hshown : ∀ p ∈ policy', ∀ x, p.isSanitizer x = true → p.shows? x = some true := by
    intro p hp
    obtain ⟨q, -, hq⟩ := forall₂_mem_right hpolicy p hp
    exact hq.shown
  exact
    { left := Accord.lawful_shown
      right := Accord.lawful_shown
      free := Accord.open_shown (hsame ▸ hnames) fun _ => hshown
      free' := Accord.open_shown hnames fun he => by cases he
      loose := id
      loose' := id
      place := fun _ _ => rfl
      shift := fun _ _ => trivial }

theorem matches_of_shownBy [SetOrder] {a a' : Pattern} (h : a.ShownBy a') (ha : a' ∈ policy') :
    (editions policy policy').Matches a' a where
  name := h.name.symm
  sources := fun s => (h.sources s).symm
  sinks := fun s => (h.sinks s).symm
  sanitizers := fun s => (h.sanitizers s).symm
  implicit := h.implicit.symm
  display := by
    intro s f hf
    have hdisplays : ∀ k ∈ f.marks, a'.displays k = true := by
      intro k hk
      obtain ⟨function, line, rfl, hshows⟩ := hf a' ha rfl k hk
      exact decide_eq_true (hshows rfl)
    obtain ⟨marks, hmarks, hmem⟩ := Pattern.display_of_shown hdisplays .scoped
    show (a'.display .scoped f.marks).map (fun marks => {k | k ∈ marks}) = some {k | k ∈ Listing.distinct f.marks}
    rw [hmarks]
    exact congrArg some (Set.ext fun k => (hmem k).trans Listing.mem_distinct.symm)

theorem twin_start [SetOrder] (hpolicy : List.Forall₂ Pattern.ShownBy policy policy') :
    (editions policy policy').Twin (Path.start policy') (Path.start policy) where
  left := Accord.tamed_start
  right := Accord.tamed_start
  initialized := fun _ => Iff.rfl
  patterns := by
    intro name _
    have hmatch : List.Forall₂ (editions policy policy').Matches policy' policy :=
      ((List.forall₂_and_left _ _).2 ⟨fun _ ha => ha, hpolicy.flip⟩).imp fun _ _ h => matches_of_shownBy h.2 h.1
    refine List.rel_filter (fun a a' h => ?_) hmatch
    dsimp only
    rw [h.name]
  labels := fun _ => .none
  control := fun _ => .nil
  controlLabels := fun _ => .none
  scope := trivial

end Bridge

/-! ## Whole programs -/

theorem fault_analyseProgram [SetOrder] {edition : Edition} {limit : Nat} {patterns : List Pattern} {program : Stmt}
    {f : Fault} :
    (analyseProgram edition limit patterns program).1 = some f ↔
      (program.analyse edition limit [Path.start patterns] {}).paths? = .error f := by
  unfold analyseProgram Session.run Session.start
  dsimp only
  generalize (program.analyse edition limit [Path.start patterns] {}).paths? = out
  cases out <;> simp

/-- Both editions stop with the same fault or both come to an end, and the plain edition has reported what the
scoped edition has, at the lines of its places. -/
theorem editions_agree [SetOrder] {policy policy' : List Pattern}
    (hpolicy : List.Forall₂ Pattern.ShownBy policy policy') (hnames : (policy.map (·.name)).Nodup) {program : Stmt}
    (hloops : program.LoopFree) (hsame : program.Uniform) (limit limit' : Nat) :
    (analyseProgram .plain limit policy program).1 = (analyseProgram .scoped limit' policy' program).1 ∧
      ∀ s x, x ∈ (analyseProgram .plain limit policy program).2.report.flows s ↔
        ∃ t, x ∈ (analyseProgram .scoped limit' policy' program).2.report.flows t ∧
          t.moved Position.lineOnly = s := by
  have hrun := Bridge.abreast_analyse (Bridge.lawful_editions hpolicy hnames) limit' limit program hloops (.inr hsame)
    _ _ (.cons (Bridge.twin_start hpolicy) .nil) {} {}
  constructor
  · refine Option.ext fun f => ?_
    rw [fault_analyseProgram, fault_analyseProgram]
    exact (hrun.fault f).symm
  · intro s x
    rw [report_analyseProgram, report_analyseProgram]
    obtain ⟨New, hnew⟩ := hrun.added
    have hempty : ∀ t, ¬ (Bridge.editions policy policy').Sees {} t x.1 x.2 := fun t => Bridge.not_sees_empty t x.1 _
    have hsees : ∀ r t, x ∈ Report.flows r t ↔ (Bridge.editions policy policy').Sees r t x.1 x.2 := fun _ _ =>
      Bridge.sees_editions.symm
    have hleft : ∀ t, x ∈ (program.analyse .scoped limit' [Path.start policy'] {}).report.flows t ↔ New t x.1 x.2 :=
      fun t => (hsees _ t).trans ((hnew t x.1 x.2 ⟨trivial, .inr trivial⟩).1.trans (or_iff_right (hempty t)))
    simp only [hleft]
    exact (hsees _ s).trans ((hnew s x.1 x.2 ⟨trivial, .inr trivial⟩).2.trans (or_iff_right (hempty s)))

/-- In `x = esc(get(y, y))` and `if x: sink(x)` the scoped edition reports both places of `y`, at the level of the
sink; the plain edition reports the line. -/
theorem editions_agree_on_repeated_source :
    let a : Pattern :=
      { name := "A", sources := ["get"], sinks := ["sink"], modes := [("esc", .text "show")], implicit := true }
    let b : Pattern := { name := "B", sources := [], sinks := ["x"], modes := [], implicit := false }
    let value : Expr := .call "" "esc" [.call "" "get" [.name "y" { line := 1, column := 12 },
      .name "y" { line := 1, column := 15 }] { line := 1, column := 8 }] { line := 1, column := 4 }
    let program : Stmt := .block [.assign [.name "x"] value { line := 1 },
      .branch (.name "x" { line := 2, column := 3 }) (.block [.eval (.call "" "sink"
        [.name "x" { line := 3, column := 7 }] { line := 3, column := 2 })]) (.block [])]
    (∀ column ∈ [12, 15], ∀ kind ∈ [FlowKind.explicit, .implicit],
      (analyseProgram .scoped 0 [a, b] program).2.report.Recorded
        ⟨"A", "y", { line := 1, column }, "sink", { line := 3, column := 2, scope := 1 }⟩ kind [.sanitizer "esc" 1]) ∧
    (analyseProgram .plain 0 [a, b] program).1 = (analyseProgram .scoped 0 [a, b] program).1 ∧
      ∀ s x, x ∈ (analyseProgram .plain 0 [a, b] program).2.report.flows s ↔
        ∃ t, x ∈ (analyseProgram .scoped 0 [a, b] program).2.report.flows t ∧ t.moved Position.lineOnly = s := by
  intro a b value program
  have ha : a.ShownBy a :=
    { name := rfl
      sources := fun _ => rfl
      sinks := fun _ => rfl
      sanitizers := fun _ => rfl
      implicit := rfl
      shown := fun s hs => by
        rw [List.mem_singleton.1 (of_decide_eq_true hs)]
        rfl }
  have hb : b.ShownBy b :=
    { name := rfl
      sources := fun _ => rfl
      sinks := fun _ => rfl
      sanitizers := fun _ => rfl
      implicit := rfl
      shown := fun s hs => by cases of_decide_eq_true hs }
  refine ⟨?_, editions_agree (.cons ha (.cons hb .nil)) (by decide) ?_ ?_ 0 0⟩
  · intro column hcolumn kind hkind
    rw [Report.recorded_iff]
    revert column kind
    decide +kernel
  · exact ⟨trivial, ⟨⟨trivial, trivial⟩, trivial⟩, trivial⟩
  · exact ⟨trivial, ⟨⟨trivial, trivial⟩, trivial⟩, trivial⟩

end TaintFlow
