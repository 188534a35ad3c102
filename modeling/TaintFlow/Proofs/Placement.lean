import TaintFlow.Proofs.Nesting
import TaintFlow.Proofs.Provenance

/-
Recorded positions and the regions around them. In the scoped edition a position has the nesting level of the path on
which it was recorded. Where every statement is met at the level that its place in the program gives it, a recorded
position is that of a site with the number of regions around the site. `Stmt.placed` is a test for that. It is weaker
than `Stmt.level`: a statement that does not restore levels does no harm where nothing follows it.
-/
namespace TaintFlow

/-! ## Sites and the regions around them -/

mutual

/-- The sites of a statement with the numbers of branches and iterations around them, of which `depth` are around
the statement. -/
def Stmt.nested : Stmt → (depth : Int) → List (Site × Int)
  | .block body, depth => Stmt.allNested body depth
  | .branch test body orelse, depth =>
    test.sites.map (·, depth + 1) ++ body.nested (depth + 1) ++ orelse.nested (depth + 1)
  | .loop test body orelse, depth => test.sites.map (·, depth) ++ body.nested depth ++ orelse.nested depth
  | .each target iter body orelse spot, depth =>
    (target.sites { line := spot.line } ++ iter.sites).map (·, depth + 1) ++ body.nested (depth + 1) ++
      orelse.nested (depth + 1)
  | s, depth => s.sites.map (·, depth)

def Stmt.allNested : List Stmt → (depth : Int) → List (Site × Int)
  | [], _ => []
  | s :: rest, depth => s.nested depth ++ Stmt.allNested rest depth

end

mutual

/-- All parts of the statement are met at their own level: what is repeated, and what something follows, restores
levels. -/
def Stmt.placed : Stmt → (alone : Bool) → Bool
  | .block body, alone => Stmt.allPlaced body alone
  | .branch _ body orelse, _ => body.placed true && orelse.placed true
  | .loop _ body orelse, _ => body.placed true && body.level true && orelse.placed true
  | .each _ _ body orelse _, _ => body.placed true && body.level true && orelse.placed true
  | _, _ => true

def Stmt.allPlaced : List Stmt → (alone : Bool) → Bool
  | [], _ => true
  | [s], alone => s.placed alone
  | s :: rest, alone => s.placed alone && s.level alone && Stmt.allPlaced rest (alone && !s.forks)

end

/-- The position is that of a site that mentions the name, with the regions around it. -/
def PlacedSource (nested : List (Site × Int)) (x : String) (position : Position) : Prop :=
  ∃ e ∈ nested, x ∈ e.1.mentions ∧ position = Edition.scoped.place e.1.spot e.2

/-- The position is that of a site that exposes the name, with the regions around it. -/
def PlacedSink (nested : List (Site × Int)) (x : String) (position : Position) : Prop :=
  ∃ e ∈ nested, x ∈ e.1.sinks ∧ position = Edition.scoped.place e.1.spot e.2

def MultiLabel.Placed (nested : List (Site × Int)) (m : Taint) : Prop :=
  ∀ name s f, m.Has name s f → PlacedSource nested s f.position

def Path.Placed (nested : List (Site × Int)) (p : Path) : Prop := ∀ m, p.Stores m → m.Placed nested

def Report.Placed (nested : List (Site × Int)) (r : Report) : Prop :=
  ∀ s kind marks, r.Recorded s kind marks → PlacedSource nested s.source s.sourceAt ∧ PlacedSink nested s.sink s.sinkAt

section

variable {nested : List (Site × Int)} {p : Path} {depth : Int}

/-! ## Labels and steps -/

theorem Path.Placed.fork (h : p.Placed nested) : p.fork.Placed nested := by
  intro m hm name s f hf
  obtain ⟨k, hk, rfl⟩ := stores_fork hm
  exact h k hk name s f (MultiLabel.has_mapPatterns.1 hf)

theorem Path.Placed.pop (h : p.Placed nested) : p.pop.Placed nested := fun m hm => h m (stores_pop hm)

theorem Path.Placed.scope (h : p.Placed nested) (k : Int) : { p with scope := k }.Placed nested := fun m hm => h m hm

/-- All labels are placed, on a path at the level `depth`. The level is the same at all steps of a statement, so the
positions that it records are those of its sites at this level. -/
def Custody.placed (nested : List (Site × Int)) (depth : Int) : Custody where
  edition := .scoped
  Kept p := p.scope = depth ∧ p.Placed nested
  Later _ _ := True
  Sound _ m := m.Placed nested
  Reported r := r.Placed nested
  refl _ := trivial
  trans _ _ := trivial

/-- What reaches a sink is recorded with the levels of both places. -/
theorem Report.Placed.flag [SetOrder] (kind : FlowKind) {w : World} {x : String} {spot : Spot} {m : Taint}
    (hr : w.report.Placed nested) (hx : Coupling.Exposed (fun site => (site, w.path.scope) ∈ nested) x spot)
    (hm : m.Placed nested) : ((Eval.flag .scoped x spot m kind).run w).2.report.Placed nested := by
  intro s kind' marks hs
  rcases Eval.recorded_flag_cases hs with hs | ⟨i, f, -, -, hf, hpos, -, -, rfl, hat, -, -⟩
  · exact hr s kind' marks hs
  · obtain ⟨site, hsite, hexposed, rfl⟩ := hx
    refine ⟨?_, (site, w.path.scope), hsite, hexposed, hat⟩
    rw [← hpos]
    exact hm _ s.source f hf

theorem Custody.lawful_placed [SetOrder] (nested : List (Site × Int)) (depth : Int) :
    (Custody.placed nested depth).Lawful fun site => (site, depth) ∈ nested := by
  constructor
  case later => exact fun _ hm => hm
  case stores => exact fun hp hm => hp.2 _ hm
  case moves =>
    intro p q hp hscope _ hs
    exact ⟨⟨hscope.trans hp.1, fun m hm => (hs m hm).elim (hp.2 m) id⟩, trivial⟩
  case combine => exact fun ha hb name s f hf => (MultiLabel.has_combine.1 hf).elim (ha name s f) (hb name s f)
  case clean => exact fun {p} _ name s f hf => absurd hf (p.not_has_clean name s f)
  case source =>
    rintro p x _ m ⟨rfl, -⟩ ⟨site, hsite, hx, rfl⟩ hm name s f hf
    rcases MultiLabel.has_addSource.1 hf with hf | ⟨rfl, rfl, -⟩
    · exact hm name s f hf
    · exact ⟨(site, p.scope), hsite, hx, rfl⟩
  case sanitized =>
    intro p r function spot m _ _ hm name s f hf
    obtain ⟨t, ht, g, hg, rfl⟩ := MultiLabel.has_addSanitizer.1 hf
    have hg := hm name s g ⟨t, ht, hg⟩
    split <;> exact hg
  case flag =>
    rintro w x spot m kind - ⟨rfl, -⟩ hr hx hm
    exact hr.flag kind hx hm

/-! ## The parts of an analysis -/

/-- The result has the one property, if there is one, and the report has the other. -/
def Ensures {β : Type} (Q : β → Prop) (R : Report → Prop) (x : Except Fault β × Report) : Prop :=
  (∀ b, x.1 = .ok b → Q b) ∧ R x.2

theorem Ensures.chain {α β : Type} {P : α → Prop} {Q : β → Prop} {R : Report → Prop}
    {x : Except Fault α × Report} {next : α → Report → Except Fault β × Report} (hx : Ensures P R x)
    (hnext : ∀ a r, x = (.ok a, r) → P a → R r → Ensures Q R (next a r)) :
    Ensures Q R (Analysis.chain x next) := by
  obtain ⟨x, r⟩ := x
  cases x with
  | error f => exact ⟨fun b hb => (by cases hb), hx.2⟩
  | ok a => exact hnext a r rfl (hx.1 a rfl) hx.2

theorem Eval.Upholds.ensures {step : Eval Unit} {P : Path → Prop} {R : Report → Prop} (h : step.Upholds P R)
    {r : Report} (hp : P p) (hr : R r) : Ensures P R (step.outcome p r) := by
  obtain ⟨hpath, hreport⟩ := h p r hp hr
  refine ⟨fun q hq => ?_, hreport⟩
  unfold Eval.outcome at hq
  generalize step.run ⟨p, r⟩ = x at hpath hq
  obtain ⟨x, w⟩ := x
  cases x with
  | error f => cases hq
  | ok u =>
    cases hq
    exact hpath

/-- The path is at the level, and its labels are placed. -/
abbrev Path.PlacedAt (nested : List (Site × Int)) (depth : Int) (p : Path) : Prop :=
  p.scope = depth ∧ p.Placed nested

/-- The step records what it should on paths at the level. -/
abbrev Eval.Places (nested : List (Site × Int)) (depth : Int) (step : Eval Unit) : Prop :=
  step.Upholds (Path.PlacedAt nested depth) (Report.Placed nested)

namespace Analysis

variable {nested : List (Site × Int)} {d depth : Int}

/-- From paths at the level the analysis leads to paths and a report with labels that are placed, provided that
`allowed` holds of whether there is one path. -/
def Places (nested : List (Site × Int)) (d : Int) (allowed : Bool → Bool) (a : Analysis) : Prop :=
  ∀ paths report, allowed (paths.length = 1) = true → (∀ p ∈ paths, p.PlacedAt nested d) → report.Placed nested →
    Within (Path.Placed nested) (Report.Placed nested) (a.outcome paths report)

theorem places_idle {allowed : Bool → Bool} : Places nested d allowed Run.idle :=
  fun _ _ _ hp hr => within_ok (fun p hmem => (hp p hmem).2) hr

/-- Where levels are restored, a further statement is met at the same level. -/
theorem Places.andThen {allowed allowed' level : Bool → Bool} {forks : Bool} {a b : Analysis}
    (ha : Places nested d allowed a) (ht : Treats forks level a) (hb : Places nested d allowed' b) :
    Places nested d (fun alone => allowed alone && level alone && allowed' (alone && !forks))
      fun paths report => (a paths report).andThen b := by
  intro paths report hallowed hp hr
  simp only [Bool.and_eq_true] at hallowed
  obtain ⟨⟨hallowed, hlevel⟩, hallowed'⟩ := hallowed
  rw [outcome_andThen]
  refine Ensures.chain (ha paths report hallowed hp hr) fun mid report' hmid hplaced hr' => ?_
  have hrelevels := ht paths mid ⟨report, report', hmid⟩
  refine hb mid report' ?_ (fun q hq => ⟨?_, hplaced q hq⟩) hr'
  · have halone : decide (mid.length = 1) = (decide (paths.length = 1) && !forks) := by
      rw [Bool.eq_iff_iff]
      simpa using hrelevels.alone
    rw [halone]
    exact hallowed'
  · have hscope := (hrelevels.stutters (by simpa using hlevel)).mem q.scope (List.mem_map.2 ⟨q, hq, rfl⟩)
    obtain ⟨p, hmem, hscope⟩ := List.mem_map.1 hscope
    rw [← hscope]
    exact (hp p hmem).1

theorem places_onEach {step : Eval Unit} {allowed : Bool → Bool} (h : step.Places nested d) :
    Places nested d allowed (onEach step) := by
  intro paths report _ hp hr
  obtain ⟨-, -, hout⟩ := upholds_onEach h paths report hp hr
  exact ⟨fun out ho q hq => (hout.1 out ho q hq).2, hout.2⟩

/-- From one path at the level, with a statement that restores levels, the paths that come out are at the level. -/
theorem Places.restored {allowed level : Bool → Bool} {forks : Bool} {a : Analysis} (ha : Places nested d allowed a)
    (hallowed : allowed true = true) (ht : Treats forks level a) (hlevel : level true = true) {q : Path}
    {report : Report} (hq : q.PlacedAt nested d) (hr : report.Placed nested) :
    Within (Path.PlacedAt nested d) (Report.Placed nested) (a.outcome [q] report) := by
  have hout := ha [q] report hallowed (List.forall_mem_singleton.2 hq) hr
  refine ⟨fun out ho q' hq' => ⟨?_, hout.1 out ho q' hq'⟩, hout.2⟩
  have haround := ht.around (leads_of_paths? ho)
  rw [← hq.1]
  exact haround.exact.2 hlevel q'.scope (List.mem_map.2 ⟨q', hq', rfl⟩)

section Fork

variable {enter : Eval Unit} {allowed allowed' : Bool → Bool} {body orelse : Analysis}

-- Nothing is known of the levels of `new`: later paths lower them once more.
theorem places_fork (he : enter.Places nested (d + 1)) (hb : Places nested (d + 1) allowed body)
    (hallowed : allowed true = true) (ho : Places nested (d + 1) allowed' orelse) (hallowed' : allowed' true = true) :
    ∀ (paths done new : List Path) (report : Report), (∀ p ∈ paths, p.PlacedAt nested d) →
      (∀ q ∈ new, q.Placed nested) → report.Placed nested →
      Within (Path.Placed nested) (Report.Placed nested) (outcome (fork enter body orelse done new) paths report)
  | [], _, _, _, _, hn, hr => within_ok hn hr
  | p :: rest, done, new, report, hp, hn, hr => by
    rw [List.forall_mem_cons] at hp
    obtain ⟨⟨hscope, hplaced⟩, hrest⟩ := hp
    rw [outcome_fork_cons]
    have hraised : Path.PlacedAt nested (d + 1) { p with scope := p.scope + 1 } :=
      ⟨by rw [← hscope], hplaced.scope _⟩
    refine Ensures.chain (he.ensures hraised hr) fun q r₁ _ hq hr₁ => ?_
    have hcopy : ∀ p ∈ [q.fork], p.PlacedAt nested (d + 1) := List.forall_mem_singleton.2 ⟨hq.1, hq.2.fork⟩
    refine Ensures.chain (hb [q.fork] r₁ hallowed hcopy hr₁) fun yes r₂ _ hyes hr₂ => ?_
    refine Ensures.chain (ho [q.fork] r₂ hallowed' hcopy hr₂) fun no r₃ _ hno hr₃ => ?_
    refine places_fork he hb hallowed ho hallowed' rest _ _ r₃ hrest ?_ hr₃
    have hall : ∀ q ∈ new ++ yes ++ no, q.Placed nested :=
      List.forall_mem_append.2 ⟨List.forall_mem_append.2 ⟨hn, hyes⟩, hno⟩
    exact List.forall_mem_map.2 fun q hq => (hall q hq).pop.scope _

end Fork

section Loop

variable {enter : Eval Unit} {allowed allowed' level : Bool → Bool} {forks : Bool} {body orelse : Analysis}

theorem places_iteration (he : enter.Places nested d) (hb : Places nested d allowed body)
    (hallowed : allowed true = true) (ht : Treats forks level body) (hlevel : level true = true) :
    WalkUpholds (Path.PlacedAt nested d) (Report.Placed nested) (iteration enter body) fun _ _ => [] := by
  intro p report hp hr
  refine ⟨List.forall_mem_nil _, ?_⟩
  have henter := he p report hp hr
  unfold iteration
  generalize enter.run ⟨p, report⟩ = x at henter
  obtain ⟨x, w⟩ := x
  obtain ⟨hw, hwr⟩ := henter
  cases x with
  | error f => exact within_error hwr
  | ok u =>
    have hout := hb.restored hallowed ht hlevel hw hwr
    unfold outcome at hout
    dsimp only
    generalize body [w.path] w.report = r at hout ⊢
    obtain ⟨given, report', result⟩ := r
    match result with
    | .error f => exact within_error hout.2
    | .ok none =>
      refine within_ok (List.forall_mem_map.2 fun q hq => ?_) hout.2
      obtain ⟨hscope, hplaced⟩ := hout.1 given rfl q hq
      exact ⟨hscope, hplaced.pop.pop⟩
    | .ok (some new) =>
      refine within_ok (List.forall_mem_map.2 fun q hq => ?_) hout.2
      obtain ⟨hscope, hplaced⟩ := hout.1 new rfl q hq
      exact ⟨hscope, hplaced.pop⟩

variable {d' : Int} (hd : d' = d + depth) (he : enter.Places nested d') (hb : Places nested d' allowed body)
  (hallowed : allowed true = true) (ht : Treats forks level body) (hlevel : level true = true)
  (ho : Places nested d' allowed' orelse) (hallowed' : allowed' true = true)

include hd he hb hallowed ht hlevel ho hallowed'

theorem places_loopFrom (limit : Nat) {p : Path} {report : Report} (hp : p.PlacedAt nested d)
    (hr : report.Placed nested) :
    Within (Path.Placed nested) (Report.Placed nested) (loopFrom limit depth enter body orelse p report) := by
  have hentry : ∀ q ∈ [entry depth p], q.PlacedAt nested d' := by
    refine List.forall_mem_singleton.2 ⟨?_, hp.2.fork.scope _⟩
    show p.scope + depth = d'
    rw [hp.1, hd]
  have hrounds : ∀ n report, report.Placed nested → (∀ q ∈ ([] : List Path), q.Placed nested) ∧
      Within (Path.Placed nested) (Report.Placed nested) (rounds depth enter body (entry depth p) n report) := by
    intro n report hr
    refine ⟨List.forall_mem_nil _, ?_⟩
    have hunroll := (upholds_unroll (places_iteration he hb hallowed ht hlevel) n [entry depth p] report hentry hr).2
    rw [rounds_eq_chain]
    refine Ensures.chain hunroll fun paths r₁ _ hpaths hr₁ => ?_
    exact within_ok (List.forall_mem_map.2 fun q hq => (hpaths q hq).2.scope _) hr₁
  have hsearch : Within (Path.Placed nested) (Report.Placed nested) (search limit depth enter body p report) :=
    (upholds_settle hrounds limit 0 [] [] report (List.forall_mem_nil _) hr).2
  rw [loopFrom_eq_chain]
  refine Ensures.chain hsearch fun found r₁ _ hfound hr₁ => ?_
  refine Ensures.chain (ho [entry depth p] r₁ hallowed' hentry hr₁) fun skipped r₂ _ hskipped hr₂ => ?_
  refine within_ok (List.forall_mem_append.2 ⟨hfound, fun q hq => ?_⟩) hr₂
  obtain ⟨q', hq', rfl | rfl⟩ := mem_leaveLoop hq
  · exact (hskipped q' hq').pop
  · exact (hskipped q' hq').pop.pop

theorem places_loop (limit : Nat) : ∀ (paths : List Path) (report : Report), (∀ p ∈ paths, p.PlacedAt nested d) →
    report.Placed nested →
    Within (Path.Placed nested) (Report.Placed nested) (outcome (loop limit depth enter body orelse) paths report) := by
  intro paths report hp hr
  rw [outcome_loop]
  induction paths generalizing report with
  | nil => exact within_ok (List.forall_mem_nil _) hr
  | cons p rest ih =>
    rw [List.forall_mem_cons] at hp
    rw [iterate_cons]
    have hfrom := places_loopFrom hd he hb hallowed ht hlevel ho hallowed' limit hp.1 hr
    refine Ensures.chain hfrom fun first r₁ _ hfirst hr₁ => ?_
    refine Ensures.chain (ih r₁ hp.2 hr₁) fun others r₂ _ hothers hr₂ => ?_
    exact within_ok (List.forall_mem_append.2 ⟨hfirst, hothers⟩) hr₂

end Loop

end Analysis

/-! ## Statements -/

open Analysis

theorem Stmt.forall_nested_map {sites : List Site} (h : ∀ e ∈ sites.map (·, depth), e ∈ nested) :
    ∀ site ∈ sites, (site, depth) ∈ nested :=
  fun site hs => h _ (List.mem_map.2 ⟨site, hs, rfl⟩)

theorem Stmt.places_assign [SetOrder] {targets : List Target} {value : Expr} {spot : Spot} {allowed : Bool → Bool}
    (h : ∀ site ∈ targets.flatMap (·.sites spot) ++ value.sites, (site, depth) ∈ nested) :
    Places nested depth allowed (onEach do discard (Eval.assign .scoped targets value spot)) :=
  places_onEach (Discipline.Holds.upholds (fun _ => Iff.rfl) fun w =>
    ((Custody.lawful_placed nested depth).writes.assigns h w).discard)

theorem Stmt.places_enterTest [SetOrder] {test : Expr} (h : ∀ site ∈ test.sites, (site, depth) ∈ nested) :
    (Eval.enterTest .scoped test).Places nested depth :=
  Discipline.Holds.upholds (fun _ => Iff.rfl) fun w => (Custody.lawful_placed nested depth).writes.enterTest h w

mutual

theorem Stmt.places_analyse [SetOrder] (limit : Nat) : ∀ (s : Stmt) {depth : Int}, (∀ e ∈ s.nested depth, e ∈ nested) →
    Places nested depth s.placed (s.analyse .scoped limit)
  | .skip, _, _ => by
    rw [Stmt.analyse.eq_def]
    exact places_idle
  | .block body, _, hn => by
    rw [Stmt.analyse.eq_def]
    exact Stmt.places_analyseBlock limit body hn
  | .assign targets value spot, _, hn => by
    rw [Stmt.analyse.eq_def]
    exact Stmt.places_assign (Stmt.forall_nested_map hn)
  | .annotated target value spot, depth, hn => by
    rw [Stmt.analyse.eq_def]
    have hsites : ∀ site ∈ target.sites { line := spot.line } ++ value.sites, (site, depth) ∈ nested :=
      Stmt.forall_nested_map hn
    exact Stmt.places_assign (by rwa [List.flatMap_singleton])
  | .augmented target current value spot, depth, hn => by
    rw [Stmt.analyse.eq_def]
    have hsites : ∀ site ∈ target.sites { line := spot.line } ++ current.sites ++ value.sites,
        (site, depth) ∈ nested := Stmt.forall_nested_map hn
    rw [List.append_assoc] at hsites
    exact Stmt.places_assign (by rwa [List.flatMap_singleton, Expr.sites])
  | .eval value, _, hn => by
    rw [Stmt.analyse.eq_def]
    exact places_onEach (Discipline.Holds.upholds (fun _ => Iff.rfl) fun w =>
      ((Custody.lawful_placed nested _).writes.evaluate (Stmt.forall_nested_map hn) .value w).discard)
  | .branch test body orelse, _, hn => by
    rw [Stmt.analyse.eq_def]
    rw [Stmt.nested, List.forall_mem_append, List.forall_mem_append] at hn
    intro paths report hplaced hp hr
    rw [Stmt.placed, Bool.and_eq_true] at hplaced
    exact places_fork (Stmt.places_enterTest (Stmt.forall_nested_map hn.1.1)) (Stmt.places_analyse limit body hn.1.2)
      hplaced.1 (Stmt.places_analyse limit orelse hn.2) hplaced.2 paths [] [] report hp (List.forall_mem_nil _) hr
  | .loop test body orelse, _, hn => by
    rw [Stmt.analyse.eq_def]
    rw [Stmt.nested, List.forall_mem_append, List.forall_mem_append] at hn
    intro paths report hplaced hp hr
    rw [Stmt.placed, Bool.and_eq_true, Bool.and_eq_true] at hplaced
    exact places_loop (Int.add_zero _).symm (Stmt.places_enterTest (Stmt.forall_nested_map hn.1.1))
      (Stmt.places_analyse limit body hn.1.2) hplaced.1.1 (body.treats_analyse .scoped limit) hplaced.1.2
      (Stmt.places_analyse limit orelse hn.2) hplaced.2 limit paths report hp hr
  | .each target iter body orelse spot, depth, hn => by
    rw [Stmt.analyse.eq_def]
    rw [Stmt.nested, List.forall_mem_append, List.forall_mem_append] at hn
    have henter : (Eval.enterItem .scoped target iter { line := spot.line }).Places nested (depth + 1) :=
      Discipline.Holds.upholds (fun _ => Iff.rfl) fun w =>
        (Custody.lawful_placed nested (depth + 1)).writes.enterItem (Stmt.forall_nested_map hn.1.1) w
    intro paths report hplaced hp hr
    rw [Stmt.placed, Bool.and_eq_true, Bool.and_eq_true] at hplaced
    exact places_loop rfl henter (Stmt.places_analyse limit body hn.1.2) hplaced.1.1
      (body.treats_analyse .scoped limit) hplaced.1.2 (Stmt.places_analyse limit orelse hn.2) hplaced.2 limit paths
      report hp hr
  | .fails fault, _, _ => by
    rw [Stmt.analyse.eq_def]
    exact fun _ _ _ _ hr => within_error hr

theorem Stmt.places_analyseBlock [SetOrder] (limit : Nat) : ∀ (body : List Stmt) {depth : Int},
    (∀ e ∈ Stmt.allNested body depth, e ∈ nested) →
    Places nested depth (Stmt.allPlaced body) (Stmt.analyseBlock .scoped limit body)
  | [], _, _ => by
    rw [Stmt.analyseBlock.eq_def]
    exact places_idle
  -- nothing follows the last statement, so it need not restore levels
  | [s], _, hn => by
    rw [Stmt.allNested, List.forall_mem_append] at hn
    intro paths report hplaced hp hr
    rw [Stmt.analyseBlock, outcome_andThen]
    refine Ensures.chain (Stmt.places_analyse limit s hn.1 paths report hplaced hp hr) fun mid r _ hmid hr => ?_
    rw [Stmt.analyseBlock]
    exact within_ok hmid hr
  | s :: t :: rest, _, hn => by
    rw [Stmt.analyseBlock.eq_def]
    rw [Stmt.allNested, List.forall_mem_append] at hn
    exact (Stmt.places_analyse limit s hn.1).andThen (s.treats_analyse .scoped limit)
      (Stmt.places_analyseBlock limit (t :: rest) hn.2)

end

end

/-! ## Whole programs -/

theorem Path.placedAt_start (nested : List (Site × Int)) (patterns : List Pattern) :
    (Path.start patterns).PlacedAt nested 0 :=
  ⟨rfl, fun m hm => absurd hm (Path.not_stores_start patterns m)⟩

/-- A program restores the levels of all paths exactly if it is `level`: each path that comes out has the level of
the path it comes from, and from paths of one level it leads to paths of that level only. If all its parts are met at
their own levels, every recorded source and sink has the number of branches and iterations around it. -/
theorem levels_restored_iff [SetOrder] (program : Stmt) (limit : Nat) :
    (∀ paths report out, (program.analyse .scoped limit paths report).paths? = .ok out →
      (program.level (paths.length = 1) = true → Stutters (paths.map (·.scope)) (out.map (·.scope))) ∧
      ∀ k, paths ≠ [] → (∀ p ∈ paths, p.scope = k) →
        ((∀ q ∈ out, q.scope = k) ↔ program.level (paths.length = 1) = true)) ∧
    (program.placed true = true → ∀ patterns s kind marks,
      (analyseProgram .scoped limit patterns program).2.report.Recorded s kind marks →
        PlacedSource (program.nested 0) s.source s.sourceAt ∧ PlacedSink (program.nested 0) s.sink s.sinkAt) := by
  constructor
  · intro paths report out h
    have hrelevels := program.treats_analyse .scoped limit paths out (Analysis.leads_of_paths? h)
    have hlength : (paths.map Path.scope).length = paths.length := List.length_map _
    have hstutters : program.level (paths.length = 1) = true → Stutters (paths.map (·.scope)) (out.map (·.scope)) :=
      fun hlevel => hrelevels.stutters (by rwa [hlength])
    refine ⟨hstutters, fun k hne hk => ⟨fun hout => ?_, fun hlevel q hq => ?_⟩⟩
    · -- paths of one level begin and end at it, and no statement mends what another one spoils
      have hspans : Spans k (paths.map Path.scope) :=
        .of_forall (fun h => hne (List.map_eq_nil_iff.1 h)) (List.forall_mem_map.2 hk)
      have hexact := (hrelevels.exact hspans (List.forall_mem_map.2 hout)).2
      rwa [hlength] at hexact
    · have hscope := (hstutters hlevel).mem q.scope (List.mem_map.2 ⟨q, hq, rfl⟩)
      obtain ⟨p, hp, hscope⟩ := List.mem_map.1 hscope
      rw [← hscope]
      exact hk p hp
  · intro hplaced patterns s kind marks hs
    have hempty : Report.Placed (program.nested 0) {} := by
      rintro s kind marks ⟨_, _, h, _⟩
      cases h
    have hout := program.places_analyse limit (fun _ he => he) [Path.start patterns] {} hplaced
      (List.forall_mem_singleton.2 (Path.placedAt_start _ patterns)) hempty
    rw [report_analyseProgram] at hs
    exact hout.2 s kind marks hs

/-- `x = get()` and then `while x: if x: sink(x)`: all paths end outside of all regions, and the sink is recorded inside
of one. -/
theorem levels_of_branch_in_loop_restored :
    let a : Pattern := { name := "A", sources := ["get"], sinks := ["sink"], modes := [], implicit := false }
    let sink : Stmt := .eval (.call "" "sink" [.name "x" { line := 4, column := 13 }] { line := 4, column := 8 })
    let program : Stmt := .block [
      .assign [.name "x"] (.call "" "get" [] { line := 1, column := 4 }) { line := 1 },
      .loop (.name "x" { line := 2, column := 6 }) (.block [
        .branch (.name "x" { line := 3, column := 7 }) (.block [sink]) (.block [])]) (.block [])]
    let subject : Subject := ⟨"A", "get", { line := 1, column := 4 }, "sink", { line := 4, column := 8, scope := 1 }⟩
    program.level true = true ∧ program.placed true = true ∧
      (∃ out, (program.analyse .scoped 5 [Path.start [a]] {}).paths? = .ok out ∧ out.length = 7 ∧
        ∀ q ∈ out, q.scope = 0) ∧
      (analyseProgram .scoped 5 [a] program).2.report.Recorded subject .explicit [] ∧
      PlacedSource (program.nested 0) "get" subject.sourceAt ∧ PlacedSink (program.nested 0) "sink" subject.sinkAt := by
  intro a sink program subject
  have hlength : (program.analyse .scoped 5 [Path.start [a]] {}).paths?.toOption.map (·.length) = some 7 := by
    decide +kernel
  have hrec : (analyseProgram .scoped 5 [a] program).2.report.Recorded subject .explicit [] :=
    Report.recorded_iff.2 (by decide +kernel)
  obtain ⟨hrestored, hplaced⟩ := levels_restored_iff program 5
  refine ⟨rfl, rfl, ?_, hrec, hplaced rfl [a] subject .explicit [] hrec⟩
  cases hout : (program.analyse .scoped 5 [Path.start [a]] {}).paths? with
  | error fault =>
    rw [hout] at hlength
    cases hlength
  | ok out =>
    rw [hout] at hlength
    exact ⟨out, rfl, Option.some.inj hlength,
      ((hrestored _ _ out hout).2 0 (by simp) (List.forall_mem_singleton.2 rfl)).2 rfl⟩

/-- Levels are not restored after two branches in a row, `if a: b = 1` and `if c: d = 1`: the paths of the first
branch's body end below the level of the program. Nor are they after an iteration, `for i in y: z = 1`: the path that
skips it ends inside. A call `sink(e)` that follows is recorded at both wrong levels. -/
theorem levels_lost_after_branches_and_iterations :
    let a : Pattern := { name := "A", sources := ["get"], sinks := ["sink"], modes := [], implicit := false }
    let put (x : String) (line : Int) : Stmt := .block [.assign [.name x] .inert { line }]
    let sink (line : Int) : Stmt := .eval (.call "" "sink" [.name "e" { line, column := 5 }] { line })
    let subject (line scope : Int) : Subject :=
      ⟨"A", "e", { line, column := 5, scope }, "sink", { line, scope }⟩
    let branches : Stmt := .block [
      .branch (.name "a" { line := 1, column := 3 }) (put "b" 2) (.block []),
      .branch (.name "c" { line := 3, column := 3 }) (put "d" 4) (.block []), sink 5]
    let iteration : Stmt := .block [
      .each (.name "i") (.name "y" { line := 1, column := 9 }) (put "z" 2) (.block []) { line := 1 }, sink 3]
    (analyseProgram .scoped 5 [a] branches).2.paths.map (·.scope) = [-1, -1, 0, 0] ∧
      (analyseProgram .scoped 5 [a] branches).2.report.Recorded (subject 5 (-1)) .explicit [] ∧
      (analyseProgram .scoped 5 [a] iteration).2.paths.map (·.scope) = [0, 0, 0, 1] ∧
      (analyseProgram .scoped 5 [a] iteration).2.report.Recorded (subject 3 1) .explicit [] := by
  intro a put sink subject branches iteration
  refine ⟨by decide +kernel, Report.recorded_iff.2 (by decide +kernel), by decide +kernel,
    Report.recorded_iff.2 (by decide +kernel)⟩

end TaintFlow
