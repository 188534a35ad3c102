import TaintFlow.Proofs.Coupling
import TaintFlow.Proofs.Submissions
import TaintFlow.Proofs.Unwinding

/-
The log of a run. The analysis adds to the report and never looks at it: what a part of a program makes of a path, and
what it hands over to the report, are the same whatever was reported before. So a run is told by its result and by its
log, the submissions that it makes one after the other, and each of these is made at a site of the program.

Two runs are parallel if they come to the same result and their logs correspond entry by entry. There is one rule for
each way to build a step, and the laws for expressions, assignments and statements follow their recursion.
-/
namespace TaintFlow

open Listing

/-! ## Submissions -/

/-- What a submission leaves in a report. -/
def Submission.Records [SetOrder] (edition : Edition) (c : Submission) (s : Subject) (kind : FlowKind)
    (marks : List Mark) : Prop :=
  ∃ name t, c.flows.entries.get? name = some t ∧
    Report.Filed edition c.sink c.sinkAt c.kind t.pattern t.label s kind marks

/-- The submission is made at an allowed site, and has the flows of each pattern under the name of the pattern. -/
structure Submission.Raised (edition : Edition) (allowed : Site → Prop) (c : Submission) : Prop where
  named : ∀ name t, c.flows.entries.get? name = some t → t.pattern.name = name
  at_site : ∃ site, allowed site ∧ c.sink ∈ site.sinks ∧ ∃ scope, c.sinkAt = edition.place site.spot scope

namespace Report

variable {edition : Edition}

/-! ### Faults

Whether a submission can be added depends neither on the report nor on the sink. -/

theorem fault_each_eq {α : Type} {step step' : α → Report → Report × Option Fault} {l : List α} :
    (∀ a ∈ l, ∀ r r', (step a r).2 = (step' a r').2) → ∀ r r', (each step l r).2 = (each step' l r').2 := by
  induction l with
  | nil => exact fun _ _ _ => rfl
  | cons a l ih =>
    intro h r r'
    rw [List.forall_mem_cons] at h
    have ha := h.1 r r'
    rw [each, each]
    generalize step a r = x at ha ⊢
    generalize step' a r' = y at ha ⊢
    obtain ⟨r₁, fault?⟩ := x
    obtain ⟨r₁', fault'?⟩ := y
    cases ha
    cases fault? with
    | none => exact ih h.2 r₁ r₁'
    | some f => rfl

theorem fault_recordPaths_eq (f : Report → Report) (kind : FlowKind) (s s' : Subject) (paths : List (List Mark))
    (r r' : Report) : (attempt (fun r => (f r).recordPaths kind s paths) r).2 =
      (attempt (fun r => (f r).recordPaths kind s' paths) r').2 := by
  unfold attempt recordPaths
  cases sightings kind (thin paths) <;> rfl

theorem fault_addGroup_eq [SetOrder] (kind : FlowKind) (p : Pattern) (s s' : Subject) (paths : List (List Mark))
    (r r' : Report) :
    (attempt (addGroup edition kind p s paths) r).2 = (attempt (addGroup edition kind p s' paths) r').2 := by
  cases edition
  · exact fault_recordPaths_eq id kind s s' paths r r'
  · unfold addGroup
    cases shownPaths p paths with
    | error f => rfl
    | ok shown =>
      cases shown with
      | nil => rfl
      | cons path shown => exact fault_recordPaths_eq (·.meet p.name) kind s s' (path :: shown) r r'

theorem fault_submit_eq [SetOrder] {c c' : Submission} (hflows : c.flows = c'.flows) (hkind : c.kind = c'.kind)
    (r r' : Report) :
    (submit edition c r).2 = (submit edition c' r').2 := by
  unfold submit
  rw [hflows, hkind]
  refine fault_each_eq (fun e _ r r' => ?_) r r'
  rw [addTracked.eq_def, addTracked.eq_def]
  split
  · rfl
  · exact fault_each_eq (fun _ _ => fault_each_eq fun _ _ => fault_addGroup_eq c'.kind e.1 _ _ _) _ _

/-! ### Submissions one after the other -/

theorem submitAll_singleton [SetOrder] (c : Submission) (r : Report) :
    submitAll edition [c] r = submit edition c r := by
  unfold submitAll
  rw [each]
  generalize submit edition c r = x
  obtain ⟨r', fault?⟩ := x
  cases fault? <;> rfl

theorem submitAll_append [SetOrder] {log : List Submission} (log' : List Submission) : ∀ {r : Report},
    (submitAll edition log r).2 = none →
      submitAll edition (log ++ log') r = submitAll edition log' (submitAll edition log r).1 := by
  unfold submitAll
  induction log with
  | nil => exact fun _ => rfl
  | cons c log ih =>
    intro r h
    rw [List.cons_append, each, each]
    rw [each] at h
    generalize submit edition c r = x at h ⊢
    obtain ⟨r₁, fault?⟩ := x
    cases fault? with
    | none => exact ih h
    | some f => cases h

/-- A log that is added without a fault leaves what each of its submissions leaves. -/
theorem recorded_submitAll [SetOrder] {log : List Submission} {r : Report} (h : (submitAll edition log r).2 = none)
    {s : Subject} {kind : FlowKind} {marks : List Mark} :
    (submitAll edition log r).1.Recorded s kind marks ↔
      r.Recorded s kind marks ∨ ∃ c ∈ log, c.Records edition s kind marks := by
  have hfiles : Files (submitAll edition log) fun s kind marks => ∃ c ∈ log, c.Records edition s kind marks :=
    files_each fun c _ => files_add
  refine ⟨hfiles.only r s kind marks, ?_⟩
  rintro (hr | hnew)
  · exact hfiles.keeps r s kind marks hr
  · exact hfiles.all r h s kind marks hnew

end Report

/-! ## Runs and their logs -/

/-- Whatever was reported before, the run comes to this result and adds this log, all of it unless it ends in a
fault. -/
structure Logs [SetOrder] (edition : Edition) {α : Type} (run : Report → Except Fault α × Report)
    (result : Except Fault α) (log : List Submission) : Prop where
  run_eq : ∀ r, run r = (result, (Report.submitAll edition log r).1)
  added : ∀ a, result = .ok a → ∀ r, (Report.submitAll edition log r).2 = none

/-- The runs come to the same result, which has the property `Q`, and their logs correspond. -/
def Parallel [SetOrder] (edition : Edition) (R : Submission → Submission → Prop) {α : Type} (Q : α → Prop)
    (run run' : Report → Except Fault α × Report) : Prop :=
  ∃ result log log', Logs edition run result log ∧ Logs edition run' result log' ∧ List.Forall₂ R log log' ∧
    ∀ a, result = .ok a → Q a

section Rules

variable {edition : Edition} {R : Submission → Submission → Prop} {α β : Type} {Q : α → Prop} {Q' : β → Prop}

theorem logs_nil [SetOrder] (result : Except Fault α) : Logs edition (fun r => (result, r)) result [] :=
  ⟨fun _ => rfl, fun _ _ _ => rfl⟩

/-- What was reported by a run that has a result is what was reported before, and its log. -/
theorem Logs.recorded [SetOrder] {run : Report → Except Fault α × Report} {a : α} {log : List Submission}
    (h : Logs edition run (.ok a) log) {r : Report} {s : Subject} {kind : FlowKind} {marks : List Mark} :
    (run r).2.Recorded s kind marks ↔ r.Recorded s kind marks ∨ ∃ c ∈ log, c.Records edition s kind marks := by
  rw [h.run_eq r]
  exact Report.recorded_submitAll (h.added a rfl r)

theorem Logs.result_eq [SetOrder] {run : Report → Except Fault α × Report} {result : Except Fault α}
    {log : List Submission} (h : Logs edition run result log) {r r' : Report} {a : α} (hr : run r = (.ok a, r')) :
    result = .ok a := by
  rw [h.run_eq r] at hr
  exact congrArg Prod.fst hr

/-- What a run reports is what it reports on its own, whatever was reported before. -/
theorem Logs.recorded_iff [SetOrder] {run : Report → Except Fault α × Report} {result : Except Fault α}
    {log : List Submission} (h : Logs edition run result log) {r r' : Report} {a : α} (hr : run r = (.ok a, r'))
    {s : Subject} {kind : FlowKind} {marks : List Mark} :
    r'.Recorded s kind marks ↔ r.Recorded s kind marks ∨ (run {}).2.Recorded s kind marks := by
  obtain rfl := h.result_eq hr
  have hrun : (run r).2.Recorded s kind marks ↔ _ := h.recorded
  rw [hr] at hrun
  rw [hrun, h.recorded, or_iff_right (Report.not_recorded_empty s kind marks)]

theorem Logs.chain [SetOrder] {run : Report → Except Fault α × Report} {next : α → Report → Except Fault β × Report}
    {a : α} {result : Except Fault β} {log log' : List Submission} (h : Logs edition run (.ok a) log)
    (hnext : Logs edition (next a) result log') :
    Logs edition (fun r => Analysis.chain (run r) next) result (log ++ log') := by
  have happend := fun r => Report.submitAll_append log' (h.added a rfl r)
  constructor
  · intro r
    rw [happend r]
    show Analysis.chain (run r) next = _
    rw [h.run_eq r]
    exact hnext.run_eq _
  · intro b hb r
    rw [happend r]
    exact hnext.added b hb _

theorem Logs.chain_error [SetOrder] {run : Report → Except Fault α × Report}
    {next : α → Report → Except Fault β × Report} {f : Fault} {log : List Submission}
    (h : Logs edition run (.error f) log) :
    Logs edition (fun r => Analysis.chain (run r) next) (.error f) log := by
  refine ⟨fun r => ?_, fun b hb => by cases hb⟩
  show Analysis.chain (run r) next = _
  rw [h.run_eq r]
  rfl

theorem Parallel.ok [SetOrder] {a : α} (ha : Q a) : Parallel edition R Q (fun r => (.ok a, r)) fun r => (.ok a, r) := by
  refine ⟨_, [], [], logs_nil _, logs_nil _, .nil, fun b hb => ?_⟩
  cases hb
  exact ha

theorem Parallel.error [SetOrder] (f : Fault) : Parallel edition R Q (fun r => (.error f, r)) fun r => (.error f, r) :=
  ⟨_, [], [], logs_nil _, logs_nil _, .nil, fun b hb => by cases hb⟩

theorem Parallel.chain [SetOrder] {run run' : Report → Except Fault α × Report}
    {next next' : α → Report → Except Fault β × Report} (h : Parallel edition R Q run run')
    (hnext : ∀ a, Q a → Parallel edition R Q' (next a) (next' a)) :
    Parallel edition R Q' (fun r => Analysis.chain (run r) next) fun r => Analysis.chain (run' r) next' := by
  obtain ⟨result, log, log', hrun, hrun', hlog, hq⟩ := h
  cases result with
  | error f => exact ⟨.error f, log, log', hrun.chain_error, hrun'.chain_error, hlog, fun b hb => by cases hb⟩
  | ok a =>
    obtain ⟨result, more, more', hmore, hmore', hrest, hq'⟩ := hnext a (hq a rfl)
    exact ⟨result, _, _, hrun.chain hmore, hrun'.chain hmore', List.rel_append hlog hrest, hq'⟩

/-- A run beside itself shows that it has a log, and what the log is made of. -/
theorem Parallel.exists_logs [SetOrder] {run run' : Report → Except Fault α × Report} {P : Submission → Prop}
    (h : Parallel edition (fun c _ => P c) Q run run') :
    ∃ result log, Logs edition run result log ∧ ∀ c ∈ log, P c := by
  obtain ⟨result, log, log', hrun, -, hlog, -⟩ := h
  refine ⟨result, log, hrun, fun c hc => ?_⟩
  obtain ⟨c', -, hP⟩ := forall₂_mem_right hlog.flip c hc
  exact hP

end Rules

/-! ## Steps on one path -/

namespace Eval

variable {edition : Edition} {R : Submission → Submission → Prop} {α β : Type} {Q : α → Prop} {Q' : β → Prop}

/-- What a step gives on a path, and the path it leaves. -/
def result (x : Eval α) (p : Path) (r : Report) : Except Fault (α × Path) × Report :=
  ((x.run ⟨p, r⟩).1.map fun a => (a, (x.run ⟨p, r⟩).2.path), (x.run ⟨p, r⟩).2.report)

theorem result_bind (x : Eval α) (f : α → Eval β) (p : Path) (r : Report) :
    (x >>= f).result p r = Analysis.chain (x.result p r) fun a => (f a.1).result a.2 := by
  unfold result
  rw [run_bind]
  generalize x.run ⟨p, r⟩ = y
  obtain ⟨y, w⟩ := y
  cases y <;> rfl

theorem outcome_eq_result (step : Eval Unit) (p : Path) (r : Report) :
    step.outcome p r = Analysis.chain (step.result p r) fun a r => (.ok a.2, r) := by
  unfold outcome result
  generalize step.run ⟨p, r⟩ = y
  obtain ⟨y, w⟩ := y
  cases y <;> rfl

variable (edition R Q) in
/-- Two steps are parallel on every path. -/
def Pairs [SetOrder] (x y : Eval α) : Prop := ∀ p, Parallel edition R (fun a => Q a.1) (x.result p) (y.result p)

theorem Pairs.bind [SetOrder] {x y : Eval α} {f g : α → Eval β} (h : Pairs edition R Q x y)
    (hf : ∀ a, Q a → Pairs edition R Q' (f a) (g a)) : Pairs edition R Q' (x >>= f) (y >>= g) := by
  intro p
  rw [funext (result_bind x f p), funext (result_bind y g p)]
  exact (h p).chain fun a ha => hf a.1 ha a.2

theorem pairs_pure [SetOrder] {a : α} (ha : Q a) : Pairs edition R Q (pure a) (pure a) :=
  fun p => Parallel.ok (Q := fun a => Q a.1) (a := (a, p)) ha

theorem pairs_throw [SetOrder] (f : Fault) : Pairs edition R Q (throw f) (throw f) := fun _ => .error f

theorem pairs_path [SetOrder] : Pairs edition R (fun _ => True) path path :=
  fun p => Parallel.ok (Q := fun _ => True) (a := (p, p)) trivial

theorem pairs_setPath [SetOrder] (q : Path) : Pairs edition R (fun _ => True) (setPath q) (setPath q) :=
  fun _ => Parallel.ok (Q := fun _ => True) (a := ((), q)) trivial

theorem pairs_clean [SetOrder] : Pairs edition R (fun _ => True) clean clean :=
  pairs_path.bind fun _ _ => pairs_pure trivial

theorem Pairs.discard [SetOrder] {x y : Eval α} (h : Pairs edition R Q x y) :
    Pairs edition R (fun _ => True) (discard x) (discard y) := h.bind fun _ _ => pairs_pure trivial

/-- What is handed over where a value reaches a sink. -/
def submission (edition : Edition) (sink : String) (spot : Spot) (m : Taint) (kind : FlowKind) (p : Path) :
    Submission :=
  ⟨sink, edition.place spot p.scope, (p.detect sink m).mapPatterns p.view, kind⟩

theorem result_flag [SetOrder] (sink : String) (spot : Spot) (m : Taint) (kind : FlowKind) (p : Path) (r : Report) :
    (flag edition sink spot m kind).result p r =
      (match (Report.submit edition (submission edition sink spot m kind p) r).2 with
        | none => .ok ((), p)
        | some f => .error f,
      (Report.submit edition (submission edition sink spot m kind p) r).1) := by
  have hsubmit : Report.submit edition (submission edition sink spot m kind p) r =
      r.add edition p.view sink (edition.place spot p.scope) (p.detect sink m) kind := by
    unfold Report.submit submission Report.add MultiLabel.mapPatterns
    simp only [Table.values, Table.map, List.map_map]
    rfl
  rw [hsubmit]
  unfold result
  rw [run_flag]
  by_cases hempty : (p.detect sink m).isEmpty
  · rw [if_pos hempty]
    have hnone : r.add edition p.view sink (edition.place spot p.scope) (p.detect sink m) kind = (r, none) := by
      unfold Report.add Table.values
      rw [List.isEmpty_iff.1 hempty]
      rfl
    rw [hnone]
    rfl
  · rw [if_neg hempty]
    dsimp only
    generalize r.add edition p.view sink (edition.place spot p.scope) (p.detect sink m) kind = x
    obtain ⟨r', fault?⟩ := x
    cases fault? <;> rfl

theorem named_submission {sink : String} {spot : Spot} {m : Taint} {kind : FlowKind} {p : Path} {name : String}
    {t : Tracked Pattern} (ht : (submission edition sink spot m kind p).flows.entries.get? name = some t) :
    t.pattern.name = name := by
  unfold submission at ht
  rw [MultiLabel.get?_mapPatterns] at ht
  obtain ⟨t', ht', rfl⟩ := Option.map_eq_some_iff.1 ht
  obtain ⟨i, u, -, hi, hname, -⟩ := Path.get?_detect ht'
  dsimp only
  rw [hi]
  exact hname

theorem raised_submission {allowed : Site → Prop} {site : Site} (hs : allowed site) {sink : String}
    (hsink : sink ∈ site.sinks) (m : Taint) (kind : FlowKind) (p : Path) :
    (submission edition sink site.spot m kind p).Raised edition allowed :=
  ⟨fun _ _ => named_submission, site, hs, hsink, p.scope, rfl⟩

/-- Flagging is one submission. -/
theorem logs_flag [SetOrder] (sink : String) (spot : Spot) (m : Taint) (kind : FlowKind) (p : Path) :
    Logs edition ((flag edition sink spot m kind).result p)
      (match (Report.submit edition (submission edition sink spot m kind p) {}).2 with
        | none => .ok ((), p)
        | some f => .error f)
      [submission edition sink spot m kind p] := by
  constructor
  · intro r
    rw [result_flag, Report.submitAll_singleton, Report.fault_submit_eq rfl rfl r {}]
  · intro a ha r
    rw [Report.submitAll_singleton, Report.fault_submit_eq rfl rfl r {}]
    generalize (Report.submit edition (submission edition sink spot m kind p) {}).2 = fault? at ha
    cases fault? with
    | none => rfl
    | some f => cases ha

/-- Where a sink stands makes no difference but in the log. -/
theorem pairs_flag_of [SetOrder] {sink : String} {spot spot' : Spot} {m : Taint} {kind : FlowKind}
    (hR : ∀ p, R (submission edition sink spot m kind p) (submission edition sink spot' m kind p)) :
    Pairs edition R (fun _ => True) (flag edition sink spot m kind) (flag edition sink spot' m kind) := by
  intro p
  have hfault : (Report.submit edition (submission edition sink spot m kind p) {}).2 =
      (Report.submit edition (submission edition sink spot' m kind p) {}).2 :=
    Report.fault_submit_eq (by rfl) (by rfl) {} {}
  refine ⟨_, _, _, logs_flag sink spot m kind p, ?_, .cons (hR p) .nil, fun _ _ => trivial⟩
  rw [hfault]
  exact logs_flag sink spot' m kind p

/-! ## Expressions -/

section Reads

variable [SetOrder] {allowed : Site → Prop} (hR : ∀ c : Submission, c.Raised edition allowed → R c c)

theorem pairs_flag (hR : ∀ c : Submission, c.Raised edition allowed → R c c) {site : Site} (hs : allowed site)
    {sink : String} (hsink : sink ∈ site.sinks) (m : Taint) (kind : FlowKind) :
    Pairs edition R (fun _ => True) (flag edition sink site.spot m kind) (flag edition sink site.spot m kind) :=
  pairs_flag_of fun p => hR _ (raised_submission hs hsink m kind p)

theorem pairs_addSource (m : Taint) (name : String) (spot : Spot) :
    Pairs edition R (fun _ => True) (addSource edition m name spot) (addSource edition m name spot) := by
  have hplace : Pairs edition R (fun _ => True) (place edition spot) (place edition spot) :=
    pairs_path.bind fun _ _ => pairs_pure trivial
  exact pairs_path.bind fun _ _ => hplace.bind fun _ _ => pairs_pure trivial

theorem pairs_addKnownSource (m : Taint) (name : String) (spot : Spot) :
    Pairs edition R (fun _ => True) (addKnownSource edition m name spot) (addKnownSource edition m name spot) := by
  refine pairs_path.bind fun p _ => ?_
  split
  · exact pairs_addSource m name spot
  · exact pairs_pure trivial

theorem pairs_readUnassigned (id : String) (spot : Spot) (context : Context) :
    Pairs edition R (fun _ => True) (readUnassigned edition id spot context)
      (readUnassigned edition id spot context) := by
  have hrest : Pairs edition R (fun _ => True) (do addSource edition (← clean) id spot)
      (do addSource edition (← clean) id spot) := pairs_clean.bind fun m _ => pairs_addSource m id spot
  refine pairs_path.bind fun p _ => ?_
  cases context with
  | value => exact (pairs_setPath _).bind fun _ _ => hrest
  | condition => exact (pairs_setPath _).bind fun _ _ => hrest
  | control => exact hrest
  | other => exact hrest

theorem pairs_readAssigned (id : String) (spot : Spot) :
    Pairs edition R (fun _ => True) (readAssigned edition id spot) (readAssigned edition id spot) := by
  refine pairs_path.bind fun p _ => pairs_clean.bind fun m _ => (pairs_addKnownSource m id spot).bind fun m _ => ?_
  cases p.labels.get? id with
  | some l => exact pairs_pure trivial
  | none => exact (pairs_setPath _).bind fun _ _ => pairs_pure trivial

theorem pairs_readName (id : String) (spot : Spot) (context : Context) :
    Pairs edition R (fun _ => True) (readName edition id spot context) (readName edition id spot context) := by
  refine pairs_path.bind fun p _ => ?_
  split
  · exact pairs_readUnassigned id spot context
  · split
    · exact pairs_pure trivial
    · exact pairs_readAssigned id spot

theorem pairs_readAttribute (m : Taint) (attr : String) (spot : Spot) :
    Pairs edition R (fun _ => True) (readAttribute edition m attr spot) (readAttribute edition m attr spot) := by
  refine pairs_path.bind fun p _ => (pairs_addKnownSource m attr spot).bind fun m _ => ?_
  cases p.labels.get? attr <;> exact pairs_pure trivial

include hR in
theorem pairs_flagContainer {container : Expr} {spot : Spot} (hs : allowed (.item container.variable? spot))
    (m : Taint) :
    Pairs edition R (fun _ => True) (flagContainer edition container spot m)
      (flagContainer edition container spot m) := by
  unfold flagContainer
  split
  · exact pairs_flag hR hs (List.mem_singleton_self _) m .explicit
  · exact pairs_throw _
  · exact pairs_pure trivial

theorem pairs_readReceiver (receiver : String) (spot : Spot) :
    Pairs edition R (fun _ => True) (readReceiver edition receiver spot) (readReceiver edition receiver spot) := by
  refine pairs_path.bind fun p _ => ?_
  split
  · refine (pairs_setPath _).bind fun _ _ => pairs_clean.bind fun m _ => ?_
    refine (pairs_addSource m receiver spot).bind fun m _ => pairs_path.bind fun q _ => ?_
    exact (pairs_setPath _).bind fun _ _ => pairs_pure trivial
  · exact pairs_clean

include hR in
theorem pairs_applyFunction {receiver function : String} {spot : Spot} (hs : allowed (.call receiver function spot))
    (m control : Taint) :
    Pairs edition R (fun _ => True) (applyFunction edition function spot m control)
      (applyFunction edition function spot m control) := by
  refine pairs_path.bind fun p _ => (pairs_addKnownSource m function spot).bind fun m _ => ?_
  have hflags : ∀ a : Taint × Taint, Pairs edition R (fun _ => True)
      (do flag edition function spot a.1 .explicit; flag edition function spot a.2 .implicit; return a)
      (do flag edition function spot a.1 .explicit; flag edition function spot a.2 .implicit; return a) := fun a =>
    (pairs_flag hR hs (List.mem_singleton_self _) a.1 .explicit).bind fun _ _ =>
      (pairs_flag hR hs (List.mem_singleton_self _) a.2 .implicit).bind fun _ _ => pairs_pure trivial
  split
  exact hflags (_, _)

end Reads

end Eval

section Expressions

open Eval

variable {edition : Edition} {R : Submission → Submission → Prop} {allowed : Site → Prop}

mutual

/-- An expression hands over the same whatever was reported before, all of it at its own sites. -/
theorem Expr.pairs_evaluate [SetOrder] (hR : ∀ c : Submission, c.Raised edition allowed → R c c) : ∀ e : Expr,
    (∀ site ∈ e.sites, allowed site) → ∀ context : Context,
      Pairs edition R (fun _ => True) (e.evaluate edition context) (e.evaluate edition context)
  | .name id spot, _, context => by
    rw [Expr.evaluate.eq_def]
    exact pairs_readName id spot context
  | .attribute base attr spot, hs, context => by
    rw [Expr.sites, List.forall_mem_append] at hs
    rw [Expr.evaluate.eq_def]
    refine pairs_clean.bind fun m _ => (Expr.pairs_evaluate hR base hs.1 context).bind fun b _ => ?_
    split
    · exact pairs_readAttribute _ attr spot
    · exact pairs_pure trivial
  | .subscript container index spot, hs, context => by
    rw [Expr.sites, List.forall_mem_append, List.forall_mem_append, List.forall_mem_singleton] at hs
    rw [Expr.evaluate.eq_def]
    refine pairs_clean.bind fun m _ => (Expr.pairs_evaluate hR container hs.1.1 context).bind fun a _ => ?_
    refine (Expr.pairs_evaluate hR index hs.1.2 context).bind fun b _ => ?_
    split
    · exact (pairs_flagContainer hR hs.2 _).bind fun _ _ => pairs_pure trivial
    · exact pairs_pure trivial
  | .binary left right, hs, context => by
    rw [Expr.sites, List.forall_mem_append] at hs
    rw [Expr.evaluate.eq_def]
    refine pairs_clean.bind fun m _ => (Expr.pairs_evaluate hR left hs.1 context).bind fun a _ => ?_
    exact (Expr.pairs_evaluate hR right hs.2 context).bind fun b _ => pairs_pure trivial
  | .call receiver function args spot, hs, context => by
    rw [Expr.sites, List.forall_mem_append, List.forall_mem_singleton] at hs
    rw [Expr.evaluate.eq_def]
    refine (pairs_readReceiver receiver spot).bind fun m _ => pairs_clean.bind fun k _ => ?_
    refine (Expr.pairs_evaluateArgs hR args hs.1 m k).bind fun a _ => ?_
    exact (pairs_applyFunction hR hs.2 a.1 a.2).bind fun b _ => pairs_pure trivial
  | .compare left rest, hs, context => by
    rw [Expr.sites, List.forall_mem_append] at hs
    rw [Expr.evaluate.eq_def]
    exact (Expr.pairs_evaluate hR left hs.1 context).bind fun m _ => Expr.pairs_evaluateAll hR rest hs.2 context m
  | .unary operand, hs, context => by
    rw [Expr.evaluate.eq_def]
    exact Expr.pairs_evaluate hR operand hs context
  | .boolean values, hs, context => by
    rw [Expr.evaluate.eq_def]
    exact pairs_clean.bind fun m _ => Expr.pairs_evaluateAll hR values hs context m
  | .inert, _, context => by
    rw [Expr.evaluate.eq_def]
    exact pairs_clean
  | .missing, _, context => by
    rw [Expr.evaluate.eq_def]
    exact pairs_clean
  | .fails fault, _, context => by
    rw [Expr.evaluate.eq_def]
    exact pairs_throw fault

theorem Expr.pairs_evaluateArgs [SetOrder] (hR : ∀ c : Submission, c.Raised edition allowed → R c c) :
    ∀ args : List Expr, (∀ site ∈ Expr.allSites args, allowed site) → ∀ m control : Taint,
      Pairs edition R (fun _ => True) (Expr.evaluateArgs edition args m control)
        (Expr.evaluateArgs edition args m control)
  | [], _, m, control => by
    rw [Expr.evaluateArgs.eq_def]
    exact pairs_pure trivial
  | arg :: rest, hs, m, control => by
    rw [Expr.allSites, List.forall_mem_append] at hs
    rw [Expr.evaluateArgs.eq_def]
    refine (Expr.pairs_evaluate hR arg hs.1 .value).bind fun a _ => ?_
    exact (Expr.pairs_evaluate hR arg hs.1 .control).bind fun b _ => Expr.pairs_evaluateArgs hR rest hs.2 _ _

theorem Expr.pairs_evaluateAll [SetOrder] (hR : ∀ c : Submission, c.Raised edition allowed → R c c) :
    ∀ operands : List Expr, (∀ site ∈ Expr.allSites operands, allowed site) → ∀ (context : Context) (m : Taint),
      Pairs edition R (fun _ => True) (Expr.evaluateAll edition context operands m)
        (Expr.evaluateAll edition context operands m)
  | [], _, context, m => by
    rw [Expr.evaluateAll.eq_def]
    exact pairs_pure trivial
  | operand :: rest, hs, context, m => by
    rw [Expr.allSites, List.forall_mem_append] at hs
    rw [Expr.evaluateAll.eq_def]
    exact (Expr.pairs_evaluate hR operand hs.1 context).bind fun a _ => Expr.pairs_evaluateAll hR rest hs.2 context _

end

end Expressions

/-! ## Assignments -/

/-- The sites at which a target is read when it is taken. -/
def Target.readSites : Target → List Site
  | .subscript _ whole => whole.sites
  | _ => []

theorem Target.sites_eq (spot : Spot) (t : Target) : t.sites spot = t.names.map (.assigned · spot) ++ t.readSites := by
  cases t <;> rfl

namespace Eval

variable {edition : Edition} {R : Submission → Submission → Prop} {allowed : Site → Prop}

section Assignments

variable [SetOrder] (hR : ∀ c : Submission, c.Raised edition allowed → R c c) {named : String → Prop}

include hR

theorem pairs_takeTarget : ∀ t : Target, (∀ x ∈ t.names, named x) → (∀ site ∈ t.readSites, allowed site) →
    Pairs edition R (fun a => ∀ x ∈ a.2, named x) (takeTarget edition t) (takeTarget edition t)
  | .name id, hn, _ =>
    pairs_path.bind fun _ _ => (pairs_setPath _).bind fun _ _ => pairs_clean.bind fun _ _ => pairs_pure hn
  | .attribute base attr, hn, _ =>
    pairs_path.bind fun _ _ => (pairs_setPath _).bind fun _ _ => pairs_clean.bind fun _ _ => pairs_pure hn
  | .subscript container whole, hn, hs => by
    refine pairs_clean.bind fun _ _ => (Expr.pairs_evaluate hR whole hs .value).bind fun _ _ => ?_
    cases container with
    | none => exact pairs_pure hn
    | some id => exact pairs_path.bind fun _ _ => (pairs_setPath _).bind fun _ _ => pairs_pure hn
  | .fails fault, _, _ => pairs_throw fault

theorem pairs_takeTargets : ∀ (targets : List Target) (m : Taint) (names : List String),
    (∀ t ∈ targets, (∀ x ∈ t.names, named x) ∧ ∀ site ∈ t.readSites, allowed site) → (∀ x ∈ names, named x) →
      Pairs edition R (fun a => ∀ x ∈ a.2, named x) (takeTargets edition targets m names)
        (takeTargets edition targets m names)
  | [], m, names, _, hn => pairs_pure hn
  | t :: rest, m, names, ht, _ => by
    rw [List.forall_mem_cons] at ht
    exact (pairs_takeTarget hR t ht.1.1 ht.1.2).bind fun taken hn => pairs_takeTargets rest _ taken.2 ht.2 hn

omit hR in
theorem pairs_assignNames {spot spot' : Spot}
    (hflag : ∀ x, named x → ∀ m kind, Pairs edition R (fun _ => True) (flag edition x spot m kind)
      (flag edition x spot' m kind)) (m : Taint) : ∀ (names : List String), (∀ x ∈ names, named x) → ∀ control : Taint,
        Pairs edition R (fun _ => True) (assignNames edition spot m names control)
          (assignNames edition spot' m names control)
  | [], _, _ => pairs_pure trivial
  | x :: rest, hn, control => by
    rw [List.forall_mem_cons] at hn
    have hname : Pairs edition R (fun _ => True) (assignName edition spot m control x)
        (assignName edition spot' m control x) :=
      pairs_path.bind fun p _ => (hflag x hn.1 m .explicit).bind fun _ _ => (hflag x hn.1 _ .implicit).bind fun _ _ =>
        pairs_path.bind fun _ _ => (pairs_setPath _).bind fun _ _ => pairs_pure trivial
    exact hname.bind fun control _ => pairs_assignNames hflag m rest hn.2 control

variable (named) in
/-- Assignments at two spots are parallel if flagging the assigned names is. -/
theorem pairs_assign_of {targets : List Target} {value : Expr} {spot spot' : Spot}
    (ht : ∀ t ∈ targets, (∀ x ∈ t.names, named x) ∧ ∀ site ∈ t.readSites, allowed site)
    (hv : ∀ site ∈ value.sites, allowed site)
    (hflag : ∀ x, named x → ∀ m kind, Pairs edition R (fun _ => True) (flag edition x spot m kind)
      (flag edition x spot' m kind)) :
    Pairs edition R (fun _ => True) (assign edition targets value spot) (assign edition targets value spot') := by
  refine pairs_clean.bind fun _ _ => (pairs_takeTargets hR targets _ [] ht (List.forall_mem_nil _)).bind ?_
  intro taken hn
  refine (Expr.pairs_evaluate hR value hv .value).bind fun _ _ => pairs_clean.bind fun _ _ => ?_
  refine (Expr.pairs_evaluate hR value hv .control).bind fun _ _ => ?_
  exact (pairs_assignNames hflag _ taken.2 hn _).bind fun _ _ => pairs_pure trivial

theorem pairs_assign {targets : List Target} {value : Expr} {spot : Spot}
    (hs : ∀ site ∈ targets.flatMap (·.sites spot) ++ value.sites, allowed site) :
    Pairs edition R (fun _ => True) (assign edition targets value spot) (assign edition targets value spot) := by
  rw [List.forall_mem_append, List.forall_mem_flatMap] at hs
  refine pairs_assign_of hR (fun x => allowed (.assigned x spot)) (fun t ht => ?_) hs.2 fun x hx m kind =>
    pairs_flag hR hx (List.mem_singleton_self x) m kind
  have ht := hs.1 t ht
  rw [Target.sites_eq, List.forall_mem_append, List.forall_mem_map] at ht
  exact ht

theorem pairs_enterTest {test : Expr} (hs : ∀ site ∈ test.sites, allowed site) :
    Pairs edition R (fun _ => True) (enterTest edition test) (enterTest edition test) :=
  (Expr.pairs_evaluate hR test hs .condition).bind fun _ _ => (Expr.pairs_evaluate hR test hs .control).bind fun _ _ =>
    pairs_path.bind fun _ _ => pairs_setPath _

theorem pairs_enterItem {target : Target} {iter : Expr} {spot : Spot}
    (hs : ∀ site ∈ target.sites spot ++ iter.sites, allowed site) :
    Pairs edition R (fun _ => True) (enterItem edition target iter spot) (enterItem edition target iter spot) :=
  (pairs_assign hR (by rwa [List.flatMap_singleton])).bind fun _ _ => pairs_path.bind fun _ _ => pairs_setPath _

end Assignments

theorem Pairs.outcome [SetOrder] {x y : Eval Unit} (h : Pairs edition R (fun _ => True) x y) (p : Path) :
    Parallel edition R (fun _ => True) (x.outcome p) (y.outcome p) := by
  rw [funext (outcome_eq_result x p), funext (outcome_eq_result y p)]
  exact (h p).chain fun _ _ => .ok trivial

end Eval

/-! ## Statements -/

namespace Analysis

section Compositions

variable {edition : Edition} {R : Submission → Submission → Prop}

variable (edition R) in
/-- Two analyses are parallel on all paths. -/
def Pairs [SetOrder] (a b : Analysis) : Prop :=
  ∀ paths, Parallel edition R (fun _ => True) (a.outcome paths) (b.outcome paths)

theorem pairs_idle [SetOrder] : Pairs edition R Run.idle Run.idle :=
  fun paths => Parallel.ok (Q := fun _ => True) (a := paths) trivial

theorem pairs_stop [SetOrder] (fault : Fault) :
    Pairs edition R (fun paths report => .stop paths report fault) fun paths report => .stop paths report fault :=
  fun _ => .error fault

theorem Pairs.andThen [SetOrder] {a a' b b' : Analysis} (ha : Pairs edition R a a') (hb : Pairs edition R b b') :
    Pairs edition R (fun paths report => (a paths report).andThen b)
      fun paths report => (a' paths report).andThen b' := by
  intro paths
  rw [funext (outcome_andThen a b paths), funext (outcome_andThen a' b' paths)]
  exact (ha paths).chain fun mid _ => hb mid

theorem pairs_onEach [SetOrder] {step step' : Eval Unit} (h : Eval.Pairs edition R (fun _ => True) step step') :
    Pairs edition R (onEach step) (onEach step') := by
  intro paths
  induction paths with
  | nil => exact Parallel.ok (Q := fun _ => True) (a := []) trivial
  | cons p rest ih =>
    rw [funext (outcome_onEach_cons step p rest), funext (outcome_onEach_cons step' p rest)]
    exact (h.outcome p).chain fun q _ => ih.chain fun others _ => .ok trivial

variable {enter : Eval Unit} {body orelse : Analysis}

theorem pairs_fork [SetOrder] (he : Eval.Pairs edition R (fun _ => True) enter enter) (hb : Pairs edition R body body)
    (ho : Pairs edition R orelse orelse) (done new : List Path) :
    Pairs edition R (fork enter body orelse done new) (fork enter body orelse done new) := by
  intro paths
  induction paths generalizing done new with
  | nil => exact Parallel.ok (Q := fun _ => True) (a := new) trivial
  | cons p rest ih =>
    rw [funext (outcome_fork_cons enter body orelse done new p rest)]
    refine (he.outcome _).chain fun q _ => (hb [q.fork]).chain fun yes _ => (ho [q.fork]).chain fun no _ => ?_
    exact ih _ _

/-- A body that gives new paths leaves the region once, and a body that gives its own paths back twice. -/
theorem iteration_eq_chain {forks : Bool} (hd : Decides forks body) (p : Path) (report : Report) :
    iteration enter body p report =
      chain (enter.outcome p report) fun q report =>
        chain (body.outcome [q] report) fun mid report =>
          (.ok (mid.map fun q => if forks then q.pop else q.pop.pop), report) := by
  unfold iteration Eval.outcome outcome
  generalize enter.run ⟨p, report⟩ = x
  obtain ⟨x, w⟩ := x
  cases x with
  | error fault => rfl
  | ok u =>
    have hd := hd [w.path] w.report
    dsimp only [chain, Except.map]
    generalize body [w.path] w.report = r at hd ⊢
    obtain ⟨given, report', result⟩ := r
    cases result with
    | error fault => rfl
    | ok new? =>
      have hd := hd new? rfl
      subst hd
      cases new? <;> rfl

theorem settle_succ_eq_chain (same : Path → Path → Bool) (unrolled : Nat → Report → Except Fault (List Path) × Report)
    (limit n : Nat) (seen found : List Path) (report : Report) :
    settle same unrolled (limit + 1) n seen found report =
      chain (unrolled (n + 1) report) fun paths report =>
        if (addNew same seen paths).length = seen.length then (.ok (found ++ paths), report)
        else settle same unrolled limit (n + 1) (addNew same seen paths) (found ++ paths) report := by
  rw [settle]
  generalize unrolled (n + 1) report = x
  obtain ⟨x, report'⟩ := x
  cases x <;> rfl

theorem pairs_iterate [SetOrder] {step : Walk} (h : ∀ p, Parallel edition R (fun _ => True) (step p) (step p))
    (paths : List Path) : Parallel edition R (fun _ => True) (iterate step paths) (iterate step paths) := by
  induction paths with
  | nil => exact Parallel.ok (Q := fun _ => True) (a := []) trivial
  | cons p rest ih =>
    rw [funext (iterate_cons step p rest)]
    exact (h p).chain fun first _ => ih.chain fun others _ => .ok trivial

theorem pairs_unroll [SetOrder] {step : Walk} (h : ∀ p, Parallel edition R (fun _ => True) (step p) (step p))
    (n : Nat) :
    ∀ paths, Parallel edition R (fun _ => True) (unroll step n paths) (unroll step n paths) := by
  induction n with
  | zero => exact fun paths => Parallel.ok (Q := fun _ => True) (a := paths) trivial
  | succ n ih =>
    intro paths
    rw [funext (unroll_succ_eq_chain step n paths)]
    exact (pairs_iterate h paths).chain fun mid _ => ih mid

theorem pairs_settle [SetOrder] {same : Path → Path → Bool}
    {unrolled : Nat → Report → Except Fault (List Path) × Report}
    (h : ∀ n, Parallel edition R (fun _ => True) (unrolled n) (unrolled n)) (limit : Nat) :
    ∀ (n : Nat) (seen found : List Path),
      Parallel edition R (fun _ => True) (settle same unrolled limit n seen found)
        (settle same unrolled limit n seen found) := by
  induction limit with
  | zero => exact fun _ _ _ => .error .unsettled
  | succ limit ih =>
    intro n seen found
    rw [funext (settle_succ_eq_chain same unrolled limit n seen found)]
    refine (h (n + 1)).chain fun paths _ => ?_
    split
    · exact .ok trivial
    · exact ih _ _ _

variable [SetOrder] (he : Eval.Pairs edition R (fun _ => True) enter enter) (hb : Pairs edition R body body)
  {forks : Bool} (hd : Decides forks body)

include he hb hd

theorem pairs_rounds (depth : Int) (start : Path) (n : Nat) :
    Parallel edition R (fun _ => True) (rounds depth enter body start n) (rounds depth enter body start n) := by
  rw [funext (rounds_eq_chain depth enter body start n)]
  refine (pairs_unroll (fun p => ?_) n [start]).chain fun paths _ => .ok trivial
  rw [funext (iteration_eq_chain hd p)]
  exact (he.outcome p).chain fun q _ => (hb [q]).chain fun mid _ => .ok trivial

theorem pairs_search (limit : Nat) (depth : Int) (p : Path) :
    Parallel edition R (fun _ => True) (search limit depth enter body p) (search limit depth enter body p) :=
  pairs_settle (pairs_rounds he hb hd depth (entry depth p)) limit 0 [] []

theorem pairs_loopFrom (ho : Pairs edition R orelse orelse) (limit : Nat) (depth : Int) (p : Path) :
    Parallel edition R (fun _ => True) (loopFrom limit depth enter body orelse p)
      (loopFrom limit depth enter body orelse p) := by
  rw [funext (loopFrom_eq_chain limit depth enter body orelse p)]
  exact (pairs_search he hb hd limit depth p).chain fun found _ =>
    (ho [entry depth p]).chain fun skipped _ => .ok trivial

theorem pairs_loop (ho : Pairs edition R orelse orelse) (limit : Nat) (depth : Int) :
    Pairs edition R (loop limit depth enter body orelse) (loop limit depth enter body orelse) := by
  intro paths
  rw [funext (outcome_loop limit depth enter body orelse paths)]
  exact pairs_iterate (pairs_loopFrom he hb hd ho limit depth) paths

end Compositions

end Analysis

section Statements

open Analysis

variable {edition : Edition} {R : Submission → Submission → Prop} {allowed : Site → Prop}

mutual

/-- A statement hands over the same whatever was reported before, all of it at its own sites. -/
theorem Stmt.pairs_analyse [SetOrder] (hR : ∀ c : Submission, c.Raised edition allowed → R c c) (limit : Nat) :
    ∀ s : Stmt, (∀ site ∈ s.sites, allowed site) → Pairs edition R (s.analyse edition limit) (s.analyse edition limit)
  | .skip, _ => by
    rw [Stmt.analyse.eq_def]
    exact pairs_idle
  | .block body, hs => by
    rw [Stmt.analyse.eq_def]
    exact Stmt.pairs_analyseBlock hR limit body hs
  | .assign targets value spot, hs => by
    rw [Stmt.analyse.eq_def]
    exact pairs_onEach (Eval.pairs_assign hR hs).discard
  | .annotated target value spot, hs => by
    rw [Stmt.analyse.eq_def]
    cases edition
    · exact pairs_idle
    · exact pairs_onEach (Eval.pairs_assign hR (by rwa [List.flatMap_singleton])).discard
  | .augmented target current value spot, hs => by
    rw [Stmt.analyse.eq_def]
    cases edition
    · exact pairs_idle
    · refine pairs_onEach (Eval.pairs_assign hR ?_).discard
      rwa [List.flatMap_singleton, Expr.sites, ← List.append_assoc]
  | .eval value, hs => by
    rw [Stmt.analyse.eq_def]
    exact pairs_onEach (Expr.pairs_evaluate hR value hs .value).discard
  | .branch test body orelse, hs => by
    rw [Stmt.sites, List.forall_mem_append, List.forall_mem_append] at hs
    rw [Stmt.analyse.eq_def]
    exact pairs_fork (Eval.pairs_enterTest hR hs.1.1) (Stmt.pairs_analyse hR limit body hs.1.2)
      (Stmt.pairs_analyse hR limit orelse hs.2) [] []
  | .loop test body orelse, hs => by
    rw [Stmt.sites, List.forall_mem_append, List.forall_mem_append] at hs
    rw [Stmt.analyse.eq_def]
    exact pairs_loop (Eval.pairs_enterTest hR hs.1.1) (Stmt.pairs_analyse hR limit body hs.1.2)
      (Stmt.decides_analyse edition limit body) (Stmt.pairs_analyse hR limit orelse hs.2) limit 0
  | .each target iter body orelse spot, hs => by
    rw [Stmt.sites, List.forall_mem_append, List.forall_mem_append] at hs
    rw [Stmt.analyse.eq_def]
    exact pairs_loop (Eval.pairs_enterItem hR hs.1.1) (Stmt.pairs_analyse hR limit body hs.1.2)
      (Stmt.decides_analyse edition limit body) (Stmt.pairs_analyse hR limit orelse hs.2) limit 1
  | .fails fault, _ => by
    rw [Stmt.analyse.eq_def]
    exact pairs_stop fault

theorem Stmt.pairs_analyseBlock [SetOrder] (hR : ∀ c : Submission, c.Raised edition allowed → R c c) (limit : Nat) :
    ∀ body : List Stmt, (∀ site ∈ Stmt.allSites body, allowed site) →
      Pairs edition R (Stmt.analyseBlock edition limit body) (Stmt.analyseBlock edition limit body)
  | [], _ => by
    rw [Stmt.analyseBlock.eq_def]
    exact pairs_idle
  | s :: rest, hs => by
    rw [Stmt.allSites, List.forall_mem_append] at hs
    rw [Stmt.analyseBlock.eq_def]
    exact (Stmt.pairs_analyse hR limit s hs.1).andThen (Stmt.pairs_analyseBlock hR limit rest hs.2)

end

/-- The log of a statement is made at its sites. -/
theorem Stmt.exists_logs [SetOrder] (edition : Edition) (limit : Nat) (s : Stmt) (paths : List Path) :
    ∃ result log, Logs edition ((s.analyse edition limit).outcome paths) result log ∧
      ∀ c ∈ log, c.Raised edition (· ∈ s.sites) := by
  have hself := s.pairs_analyse (R := fun c _ => c.Raised edition (· ∈ s.sites)) (fun _ hc => hc) limit fun _ hs => hs
  exact (hself paths).exists_logs

end Statements

end TaintFlow
