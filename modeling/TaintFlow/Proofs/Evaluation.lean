import TaintFlow.Analysis.Assignment
import TaintFlow.Proofs.Filing
import TaintFlow.Proofs.Kin

/-
Two runs of a step of the analysis. `Accord.Sim` relates two steps that, started on kin paths, end
with the same fault or with related results, and leave kin paths behind. There is one rule for each
way to build a step, one law for each operation of the evaluator, and the laws for expressions and
assignments follow their recursion.
-/
namespace TaintFlow

open Listing

namespace Eval

variable {α β : Type}

theorem run_bind (x : Eval α) (f : α → Eval β) (w : World) :
    (x >>= f).run w = match x.run w with
      | (.ok a, w) => (f a).run w
      | (.error e, w) => (.error e, w) := by
  show (match ExceptT.run x w with | (a, w) => ExceptT.bindCont f a w) = _
  obtain ⟨r, w'⟩ := ExceptT.run x w
  cases r <;> rfl

/-- A value is flagged by adding what is detected, if anything, to the report. -/
theorem run_flag [SetOrder] (edition : Edition) (sink : String) (spot : Spot) (m : Taint) (kind : FlowKind)
    (w : World) :
    (flag edition sink spot m kind).run w =
      if (w.path.detect sink m).isEmpty then (.ok (), w)
      else
        let added := w.report.add edition w.path.view sink (edition.place spot w.path.scope)
          (w.path.detect sink m) kind
        (match added.2 with
          | none => .ok ()
          | some fault => .error fault, { w with report := added.1 }) := by
  unfold flag
  rw [run_bind]
  show ExceptT.run (if (w.path.detect sink m).isEmpty then (_ : Eval Unit) else _) w = _
  split
  · rfl
  · generalize w.report.add edition w.path.view sink (edition.place spot w.path.scope)
      (w.path.detect sink m) kind = added
    obtain ⟨report, fault?⟩ := added
    rw [run_bind]
    cases fault? <;> rfl

/-- Flagging leaves the path as it is. -/
theorem path_flag [SetOrder] (edition : Edition) (sink : String) (spot : Spot) (m : Taint) (kind : FlowKind)
    (w : World) :
    ((flag edition sink spot m kind).run w).2.path = w.path := by
  rw [run_flag]
  split <;> rfl

end Eval

/-! ## What is detected at a sink -/

namespace Table

variable {κ α β : Type} [DecidableEq κ]

theorem get?_foldl_insert_rel {R : α → β → Prop} {l : List (κ × α)} {m : List (κ × β)}
    (h : List.Forall₂ (fun e e' => e.1 = e'.1 ∧ R e.2 e'.2) l m) :
    ∀ {t : Table κ α} {u : Table κ β}, (∀ k, Option.Rel R (t.get? k) (u.get? k)) → ∀ k,
      Option.Rel R ((l.foldl (fun t e => t.insert e.1 e.2) t).get? k)
        ((m.foldl (fun t e => t.insert e.1 e.2) u).get? k) := by
  induction h with
  | nil => exact fun h => h
  | @cons e e' l m he _ ih =>
    intro t u h
    obtain ⟨k', a⟩ := e
    obtain ⟨_, b⟩ := e'
    obtain ⟨rfl, hab⟩ := he
    refine ih fun k => ?_
    rw [get?_insert, get?_insert]
    split
    · exact .some hab
    · exact h k

/-- Tables of related entries are related key by key. -/
theorem get?_ofList_rel {R : α → β → Prop} {l : List (κ × α)} {m : List (κ × β)}
    (h : List.Forall₂ (fun e e' => e.1 = e'.1 ∧ R e.2 e'.2) l m) (k : κ) :
    Option.Rel R ((ofList l).get? k) ((ofList m).get? k) :=
  get?_foldl_insert_rel h (fun _ => .none) k

end Table

theorem Label.Alike.illegal {a b : Label} (h : a.Alike b) {p q : Pattern} (hp : p.Alike q) :
    (Policy.illegal p a).Alike (Policy.illegal q b) := by
  intro s
  show (a.flows.filter _).get? s = (b.flows.filter _).get? s
  rw [Table.get?_filter, Table.get?_filter, h s, hp.isSource s]

theorem Label.Alike.isEmpty {a b : Label} (h : a.Alike b) : a.flows.isEmpty = b.flows.isEmpty := by
  rw [Bool.eq_iff_iff, Table.isEmpty_iff, Table.isEmpty_iff]
  exact forall_congr' fun s => by rw [h s]

/-- What is detected is for one of the path's own patterns that has the sink, and among the flows of the value. -/
theorem Path.get?_detect {p : Path} {sink name : String} {m : Taint} {t : Tracked PatternRef}
    (h : (p.detect sink m).entries.get? name = some t) :
    ∃ i u, i < p.patterns.length ∧ t.pattern = .own i ∧ (p.view (.own i)).name = name ∧
      (p.view (.own i)).isSink sink = true ∧ m.entries.get? name = some u ∧
      t.label = Policy.illegal (p.view (.own i)) u.label := by
  obtain ⟨r, hr, he⟩ := List.mem_filterMap.1 (Table.mem_of_get?_ofList h)
  obtain ⟨i, hi, rfl⟩ := List.mem_map.1 hr
  obtain ⟨l, hl, he⟩ := Option.map_eq_some_iff.1 he
  cases he
  unfold Policy.violation? at hl
  split at hl
  · rename_i hsink
    unfold MultiLabel.label? at hl
    cases hu : m.entries.get? (p.view (.own i)).name with
    | none => rw [hu] at hl; cases hl
    | some u =>
      rw [hu] at hl
      dsimp only [Option.map_some] at hl
      split at hl
      · cases hl
      · cases hl
        exact ⟨i, u, List.mem_range.1 hi, rfl, rfl, hsink, rfl, rfl⟩
  · cases hl

theorem Policy.holds_illegal {p : Pattern} {l : Label} {s : String} {f : Flow} :
    (Policy.illegal p l).Holds s f ↔ p.isSource s = true ∧ l.Holds s f := by
  unfold Label.Holds Policy.illegal
  rw [Table.get?_filter]
  constructor
  · rintro ⟨flows, hf, hm⟩
    obtain ⟨hl, hb⟩ := Option.filter_eq_some_iff.1 hf
    exact ⟨(Bool.and_eq_true_iff.1 hb).1, flows, hl, hm⟩
  · rintro ⟨hs, flows, hl, hm⟩
    refine ⟨flows, Option.filter_eq_some_iff.2 ⟨hl, ?_⟩, hm⟩
    rw [hs, Bool.true_and, Bool.not_eq_true', List.isEmpty_eq_false_iff]
    exact List.ne_nil_of_mem hm

namespace Accord

variable {c : Accord} {p q : Path}

theorem Kin.violation (h : c.Kin p q) {m m' : Taint} (hm : c.Same m m') (sink : String) (i : Nat) :
    Option.Rel Label.Alike (Policy.violation? p.view m sink (.own i)) (Policy.violation? q.view m' sink (.own i)) := by
  have hv : (p.view (.own i)).Alike (q.view (.own i)) := Path.view_alike h.patterns (.own i)
  unfold Policy.violation?
  rw [Pattern.isSink_of_bare hv.bare, Pattern.name_of_bare hv.bare]
  split
  · unfold MultiLabel.label?
    have hr := hm (q.view (.own i)).name
    generalize m.entries.get? (q.view (.own i)).name = o at hr ⊢
    generalize m'.entries.get? (q.view (.own i)).name = o' at hr ⊢
    cases hr with
    | none => exact .none
    | @some t u hs =>
      have hl := hs.label.illegal hv
      dsimp only [Option.map_some]
      rw [hl.isEmpty]
      split
      · exact .none
      · exact .some hl
  · exact .none

/-- Both runs detect the same flows. -/
theorem Kin.detect (h : c.Kin p q) {m m' : Taint} (hm : c.Same m m') (sink name : String) :
    Option.Rel (fun t u => t.pattern = u.pattern ∧ t.label.Alike u.label)
      ((p.detect sink m).entries.get? name) ((q.detect sink m').entries.get? name) := by
  refine Table.get?_ofList_rel ?_ name
  rw [Path.refs_eq (h.left.patterns.trans h.right.patterns.symm)]
  have hrefs : List.Forall₂ (fun r r' => ∃ i, r = .own i ∧ r' = .own i) q.refs q.refs := by
    refine List.forall₂_same.2 fun r hr => ?_
    obtain ⟨i, -, rfl⟩ := List.mem_map.1 hr
    exact ⟨i, rfl, rfl⟩
  refine List.rel_filterMap ?_ hrefs
  rintro _ _ ⟨i, rfl, rfl⟩
  have hv := h.violation hm sink i
  dsimp only
  generalize Policy.violation? p.view m sink (.own i) = o at hv ⊢
  generalize Policy.violation? q.view m' sink (.own i) = o' at hv ⊢
  cases hv with
  | none => exact .none
  | some hl =>
    have hb := Path.view_own_bare (h.left.patterns.trans h.right.patterns.symm) i
    exact .some ⟨Pattern.name_of_bare hb, rfl, hl⟩

/-! ## Flagging -/

theorem listed_of_bare {edition : Edition} {a b : Pattern} (h : a.bare = b.bare) {k : Mark}
    (hk : k.Listed edition a) : k.Listed edition b := by
  obtain ⟨name, line, rfl, hs⟩ := hk
  exact ⟨name, line, rfl, fun he => by rw [← Pattern.shows?_of_bare h]; exact hs he⟩

/-- The marks of what is detected are known to the patterns it is detected for. -/
theorem Tamed.listed_detect (hc : c.Lawful) (hp : c.Tamed p) {m : Taint} (hm : c.Tame m) {sink name : String}
    {t : Tracked PatternRef} (ht : (p.detect sink m).entries.get? name = some t) {s : String} {f : Flow}
    (hf : t.label.Holds s f) {k : Mark} (hk : k ∈ f.marks) : k.Listed c.edition (p.view t.pattern) := by
  obtain ⟨i, u, hi, hr, hn, -, hu, hl⟩ := Path.get?_detect ht
  have hb := Path.view_own_bare (q := Path.start c.policy) hp.patterns i
  have hflow := hm.flows name s f ⟨u, hu, (Policy.holds_illegal.1 (hl ▸ hf)).2⟩
  rw [hr]
  refine listed_of_bare hb.symm (hc.listed name s f hflow _ ?_ ?_ k hk)
  · have hlen : p.patterns.length = c.policy.length := by simpa using congrArg List.length hp.patterns
    exact Path.view_own_mem (p := Path.start c.policy) (hlen ▸ hi)
  · rw [← hn]
    exact (Pattern.name_of_bare hb).symm

/-- What flagging a value adds to a report. -/
def Flagged [SetOrder] (c : Accord) (p : Path) (sink : String) (spot : Spot) (m : Taint) (kind : FlowKind) (s : Subject)
    (kind' : FlowKind) (marks : List Mark) : Prop :=
  ∃ name t, (p.detect sink m).entries.get? name = some t ∧
    Report.Shown c.edition sink (c.edition.place spot p.scope) kind (p.view t.pattern) t.label s kind' marks

/-- Flagging an allowed value does not fault, and adds what is detected. -/
theorem flag_run [SetOrder] (hc : c.Lawful) {w : World} (hp : c.Tamed w.path) {m : Taint} (hm : c.Tame m)
    (sink : String) (spot : Spot) (kind : FlowKind) :
    ∃ report, (Eval.flag c.edition sink spot m kind).run w = (.ok (), { w with report }) ∧
      ∀ s kind' marks, report.Recorded s kind' marks ↔
        w.report.Recorded s kind' marks ∨ c.Flagged w.path sink spot m kind s kind' marks := by
  rw [Eval.run_flag]
  split
  · rename_i he
    refine ⟨w.report, rfl, fun s kind' marks => ⟨.inl, ?_⟩⟩
    rintro (h | ⟨name, t, ht, -⟩)
    · exact h
    · rw [Table.isEmpty_iff.1 he name] at ht
      cases ht
  · obtain ⟨hnone, hrec⟩ := Report.adds_add
      (fun name t ht s f hf k hk => hp.listed_detect hc hm ht hf hk) w.report
    refine ⟨_, ?_, hrec⟩
    dsimp only
    rw [hnone]

theorem flagged_congr [SetOrder] (h : c.Kin p q) {m m' : Taint} (hm : c.Same m m') {sink : String} {spot : Spot}
    {kind kind' : FlowKind} {s : Subject} {marks : List Mark} (hf : c.Flagged p sink spot m kind s kind' marks) :
    c.Flagged q sink spot m' kind s kind' marks := by
  obtain ⟨name, t, ht, hk, hi, hn, hs, ha, f, hh, hpos, hd⟩ := hf
  have hr := h.detect hm sink name
  rw [ht] at hr
  obtain ⟨i, -, -, hown, -⟩ := Path.get?_detect ht
  have hb := Path.view_own_bare (h.left.patterns.trans h.right.patterns.symm) i
  generalize ho : (q.detect sink m').entries.get? name = o at hr
  cases hr with
  | @some _ u hu =>
    refine ⟨name, u, ho, ?_⟩
    rw [← hu.1, hown]
    rw [hown] at hi hn hd
    refine ⟨hk, fun he => ?_, ?_, hs, ?_, f, (hu.2.holds _ _).1 hh, hpos, ?_⟩
    · rw [← Pattern.implicit_of_bare hb]; exact hi he
    · rw [← Pattern.name_of_bare hb]; exact hn
    · rw [← h.place]; exact ha
    · rw [← Pattern.display_of_bare hb]; exact hd

/-! ## Steps of two runs -/

variable (c) in
/-- Kin paths, and reports that show the same explicit flows if the accord compares them. -/
structure Linked (w w' : World) : Prop where
  path : c.Kin w.path w'.path
  report : c.strict → ∀ s marks, w.report.Recorded s .explicit marks ↔ w'.report.Recorded s .explicit marks

variable (c) in
/-- Both runs come to related results, or both stop with the same fault. -/
inductive Outcome {α β : Type} (Q : α → β → Prop) :
    Except Fault α × World → Except Fault β × World → Prop where
  | ok {a : α} {b : β} {w w' : World} : Q a b → c.Linked w w' → Outcome Q (.ok a, w) (.ok b, w')
  | error {f : Fault} {w w' : World} : (c.clear → f ≠ .unsettled) → c.Linked w w' →
    Outcome Q (.error f, w) (.error f, w')

variable (c) in
/-- Started on kin paths, the steps come to related results or stop with the same fault. -/
def Sim {α β : Type} (Q : α → β → Prop) (x : Eval α) (y : Eval β) : Prop :=
  ∀ w w', c.Linked w w' → c.Outcome Q (x.run w) (y.run w')

section Rules

variable {α β γ δ : Type} {Q : α → β → Prop} {R : γ → δ → Prop}

theorem Sim.pure {a : α} {b : β} (h : Q a b) : c.Sim Q (Pure.pure a) (Pure.pure b) :=
  fun _ _ hw => .ok h hw

theorem Sim.throw {f : Fault} (h : c.clear → f ≠ .unsettled) : c.Sim Q (throw f) (throw f) :=
  fun _ _ hw => .error h hw

theorem Sim.bind {x : Eval α} {y : Eval β} {f : α → Eval γ} {g : β → Eval δ} (hx : c.Sim Q x y)
    (hf : ∀ a b, Q a b → c.Sim R (f a) (g b)) : c.Sim R (x >>= f) (y >>= g) := by
  intro w w' hw
  rw [Eval.run_bind, Eval.run_bind]
  have h := hx w w' hw
  generalize x.run w = r at h ⊢
  generalize y.run w' = r' at h ⊢
  cases h with
  | ok hq hw => exact hf _ _ hq _ _ hw
  | error hclear hw => exact .error hclear hw

theorem Sim.imp {Q' : α → β → Prop} {x : Eval α} {y : Eval β} (hx : c.Sim Q x y) (h : ∀ a b, Q a b → Q' a b) :
    c.Sim Q' x y := by
  intro w w' hw
  have hx := hx w w' hw
  generalize x.run w = r at hx ⊢
  generalize y.run w' = r' at hx ⊢
  cases hx with
  | ok hq hw => exact .ok (h _ _ hq) hw
  | error hclear hw => exact .error hclear hw

theorem Sim.discard {x : Eval α} {y : Eval β} (hx : c.Sim Q x y) :
    c.Sim (fun _ _ => True) (discard x) (discard y) :=
  hx.bind fun _ _ _ => .pure trivial

theorem sim_path : c.Sim c.Kin Eval.path Eval.path := fun _ _ hw => .ok hw.path hw

theorem sim_setPath (h : c.Kin p q) : c.Sim (fun _ _ => True) (Eval.setPath p) (Eval.setPath q) :=
  fun _ _ hw => .ok trivial ⟨h, hw.report⟩

end Rules

/-! ## Operations of the evaluator -/

section Operations

variable (hc : c.Lawful)

include hc

theorem sim_clean : c.Sim c.Working Eval.clean Eval.clean :=
  sim_path.bind fun p q h => .pure (by rw [h.left.clean, h.right.clean]; exact working_blank hc)

/-- Values that are flagged as explicit have to be the same in both runs; others need not. -/
theorem sim_flag [SetOrder] {m m' : Taint} (hm : c.Tame m) (hm' : c.Tame m') {kind : FlowKind}
    (h : kind = .explicit → c.Same m m') (sink : String) (spot : Spot) :
    c.Sim (fun _ _ => True) (Eval.flag c.edition sink spot m kind) (Eval.flag c.edition sink spot m' kind) := by
  intro w w' hw
  obtain ⟨report, hrun, hrec⟩ := flag_run hc hw.path.left hm sink spot kind
  obtain ⟨report', hrun', hrec'⟩ := flag_run hc hw.path.right hm' sink spot kind
  rw [hrun, hrun']
  refine .ok trivial ⟨hw.path, fun hs s marks => ?_⟩
  show report.Recorded s .explicit marks ↔ report'.Recorded s .explicit marks
  rw [hrec, hrec', hw.report hs]
  refine or_congr Iff.rfl ⟨fun hf => ?_, fun hf => ?_⟩
  · have hk : kind = .explicit := by obtain ⟨_, _, _, hk, -⟩ := hf; exact hk.symm
    exact flagged_congr hw.path (h hk) hf
  · have hk : kind = .explicit := by obtain ⟨_, _, _, hk, -⟩ := hf; exact hk.symm
    exact flagged_congr hw.path.symm (h hk).symm hf

theorem sim_flag_explicit [SetOrder] {m m' : Taint} (h : c.Working m m') (sink : String) (spot : Spot) :
    c.Sim (fun _ _ => True) (Eval.flag c.edition sink spot m .explicit)
      (Eval.flag c.edition sink spot m' .explicit) :=
  sim_flag hc h.left h.right (fun _ => h.same) sink spot

theorem sim_flag_implicit [SetOrder] {m m' : Taint} (h : c.Control m m') (sink : String) (spot : Spot) :
    c.Sim (fun _ _ => True) (Eval.flag c.edition sink spot m .implicit)
      (Eval.flag c.edition sink spot m' .implicit) :=
  sim_flag hc h.left h.right (by intro he; cases he) sink spot

omit hc in
theorem sim_addSource {m m' : Taint} (hm : c.Working m m') {id : String} {spot : Spot} (hr : c.Reads id spot) :
    c.Sim c.Working (Eval.addSource c.edition m id spot) (Eval.addSource c.edition m' id spot) := by
  refine sim_path.bind fun p q h => ?_
  refine (sim_path.bind fun p' q' h' => Sim.pure (Q := fun a b => a = b ∧ ∃ scope, a = c.edition.place spot scope)
    ⟨h'.place spot, _, rfl⟩).bind ?_
  rintro _ _ ⟨rfl, scope, rfl⟩
  exact .pure (hm.addSource h.patterns hr.name fun name => hr.raw name scope)

omit hc in
theorem sim_addKnownSource {m m' : Taint} (hm : c.Working m m') {id : String} {spot : Spot} (hr : c.Reads id spot) :
    c.Sim c.Working (Eval.addKnownSource c.edition m id spot) (Eval.addKnownSource c.edition m' id spot) := by
  refine sim_path.bind fun p q h => ?_
  rw [h.knowsSource id]
  split
  · exact sim_addSource hm hr
  · exact .pure hm

theorem sim_readUnassigned {id : String} {spot : Spot} (hr : c.Reads id spot) (context : Context) :
    c.Sim c.Working (Eval.readUnassigned c.edition id spot context)
      (Eval.readUnassigned c.edition id spot context) := by
  have hread : c.Sim c.Working (do Eval.addSource c.edition (← Eval.clean) id spot)
      (do Eval.addSource c.edition (← Eval.clean) id spot) :=
    (sim_clean hc).bind fun _ _ hm => sim_addSource hm hr
  refine sim_path.bind fun p q h => ?_
  cases context with
  | value => exact (sim_setPath ((h.discover hr.name).markInitialized hr.name)).bind fun _ _ _ => hread
  | condition => exact (sim_setPath (h.discoverImplicit hr.name)).bind fun _ _ _ => hread
  | control => exact hread
  | other => exact hread

theorem sim_readAssigned [SetOrder] {id : String} {spot : Spot} (hr : c.Reads id spot) :
    c.Sim c.Working (Eval.readAssigned c.edition id spot) (Eval.readAssigned c.edition id spot) := by
  refine sim_path.bind fun p q h => (sim_clean hc).bind fun m m' hm => (sim_addKnownSource hm hr).bind fun m m' hm => ?_
  have hblank : c.Working p.clean q.clean := by
    rw [h.left.clean, h.right.clean]; exact working_blank hc
  have hl := h.stored id
  generalize p.labels.get? id = o at hl ⊢
  generalize q.labels.get? id = o' at hl ⊢
  cases hl with
  | none =>
    exact (sim_setPath (h.setLabel hr.name hblank.toStored)).bind fun _ _ _ => .pure (hm.combine hblank.toStored)
  | some hs => exact .pure (hm.combine hs)

variable (c) in
omit hc in
/-- How the results of two runs in a context are related. -/
def Result : Context → Taint → Taint → Prop
  | .control => c.Control
  | _ => c.Working

omit hc in
theorem Working.result {m m' : Taint} (h : c.Working m m') : ∀ context, c.Result context m m'
  | .control => h.control.toControl
  | .value => h
  | .condition => h
  | .other => h

omit hc in
theorem Result.combine [SetOrder] {a a' b b' : Taint} : ∀ {context : Context}, c.Result context a a' →
    c.Result context b b' → c.Result context (a.combine b) (a'.combine b')
  | .control, ha, hb => Control.combine ha hb
  | .value, ha, hb => Working.combine ha hb.toStored
  | .condition, ha, hb => Working.combine ha hb.toStored
  | .other, ha, hb => Working.combine ha hb.toStored

theorem sim_readName [SetOrder] {id : String} {spot : Spot} (hr : c.Reads id spot) (context : Context) :
    c.Sim (c.Result context) (Eval.readName c.edition id spot context)
      (Eval.readName c.edition id spot context) := by
  refine sim_path.bind fun p q h => ?_
  by_cases hi : id ∈ p.initialized
  · have hi' := (h.initialized id).1 hi
    rw [if_neg (not_not_intro hi), if_neg (not_not_intro hi')]
    split
    · rename_i he
      subst he
      exact .pure (h.left_on hc id)
    · exact (sim_readAssigned hc hr).imp fun _ _ hm => hm.result context
  · have hi' := fun hm => hi ((h.initialized id).2 hm)
    rw [if_pos hi, if_pos hi']
    exact (sim_readUnassigned hc hr context).imp fun _ _ hm => hm.result context

omit hc in
theorem sim_readAttribute [SetOrder] {m m' : Taint} (hm : c.Working m m') {attr : String} {spot : Spot}
    (hr : c.Reads attr spot) :
    c.Sim c.Working (Eval.readAttribute c.edition m attr spot) (Eval.readAttribute c.edition m' attr spot) := by
  refine sim_path.bind fun p q h => (sim_addKnownSource hm hr).bind fun m m' hm => ?_
  have hl := h.stored attr
  generalize p.labels.get? attr = o at hl ⊢
  generalize q.labels.get? attr = o' at hl ⊢
  cases hl with
  | none => exact .pure hm
  | some hs => exact .pure (hm.combine hs)

theorem sim_flagContainer [SetOrder] {m m' : Taint} (hm : c.Working m m') (container : Expr) (spot : Spot) :
    c.Sim (fun _ _ => True) (Eval.flagContainer c.edition container spot m)
      (Eval.flagContainer c.edition container spot m') := by
  unfold Eval.flagContainer
  split
  · exact sim_flag_explicit hc hm _ spot
  · exact .throw fun _ he => nomatch he
  · exact .pure trivial

theorem sim_readReceiver {receiver : String} {spot : Spot} (hr : receiver ≠ "" → c.Reads receiver spot) :
    c.Sim c.Working (Eval.readReceiver c.edition receiver spot) (Eval.readReceiver c.edition receiver spot) := by
  refine sim_path.bind fun p q h => ?_
  have hi : (decide (receiver ≠ "") && decide (receiver ∉ p.initialized)) =
      (decide (receiver ≠ "") && decide (receiver ∉ q.initialized)) := by
    rw [decide_eq_decide.2 (not_congr (h.initialized receiver))]
  rw [hi]
  split
  · rename_i hb
    have hr := hr (of_decide_eq_true (Bool.and_eq_true_iff.1 hb).1)
    refine (sim_setPath (h.discover hr.name)).bind fun _ _ _ => (sim_clean hc).bind fun _ _ hm => ?_
    refine (sim_addSource hm hr).bind fun _ _ hm => sim_path.bind fun p q h => ?_
    exact (sim_setPath (h.markInitialized hr.name)).bind fun _ _ _ => .pure hm
  · exact sim_clean hc

variable (c) in
omit hc in
/-- Explicit taint and control taint of two runs. -/
structure Both (a b : Taint × Taint) : Prop where
  value : c.Working a.1 b.1
  control : c.ControlWorking a.2 b.2

theorem sim_applyFunction [SetOrder] {function : String} {spot : Spot} (hr : c.Reads function spot)
    (hs : c.Sanitizes function spot.line) {m m' k k' : Taint} (hm : c.Working m m') (hk : c.ControlWorking k k') :
    c.Sim c.Both (Eval.applyFunction c.edition function spot m k)
      (Eval.applyFunction c.edition function spot m' k') := by
  refine sim_path.bind fun p q h => (sim_addKnownSource hm hr).bind fun m m' hm => ?_
  have hk := hk.combine (h.currentControl hc).toControl
  have hflag : ∀ {a a' b b' : Taint}, c.Working a a' → c.ControlWorking b b' → c.Sim c.Both
      (do Eval.flag c.edition function spot a .explicit
          Eval.flag c.edition function spot b .implicit
          return (a, b))
      (do Eval.flag c.edition function spot a' .explicit
          Eval.flag c.edition function spot b' .implicit
          return (a', b')) := by
    intro a a' b b' ha hb
    refine (sim_flag_explicit hc ha function spot).bind fun _ _ _ => ?_
    exact (sim_flag_implicit hc hb.toControl function spot).bind fun _ _ _ => .pure ⟨ha, hb⟩
  rw [h.knowsSanitizer function]
  cases q.knowsSanitizer function with
  | true =>
    exact hflag (hm.addSanitizer h.left.patterns h.right.patterns h.patterns hs)
      (hk.addSanitizer hc h.left.patterns h.right.patterns hs)
  | false => exact hflag hm hk

end Operations

end Accord

/-! ## Expressions -/

mutual

/-- The accord allows what evaluating the expression brings in. -/
def Expr.Fits [SetOrder] (c : Accord) : Expr → Prop
  | .name id spot => c.Reads id spot
  | .attribute base attr spot => base.Fits c ∧ c.Reads attr spot
  | .subscript container index _ => container.Fits c ∧ index.Fits c
  | .binary left right => left.Fits c ∧ right.Fits c
  | .call receiver function args spot =>
    (receiver ≠ "" → c.Reads receiver spot) ∧ c.Reads function spot ∧ c.Sanitizes function spot.line ∧
      Expr.FitAll c args
  | .compare left rest => left.Fits c ∧ Expr.FitAll c rest
  | .unary operand => operand.Fits c
  | .boolean values => Expr.FitAll c values
  | .inert => True
  | .missing => True
  | .fails fault => c.clear → fault ≠ .unsettled

def Expr.FitAll [SetOrder] (c : Accord) : List Expr → Prop
  | [] => True
  | e :: rest => e.Fits c ∧ Expr.FitAll c rest

end

namespace Accord

variable {c : Accord}

mutual

/-- Two runs of an expression have related taints. -/
theorem sim_evaluate [SetOrder] (hc : c.Lawful) : ∀ (e : Expr), e.Fits c → ∀ context : Context,
    c.Sim (c.Result context) (e.evaluate c.edition context) (e.evaluate c.edition context)
  | .name id spot, hr, context => by
    rw [Expr.evaluate.eq_def]
    exact sim_readName hc hr context
  | .attribute base attr spot, ⟨hb, hr⟩, context => by
    rw [Expr.evaluate.eq_def]
    refine (sim_clean hc).bind fun _ _ hm => (sim_evaluate hc base hb context).bind fun _ _ hb => ?_
    have hm := (hm.result context).combine hb
    split
    · rename_i he
      subst he
      exact sim_readAttribute hm hr
    · exact .pure hm
  | .subscript container index spot, ⟨hl, hi⟩, context => by
    rw [Expr.evaluate.eq_def]
    refine (sim_clean hc).bind fun _ _ hm => (sim_evaluate hc container hl context).bind fun _ _ hl => ?_
    refine (sim_evaluate hc index hi context).bind fun _ _ hi => ?_
    have hm := ((hm.result context).combine hl).combine hi
    split
    · rename_i he
      subst he
      exact (sim_flagContainer hc hm container spot).bind fun _ _ _ => .pure hm
    · exact .pure hm
  | .binary left right, ⟨hl, hr⟩, context => by
    rw [Expr.evaluate.eq_def]
    refine (sim_clean hc).bind fun _ _ hm => (sim_evaluate hc left hl context).bind fun _ _ hl => ?_
    exact (sim_evaluate hc right hr context).bind fun _ _ hr => .pure (((hm.result context).combine hl).combine hr)
  | .call receiver function args spot, ⟨hrec, hr, hs, hargs⟩, context => by
    rw [Expr.evaluate.eq_def]
    refine (sim_readReceiver hc hrec).bind fun _ _ hm => (sim_clean hc).bind fun _ _ hk => ?_
    refine (sim_evaluateArgs hc args hargs hm hk.control).bind fun _ _ hb => ?_
    refine (sim_applyFunction hc hr hs hb.value hb.control).bind fun _ _ hb => .pure ?_
    -- arguments are read both as values and as conditions, and the context takes one of the two taints
    split
    · rename_i he
      subst he
      exact hb.control.toControl
    · exact hb.value.result context
  | .compare left rest, ⟨hl, hrest⟩, context => by
    rw [Expr.evaluate.eq_def]
    exact (sim_evaluate hc left hl context).bind fun _ _ hm => sim_evaluateAll hc rest hrest context hm
  | .unary operand, h, context => by
    rw [Expr.evaluate.eq_def]
    exact sim_evaluate hc operand h context
  | .boolean values, h, context => by
    rw [Expr.evaluate.eq_def]
    exact (sim_clean hc).bind fun _ _ hm => sim_evaluateAll hc values h context (hm.result context)
  | .inert, _, context => by
    rw [Expr.evaluate.eq_def]
    exact (sim_clean hc).imp fun _ _ hm => hm.result context
  | .missing, _, context => by
    rw [Expr.evaluate.eq_def]
    exact (sim_clean hc).imp fun _ _ hm => hm.result context
  | .fails fault, h, context => by
    rw [Expr.evaluate.eq_def]
    exact .throw h

theorem sim_evaluateArgs [SetOrder] (hc : c.Lawful) : ∀ (args : List Expr), Expr.FitAll c args → ∀ {m m' k k' : Taint},
    c.Working m m' → c.ControlWorking k k' →
    c.Sim c.Both (Expr.evaluateArgs c.edition args m k) (Expr.evaluateArgs c.edition args m' k')
  | [], _, _, _, _, _, hm, hk => by
    rw [Expr.evaluateArgs.eq_def, Expr.evaluateArgs.eq_def]
    exact .pure ⟨hm, hk⟩
  | arg :: rest, ⟨ha, hrest⟩, _, _, _, _, hm, hk => by
    rw [Expr.evaluateArgs.eq_def, Expr.evaluateArgs.eq_def]
    refine (sim_evaluate hc arg ha .value).bind fun _ _ hv => (sim_evaluate hc arg ha .control).bind fun _ _ hv' => ?_
    exact sim_evaluateArgs hc rest hrest (hm.combine (Working.toStored hv)) (hk.combine hv')

theorem sim_evaluateAll [SetOrder] (hc : c.Lawful) : ∀ (operands : List Expr), Expr.FitAll c operands →
    ∀ (context : Context) {m m' : Taint}, c.Result context m m' →
    c.Sim (c.Result context) (Expr.evaluateAll c.edition context operands m)
      (Expr.evaluateAll c.edition context operands m')
  | [], _, context, _, _, hm => by
    rw [Expr.evaluateAll.eq_def, Expr.evaluateAll.eq_def]
    exact .pure hm
  | operand :: rest, ⟨ho, hrest⟩, context, _, _, hm => by
    rw [Expr.evaluateAll.eq_def, Expr.evaluateAll.eq_def]
    exact (sim_evaluate hc operand ho context).bind fun _ _ hv => sim_evaluateAll hc rest hrest context (hm.combine hv)

end

end Accord

/-! ## Assignments -/

/-- The accord allows what taking the target brings in. -/
def Target.Fits [SetOrder] (c : Accord) : Target → Prop
  | .name id => c.name id
  | .attribute base attr => (∀ b ∈ base, c.name b) ∧ c.name attr
  | .subscript container whole => (∀ id ∈ container, c.name id) ∧ whole.Fits c
  | .fails fault => c.clear → fault ≠ .unsettled

namespace Accord

variable {c : Accord} (hc : c.Lawful)

include hc

variable (c) in
omit hc in
/-- The taint of a place and the names it stands for, in two runs. -/
structure Taken (a b : Taint × List String) : Prop where
  value : c.Working a.1 b.1
  names : a.2 = b.2
  allowed : ∀ x ∈ a.2, c.name x

theorem sim_takeTarget [SetOrder] : ∀ (t : Target), t.Fits c →
    c.Sim c.Taken (Eval.takeTarget c.edition t) (Eval.takeTarget c.edition t)
  | .name id, h => by
    refine sim_path.bind fun p q hpq => (sim_setPath (hpq.markInitialized h)).bind fun _ _ _ => ?_
    exact (sim_clean hc).bind fun _ _ hm => .pure ⟨hm, rfl, fun x hx => List.mem_singleton.1 hx ▸ h⟩
  | .attribute base attr, ⟨hb, ha⟩ => by
    refine sim_path.bind fun p q hpq => (sim_setPath (hpq.markInitialized ha)).bind fun _ _ _ => ?_
    refine (sim_clean hc).bind fun _ _ hm => .pure ⟨hm, rfl, fun x hx => ?_⟩
    rcases List.mem_append.1 hx with hx | hx
    · exact hb x (Option.mem_toList.1 hx)
    · exact List.mem_singleton.1 hx ▸ ha
  | .subscript container whole, ⟨hi, hw⟩ => by
    refine (sim_clean hc).bind fun _ _ hm => (sim_evaluate hc whole hw .value).bind fun _ _ hv => ?_
    have hm := hm.combine (Working.toStored hv)
    cases container with
    | none => exact .pure ⟨hm, rfl, fun x hx => nomatch hx⟩
    | some id =>
      refine sim_path.bind fun p q hpq => (sim_setPath (hpq.markInitialized (hi id rfl))).bind fun _ _ _ => ?_
      exact .pure ⟨hm, rfl, fun x hx => List.mem_singleton.1 hx ▸ hi id rfl⟩
  | .fails _, h => .throw h

theorem sim_takeTargets [SetOrder] : ∀ (targets : List Target), (∀ t ∈ targets, t.Fits c) →
    ∀ {m m' : Taint} (names : List String), c.Working m m' → (∀ x ∈ names, c.name x) →
    c.Sim c.Taken (Eval.takeTargets c.edition targets m names) (Eval.takeTargets c.edition targets m' names)
  | [], _, _, _, _, hm, hn => .pure ⟨hm, rfl, hn⟩
  | t :: rest, h, _, _, _, hm, _ => by
    refine (sim_takeTarget hc t (h t (List.mem_cons_self ..))).bind ?_
    rintro ⟨m, names⟩ ⟨m', _⟩ ⟨hv, rfl, hn⟩
    exact sim_takeTargets rest (fun t ht => h t (List.mem_cons_of_mem _ ht)) names (hm.combine hv.toStored) hn

/-- What conditions left on a name, with the conditions that enclose the point of the paths. -/
theorem Kin.before [SetOrder] {p q : Path} (h : c.Kin p q) (name : String) :
    c.Control
      (match p.controlLabels.get? name with
        | some l => l.combine p.currentControl
        | none => p.currentControl)
      (match q.controlLabels.get? name with
        | some l => l.combine q.currentControl
        | none => q.currentControl) := by
  have hcur := (h.currentControl hc).toControl
  have htame : ∀ {r : Path}, c.Tamed r → c.Tame r.currentControl → c.Tame (match r.controlLabels.get? name with
      | some l => l.combine r.currentControl
      | none => r.currentControl) := by
    intro r hr hcur
    split
    · rename_i l hl
      exact (hr.controlLabels name l hl).combine hcur
    · exact hcur
  have hhas : ∀ (r : Path) {n s : String} {f : Flow}, (match r.controlLabels.get? name with
      | some l => l.combine r.currentControl
      | none => r.currentControl).Has n s f ↔ LeftOn r.controlLabels name n s f ∨ r.currentControl.Has n s f := by
    intro r n s f
    unfold LeftOn
    cases r.controlLabels.get? name with
    | none => simp
    | some l => simp [MultiLabel.has_combine]
  refine ⟨htame h.left hcur.left, htame h.right hcur.right, fun hfull n s f => ?_⟩
  rw [hhas p, hhas q, h.controlLabels hfull, hcur.same hfull]

theorem sim_assignName [SetOrder] (spot : Spot) {m m' k k' : Taint} (hm : c.Working m m') (hk : c.Control k k')
    {name : String} (hn : c.name name) :
    c.Sim c.Control (Eval.assignName c.edition spot m k name) (Eval.assignName c.edition spot m' k' name) := by
  refine sim_path.bind fun p q h => ?_
  have hk := (h.before hc name).combine hk
  refine (sim_flag_explicit hc hm name spot).bind fun _ _ _ => ?_
  refine (sim_flag_implicit hc hk name spot).bind fun _ _ _ => sim_path.bind fun p q h => ?_
  exact (sim_setPath ((h.setLabel hn hm.toStored).setControlLabel hn hk)).bind fun _ _ _ => .pure hk

theorem sim_assignNames [SetOrder] (spot : Spot) {m m' : Taint} (hm : c.Working m m') :
    ∀ (names : List String), (∀ x ∈ names, c.name x) → ∀ {k k' : Taint}, c.Control k k' →
    c.Sim c.Control (Eval.assignNames c.edition spot m names k) (Eval.assignNames c.edition spot m' names k')
  | [], _, _, _, hk => .pure hk
  | name :: rest, hn, _, _, hk =>
    (sim_assignName hc spot hm hk (hn name (List.mem_cons_self ..))).bind fun _ _ hk =>
      sim_assignNames spot hm rest (fun x hx => hn x (List.mem_cons_of_mem _ hx)) hk

variable (c) in
omit hc in
/-- The taint that was assigned, in two runs. -/
structure Assigned (a b : Taint × Taint) : Prop where
  value : c.Working a.1 b.1
  control : c.Control a.2 b.2

/-- Two runs of an assignment assign related taints. -/
theorem sim_assign [SetOrder] {targets : List Target} (ht : ∀ t ∈ targets, t.Fits c) {value : Expr} (hv : value.Fits c)
    (spot : Spot) :
    c.Sim c.Assigned (Eval.assign c.edition targets value spot) (Eval.assign c.edition targets value spot) := by
  refine (sim_clean hc).bind fun _ _ hm => ?_
  refine (sim_takeTargets hc targets ht [] hm fun x hx => nomatch hx).bind ?_
  rintro ⟨m, names⟩ ⟨m', _⟩ ⟨hm, rfl, hn⟩
  refine (sim_evaluate hc value hv .value).bind fun _ _ he => (sim_clean hc).bind fun _ _ hk => ?_
  refine (sim_evaluate hc value hv .control).bind fun _ _ he' => ?_
  have hm := hm.combine (Working.toStored he)
  refine (sim_assignNames hc spot hm names hn (hk.control.toControl.combine he')).bind fun _ _ hk => ?_
  exact .pure ⟨hm, hk⟩

theorem sim_enterTest [SetOrder] {test : Expr} (h : test.Fits c) :
    c.Sim (fun _ _ => True) (Eval.enterTest c.edition test) (Eval.enterTest c.edition test) := by
  refine (sim_evaluate hc test h .condition).bind fun _ _ hm => (sim_evaluate hc test h .control).bind fun _ _ hk => ?_
  refine sim_path.bind fun p q hpq => sim_setPath (hpq.push ?_)
  exact ((hpq.currentControl hc).toControl.combine hk).combine (Working.control hm).toControl

theorem sim_enterItem [SetOrder] {target : Target} (ht : target.Fits c) {iter : Expr} (hi : iter.Fits c) (spot : Spot) :
    c.Sim (fun _ _ => True) (Eval.enterItem c.edition target iter spot)
      (Eval.enterItem c.edition target iter spot) := by
  refine (sim_assign hc (List.forall_mem_singleton.2 ht) hi spot).bind ?_
  rintro ⟨m, k⟩ ⟨m', k'⟩ ⟨hm, hk⟩
  refine sim_path.bind fun p q hpq => sim_setPath (hpq.push ?_)
  exact ((hpq.currentControl hc).toControl.combine hk).combine hm.control.toControl

end Accord

end TaintFlow
