import TaintFlow.Proofs.Stack

/-
Two runs of a statement. Started on kin paths both runs fork in the same way, stop with the same fault
and end with kin paths. A loop decides by comparing the states it reaches how often it unrolls its body,
so here the comparison has to come out the same in both runs: strict accords see to that, for the labels
by comparing the patterns behind them, and for the conditions because the stacks of a search are all
beginnings of the stack of its entry. Statements without loops take no such decision.
-/
namespace TaintFlow

open Listing

/-! ## Comparing states in two runs -/

theorem Pattern.Alike.same {p p' q q' : Pattern} (h : p.Alike q) (h' : p'.Alike q') (hs : p.same p' = true) :
    q.same q' = true := by
  obtain ⟨hn, -, hk, -, -, hi⟩ := Pattern.mk.inj h.bare
  obtain ⟨hn', -, hk', -, -, hi'⟩ := Pattern.mk.inj h'.bare
  unfold Pattern.same at hs ⊢
  rw [← hn, ← hk, ← Pattern.sanitizers_of_bare h.bare, ← hi, ← hn', ← hk', ← Pattern.sanitizers_of_bare h'.bare, ← hi']
  simp only [Bool.and_eq_true, sameMembers_iff] at hs ⊢
  obtain ⟨⟨⟨⟨hname, hsource⟩, hsink⟩, hsan⟩, himp⟩ := hs
  refine ⟨⟨⟨⟨hname, fun s => ?_⟩, hsink⟩, hsan⟩, himp⟩
  rw [← h.sources, ← h'.sources]
  exact hsource s

theorem Pattern.same_refl (p : Pattern) : p.same p = true := (Pattern.same_iff_of_bare rfl).2 (.refl p)

theorem MultiLabel.same_iff {π ρ : Type} {view : π → Pattern} {view' : ρ → Pattern} {a : MultiLabel π}
    {b : MultiLabel ρ} :
    a.same view view' b = true ↔ ∀ name, Option.Rel
      (fun t u => (view t.pattern).same (view' u.pattern) = true ∧ t.label.Alike u.label)
      (a.entries.get? name) (b.entries.get? name) := by
  unfold MultiLabel.same
  rw [Table.agree_iff]
  simp only [Bool.and_eq_true, Label.same_iff]

theorem Path.samePatterns_iff : ∀ {ps qs : List Pattern},
    Path.samePatterns ps qs = true ↔ List.Forall₂ (fun p q => p.same q = true) ps qs
  | [], [] => by simp [Path.samePatterns]
  | [], _ :: _ => by simp [Path.samePatterns]
  | _ :: _, [] => by simp [Path.samePatterns]
  | p :: ps, q :: qs => by simp [Path.samePatterns, @Path.samePatterns_iff ps qs]

theorem Path.sameStack_iff {v v' : PatternRef → Pattern} : ∀ {as bs : List Taint},
    Path.sameStack v v' as bs = true ↔ List.Forall₂ (fun a b => a.same v v' b = true) as bs
  | [], [] => by simp [Path.sameStack]
  | [], _ :: _ => by simp [Path.sameStack]
  | _ :: _, [] => by simp [Path.sameStack]
  | a :: as, b :: bs => by simp [Path.sameStack, @Path.sameStack_iff v v' as bs]

/-- Behind the labels of a stack of kept patterns every path sees the same. -/
theorem Settled.view {C : List Taint} (hC : Settled C) (p q : Path) {m : Taint} (hm : m ∈ C) {name : String}
    {t : Tracked PatternRef} (ht : m.entries.get? name = some t) : p.view t.pattern = q.view t.pattern := by
  let k : PatternRef → PatternRef := fun ref => .kept (p.view ref)
  have hk := hC k fun _ => rfl
  -- the stack is unchanged by a replacement that leaves no reference to the path's own patterns
  obtain ⟨i, hi, rfl⟩ := List.mem_iff_getElem.1 hm
  have hfix : (C[i]).mapPatterns k = C[i] := by
    have := congrArg (fun l : List Taint => l[i]?) hk
    simpa [List.getElem?_eq_getElem hi] using this
  rw [← hfix, MultiLabel.get?_mapPatterns] at ht
  obtain ⟨u, -, rfl⟩ := Option.map_eq_some_iff.1 ht
  rfl

theorem Settled.sameStack {C : List Taint} (hC : Settled C) (p q : Path) (n : Nat) :
    Path.sameStack p.view q.view (C.take n) (C.take n) = true := by
  refine Path.sameStack_iff.2 (List.forall₂_same.2 fun m hm => MultiLabel.same_iff.2 fun name => ?_)
  cases ht : m.entries.get? name with
  | none => exact .none
  | some t =>
    refine .some ⟨?_, .refl _⟩
    rw [hC.view p q (List.mem_of_mem_take hm) ht]
    exact Pattern.same_refl _

/-- The stack of the path is a beginning of `C`. -/
def Path.Begins (C : List Taint) (p : Path) : Prop := ∃ n, p.control = C.take n

theorem Settled.sameStack_of_begins {C : List Taint} (hC : Settled C) {p q : Path} (hp : p.Begins C) (hq : q.Begins C)
    (hl : p.control.length = q.control.length) : Path.sameStack p.view q.view p.control q.control = true := by
  obtain ⟨n, hn⟩ := hp
  obtain ⟨k, hk⟩ := hq
  have heq : p.control = q.control := by
    rw [hn, hk] at hl ⊢
    exact List.take_eq_take_iff.2 (by simpa using hl)
  rw [← heq, hn]
  exact hC.sameStack p q n

theorem forall₂_transfer {α β γ δ : Type} {R : α → β → Prop} {S : α → γ → Prop} {S' : β → δ → Prop}
    {T : γ → δ → Prop} (h : ∀ {a b x y}, R a b → S a x → S' b y → T x y) {as : List α} {bs : List β} {xs : List γ}
    {ys : List δ} (hab : List.Forall₂ R as bs) (hax : List.Forall₂ S as xs) (hby : List.Forall₂ S' bs ys) :
    List.Forall₂ T xs ys := by
  induction hab generalizing xs ys with
  | nil => cases hax; cases hby; exact .nil
  | cons hab _ ih => cases hax with
    | cons hax hxs => cases hby with
      | cons hby hys => exact .cons (h hab hax hby) (ih hxs hys)

namespace Accord

variable {c : Accord}

theorem Same.transfer (hs : c.strict) {p p' q q' : Path} (h : c.Kin p q) (h' : c.Kin p' q')
    {m m' n n' : Taint} (hm : c.Same m n) (hm' : c.Same m' n') (hsame : m.same p.view p'.view m' = true) :
    n.same q.view q'.view n' = true := by
  rw [MultiLabel.same_iff] at hsame ⊢
  intro name
  refine rel_transfer (fun hr hmn hmn' => ?_) (hsame name) (hm name) (hm' name)
  have hview := Path.view_alike h.patterns (hmn.refs hs)
  have hview' := Path.view_alike h'.patterns (hmn'.refs hs)
  exact ⟨hview.same hview' hr.1, hmn.label.symm.trans (hr.2.trans hmn'.label)⟩

/-- In a strict accord a comparison that succeeds in one run succeeds in the other, if the stacks that
are compared there are equal as soon as they are equally high. -/
theorem Kin.same (hs : c.strict) {p p' q q' : Path} (h : c.Kin p q) (h' : c.Kin p' q')
    (hstack : q.control.length = q'.control.length → Path.sameStack q.view q'.view q.control q'.control = true)
    (hsame : p.same p' = true) : q.same q' = true := by
  unfold Path.same at hsame ⊢
  simp only [Bool.and_eq_true] at hsame ⊢
  obtain ⟨⟨⟨hl, hi⟩, hp⟩, hc⟩ := hsame
  refine ⟨⟨⟨?_, ?_⟩, ?_⟩, ?_⟩
  · refine Table.agree_iff.2 fun x => ?_
    exact rel_transfer (fun hr hx hx' => hx.transfer hs h h' hx' hr) (Table.agree_iff.1 hl x) (h.labels x) (h'.labels x)
  · rw [sameMembers_iff] at hi ⊢
    intro x
    rw [← h.initialized, ← h'.initialized]
    exact hi x
  · refine Path.samePatterns_iff.2 ?_
    exact forall₂_transfer (fun hr ha ha' => ha.same ha' hr) (Path.samePatterns_iff.1 hp) h.patterns h'.patterns
  -- the heights agree, because kin paths are under equally many conditions
  · refine hstack ?_
    rw [← h.control.length_eq, ← h'.control.length_eq]
    exact (Path.sameStack_iff.1 hc).length_eq

/-! ## Results of two runs -/

variable (c) in
/-- The reports show the same explicit flows, if the accord compares them. -/
def SameReport (r r' : Report) : Prop :=
  c.strict → ∀ s marks, r.Recorded s .explicit marks ↔ r'.Recorded s .explicit marks

variable (c) in
/-- Both runs come to kin paths, or stop with the same fault. -/
inductive SameWalk : Except Fault (List Path) × Report → Except Fault (List Path) × Report → Prop where
  | ok {out out' : List Path} {r r' : Report} : List.Forall₂ c.Kin out out' → c.SameReport r r' →
    SameWalk (.ok out, r) (.ok out', r')
  | error {f : Fault} {r r' : Report} : c.SameReport r r' → SameWalk (.error f, r) (.error f, r')

variable (c) in
/-- Both runs of a statement give kin paths back and go on with kin paths, or stop with the same fault. -/
inductive SameRun : Run → Run → Prop where
  | ok {given given' : List Path} {r r' : Report} {new new' : Option (List Path)} :
    List.Forall₂ c.Kin given given' → Option.Rel (List.Forall₂ c.Kin) new new' → c.SameReport r r' →
    SameRun ⟨given, r, .ok new⟩ ⟨given', r', .ok new'⟩
  | error {given given' : List Path} {r r' : Report} {f : Fault} : c.SameReport r r' →
    SameRun ⟨given, r, .error f⟩ ⟨given', r', .error f⟩

theorem SameRun.walk {r r' : Run} (h : c.SameRun r r') : c.SameWalk (r.paths?, r.report) (r'.paths?, r'.report) := by
  cases h with
  | error hr => exact .error hr
  | ok hg hn hr => cases hn with
    | none => exact .ok hg hr
    | some hn => exact .ok hn hr

variable (c) in
/-- Two runs of the analysis on kin paths have the same results. -/
def Lockstep (a : Analysis) : Prop :=
  ∀ paths paths' r r', List.Forall₂ c.Kin paths paths' → c.SameReport r r' → c.SameRun (a paths r) (a paths' r')

variable (c) in
/-- Two runs of the step on kin paths have the same results. -/
def WalkLockstep (step : Analysis.Walk) : Prop :=
  ∀ p p' r r', c.Kin p p' → c.SameReport r r' → c.SameWalk (step p r) (step p' r')

/-! ## What two runs say of one -/

theorem SameReport.refl (r : Report) : c.SameReport r r := fun _ _ _ => Iff.rfl

theorem forall₂_exists_right {R : Path → Path → Prop} {l m : List Path} (h : List.Forall₂ R l m) :
    ∀ p ∈ l, ∃ q ∈ m, R p q := by
  induction h with
  | nil => exact List.forall_mem_nil _
  | cons hpq _ ih =>
    intro p hp
    rcases List.mem_cons.1 hp with rfl | hp
    · exact ⟨_, List.mem_cons_self .., hpq⟩
    · obtain ⟨q, hq, hr⟩ := ih p hp
      exact ⟨q, List.mem_cons_of_mem _ hq, hr⟩

theorem SameWalk.tamed {out out' : List Path} {r r' : Report} (h : c.SameWalk (.ok out, r) (.ok out', r')) :
    ∀ q ∈ out, c.Tamed q := by
  cases h with
  | ok hk _ =>
    intro q hq
    obtain ⟨q', -, hkin⟩ := forall₂_exists_right hk q hq
    exact hkin.left

/-- A run from tame paths goes on with tame paths. -/
theorem Lockstep.tamed {a : Analysis} (h : c.Lockstep a) {paths : List Path} (hp : ∀ p ∈ paths, c.Tamed p) {r : Report}
    {out : List Path} (hout : (a paths r).paths? = .ok out) : ∀ q ∈ out, c.Tamed q := by
  have hkin : List.Forall₂ c.Kin paths paths := List.forall₂_same.2 fun p hmem => .refl (hp p hmem)
  have hrun := (h paths paths r r hkin (.refl r)).walk
  rw [hout] at hrun
  exact hrun.tamed

theorem WalkLockstep.keeps {step : Analysis.Walk} (h : c.WalkLockstep step) : Analysis.Keeps c.Tamed step := by
  intro p r out r' hp hout
  have hrun := h p p r r (.refl hp) (.refl r)
  rw [hout] at hrun
  exact hrun.tamed

/-! ## Statements without loops in two runs -/

theorem lockstep_idle : c.Lockstep Run.idle := fun _ _ _ _ hp hr => .ok hp .none hr

theorem Lockstep.andThen {a b : Analysis} (ha : c.Lockstep a) (hb : c.Lockstep b) :
    c.Lockstep fun paths report => (a paths report).andThen b := by
  intro paths paths' r r' hp hr
  have h := ha paths paths' r r' hp hr
  dsimp only
  generalize a paths r = x at h ⊢
  generalize a paths' r' = x' at h ⊢
  cases h with
  | error hr => exact .error hr
  | @ok given given' r₁ r₁' _ _ hg hn hr => cases hn with
    | none => exact hb given given' r₁ r₁' hg hr
    | @some new new' hn =>
      have h' := (hb new new' r₁ r₁' hn hr).walk
      simp only [Run.andThen]
      generalize (b new r₁).paths? = y at h' ⊢
      generalize (b new' r₁').paths? = y' at h' ⊢
      cases h' with
      | error hr => exact .error hr
      | ok hn hr => exact .ok hg (.some hn) hr

theorem lockstep_onEach {step : Eval Unit} (hs : c.Sim (fun _ _ => True) step step) :
    c.Lockstep (Analysis.onEach step) := by
  intro paths paths' r r' hp
  induction hp generalizing r r' with
  | nil => exact fun hr => .ok .nil .none hr
  | @cons p p' rest rest' hpp hrest ih =>
    intro hr
    rw [Analysis.onEach, Analysis.onEach]
    have h := hs ⟨p, r⟩ ⟨p', r'⟩ ⟨hpp, hr⟩
    generalize step.run ⟨p, r⟩ = x at h ⊢
    generalize step.run ⟨p', r'⟩ = x' at h ⊢
    cases h with
    | error _ hw => exact .error hw.report
    | @ok _ _ w w' _ hw =>
      have h := ih w.report w'.report hw.report
      dsimp only
      generalize Analysis.onEach step rest w.report = y at h ⊢
      generalize Analysis.onEach step rest' w'.report = y' at h ⊢
      cases h with
      | error hr => exact .error hr
      | ok hg hn hr => exact .ok (.cons hw.path hg) hn hr

theorem forall₂_map {R : Path → Path → Prop} {f : Path → Path} (hf : ∀ p q, R p q → R (f p) (f q))
    {l m : List Path} (h : List.Forall₂ R l m) : List.Forall₂ R (l.map f) (m.map f) :=
  List.forall₂_map_left_iff.2 (List.forall₂_map_right_iff.2 (h.imp hf))

theorem Kin.leave {p q : Path} (h : c.Kin p q) : c.Kin (Analysis.leave p) (Analysis.leave q) :=
  h.pop.shift (-1)

theorem lockstep_fork (hc : c.Lawful) {enter : Eval Unit} {body orelse : Analysis}
    (he : c.Sim (fun _ _ => True) enter enter) (hb : c.Lockstep body) (ho : c.Lockstep orelse) :
    ∀ {paths paths' : List Path}, List.Forall₂ c.Kin paths paths' → ∀ {done done' new new' : List Path} {r r' : Report},
      List.Forall₂ c.Kin done done' → List.Forall₂ c.Kin new new' → c.SameReport r r' →
      c.SameRun (Analysis.fork enter body orelse done new paths r)
        (Analysis.fork enter body orelse done' new' paths' r') := by
  intro paths paths' hpaths
  induction hpaths with
  | nil =>
    intro _ _ _ _ _ _ hd hn hr
    exact .ok hd (.some hn) hr
  | @cons p p' rest rest' hp _ ih =>
    intro done done' new new' r r' hd hn hr
    rw [Analysis.fork, Analysis.fork]
    have h := he ⟨{ p with scope := p.scope + 1 }, r⟩ ⟨{ p' with scope := p'.scope + 1 }, r'⟩ ⟨hp.shift 1, hr⟩
    generalize enter.run ⟨{ p with scope := p.scope + 1 }, r⟩ = x at h ⊢
    generalize enter.run ⟨{ p' with scope := p'.scope + 1 }, r'⟩ = x' at h ⊢
    cases h with
    | error _ hw => exact .error hw.report
    | @ok _ _ w w' _ hw =>
      dsimp only
      -- the second branch starts from the same fork as the first, with the reports that the first left
      have hfork : List.Forall₂ c.Kin [w.path.fork] [w'.path.fork] := .cons (hw.path.fork hc) .nil
      have hyes := (hb _ _ _ _ hfork hw.report).walk
      generalize body [w.path.fork] w.report = y at hyes ⊢
      generalize body [w'.path.fork] w'.report = y' at hyes ⊢
      obtain ⟨_, r₁, yes?⟩ := y
      obtain ⟨_, r₁', yes?'⟩ := y'
      generalize Run.paths? _ = yes at hyes ⊢
      generalize Run.paths? _ = yes' at hyes ⊢
      cases hyes with
      | error hr => exact .error hr
      | ok hyes hr =>
        dsimp only
        have hno := (ho _ _ _ _ hfork hr).walk
        generalize orelse [w.path.fork] r₁ = z at hno ⊢
        generalize orelse [w'.path.fork] r₁' = z' at hno ⊢
        obtain ⟨_, r₂, no?⟩ := z
        obtain ⟨_, r₂', no?'⟩ := z'
        generalize Run.paths? _ = no at hno ⊢
        generalize Run.paths? _ = no' at hno ⊢
        cases hno with
        | error hr => exact .error hr
        | ok hno hr =>
          exact ih (List.rel_append hd (.cons hw.path.pop .nil))
            (forall₂_map (fun _ _ => Kin.leave) (List.rel_append (List.rel_append hn hyes) hno)) hr

/-! ## Iterations in two runs -/

theorem lockstep_iteration {enter : Eval Unit} {body : Analysis} (he : c.Sim (fun _ _ => True) enter enter)
    (hb : c.Lockstep body) : c.WalkLockstep (Analysis.iteration enter body) := by
  intro p p' r r' hp hr
  unfold Analysis.iteration
  have h := he ⟨p, r⟩ ⟨p', r'⟩ ⟨hp, hr⟩
  generalize enter.run ⟨p, r⟩ = x at h ⊢
  generalize enter.run ⟨p', r'⟩ = x' at h ⊢
  cases h with
  | error _ hw => exact .error hw.report
  | @ok _ _ w w' _ hw =>
    dsimp only
    have h := hb [w.path] [w'.path] w.report w'.report (.cons hw.path .nil) hw.report
    generalize body [w.path] w.report = y at h ⊢
    generalize body [w'.path] w'.report = y' at h ⊢
    cases h with
    | error hr => exact .error hr
    | ok hg hn hr => cases hn with
      | none => exact .ok (forall₂_map (fun _ _ h => h.pop.pop) hg) hr
      | some hn => exact .ok (forall₂_map (fun _ _ h => h.pop) hn) hr

theorem lockstep_iterate {step : Analysis.Walk} (hs : c.WalkLockstep step) :
    ∀ {paths paths' : List Path}, List.Forall₂ c.Kin paths paths' → ∀ {r r' : Report}, c.SameReport r r' →
      c.SameWalk (Analysis.iterate step paths r) (Analysis.iterate step paths' r') := by
  intro paths paths' hpaths
  induction hpaths with
  | nil =>
    intro _ _ hr
    exact .ok .nil hr
  | @cons p p' rest rest' hp _ ih =>
    intro r r' hr
    rw [Analysis.iterate, Analysis.iterate]
    have h := hs p p' r r' hp hr
    generalize step p r = x at h ⊢
    generalize step p' r' = x' at h ⊢
    cases h with
    | error hr => exact .error hr
    | @ok first first' r₁ r₁' hf hr =>
      dsimp only
      have h := ih hr
      generalize Analysis.iterate step rest r₁ = y at h ⊢
      generalize Analysis.iterate step rest' r₁' = y' at h ⊢
      cases h with
      | error hr => exact .error hr
      | ok ho hr => exact .ok (List.rel_append hf ho) hr

theorem lockstep_unroll {step : Analysis.Walk} (hs : c.WalkLockstep step) :
    ∀ (n : Nat) {paths paths' : List Path}, List.Forall₂ c.Kin paths paths' → ∀ {r r' : Report}, c.SameReport r r' →
      c.SameWalk (Analysis.unroll step n paths r) (Analysis.unroll step n paths' r')
  | 0, _, _, hp, _, _, hr => .ok hp hr
  | n + 1, paths, paths', hp, r, r', hr => by
    rw [Analysis.unroll, Analysis.unroll]
    have h := lockstep_iterate hs hp hr
    generalize Analysis.iterate step paths r = x at h ⊢
    generalize Analysis.iterate step paths' r' = x' at h ⊢
    cases h with
    | error hr => exact .error hr
    | ok hn hr => exact lockstep_unroll hs n hn hr

theorem lockstep_rounds {enter : Eval Unit} {body : Analysis} (hs : c.WalkLockstep (Analysis.iteration enter body))
    (depth : Int) (n : Nat) {start start' : Path} (hp : c.Kin start start') {r r' : Report} (hr : c.SameReport r r') :
    c.SameWalk (Analysis.rounds depth enter body start n r) (Analysis.rounds depth enter body start' n r') := by
  unfold Analysis.rounds
  have h := lockstep_unroll hs n (.cons hp .nil) hr
  generalize Analysis.unroll _ n [start] r = x at h ⊢
  generalize Analysis.unroll _ n [start'] r' = x' at h ⊢
  cases h with
  | error hr => exact .error hr
  | ok hn hr => exact .ok (forall₂_map (fun _ _ h => h.shift (-depth)) hn) hr

/-! ## The search of a loop in two runs -/

section Search

variable (hs : c.strict) {C C' : List Taint} (hC : Settled C) (hC' : Settled C')

include hs hC hC'

/-- Two states of a search are the same in one run if they are in the other. -/
theorem same_eq {p p' q q' : Path} (h : c.Kin p q) (h' : c.Kin p' q') (hp : p.Begins C) (hp' : p'.Begins C)
    (hq : q.Begins C') (hq' : q'.Begins C') : p.same p' = q.same q' := by
  rw [Bool.eq_iff_iff]
  exact ⟨h.same hs h' (hC'.sameStack_of_begins hq hq'), h.symm.same hs h'.symm (hC.sameStack_of_begins hp hp')⟩

theorem any_same_eq {p p' : Path} (hp : c.Kin p p') (hb : p.Begins C) (hb' : p'.Begins C') {seen seen' : List Path}
    (hseen : List.Forall₂ c.Kin seen seen') (hsb : ∀ q ∈ seen, q.Begins C) (hsb' : ∀ q ∈ seen', q.Begins C') :
    seen.any p.same = seen'.any p'.same := by
  induction hseen with
  | nil => rfl
  | cons hq _ ih =>
    rw [List.forall_mem_cons] at hsb hsb'
    rw [List.any_cons, List.any_cons, same_eq hs hC hC' hp hq hb hsb.1 hb' hsb'.1, ih hsb.2 hsb'.2]

theorem lockstep_addNew {paths paths' : List Path} (hp : List.Forall₂ c.Kin paths paths')
    (hb : ∀ p ∈ paths, p.Begins C) (hb' : ∀ p ∈ paths', p.Begins C') {seen seen' : List Path}
    (hseen : List.Forall₂ c.Kin seen seen') (hsb : ∀ p ∈ seen, p.Begins C) (hsb' : ∀ p ∈ seen', p.Begins C') :
    List.Forall₂ c.Kin (Analysis.addNew Path.same seen paths) (Analysis.addNew Path.same seen' paths') := by
  induction hp generalizing seen seen' with
  | nil => exact hseen
  | @cons p p' paths paths' hp _ ih =>
    rw [List.forall_mem_cons] at hb hb'
    have ih := @ih hb.2 hb'.2
    show List.Forall₂ c.Kin (Analysis.addNew Path.same (if seen.any p.same then seen else seen ++ [p]) paths)
      (Analysis.addNew Path.same (if seen'.any p'.same then seen' else seen' ++ [p']) paths')
    -- the path is new in both runs, or known in both
    rw [any_same_eq hs hC hC' hp hb.1 hb'.1 hseen hsb hsb']
    split
    · exact ih hseen hsb hsb'
    · exact ih (List.rel_append hseen (.cons hp .nil))
        (List.forall_mem_append.2 ⟨hsb, List.forall_mem_singleton.2 hb.1⟩)
        (List.forall_mem_append.2 ⟨hsb', List.forall_mem_singleton.2 hb'.1⟩)

theorem lockstep_settle {unrolled unrolled' : Nat → Report → Except Fault (List Path) × Report}
    (hu : ∀ n r r', c.SameReport r r' → c.SameWalk (unrolled n r) (unrolled' n r'))
    (hb : ∀ n r r₁ out, unrolled n r = (.ok out, r₁) → ∀ q ∈ out, q.Begins C)
    (hb' : ∀ n r r₁ out, unrolled' n r = (.ok out, r₁) → ∀ q ∈ out, q.Begins C') :
    ∀ (limit n : Nat) {seen seen' found found' : List Path} {r r' : Report}, List.Forall₂ c.Kin seen seen' →
      (∀ p ∈ seen, p.Begins C) → (∀ p ∈ seen', p.Begins C') → List.Forall₂ c.Kin found found' →
      c.SameReport r r' →
      c.SameWalk (Analysis.settle Path.same unrolled limit n seen found r)
        (Analysis.settle Path.same unrolled' limit n seen' found' r')
  | 0, _, _, _, _, _, _, _, _, _, _, _, hr => .error hr
  | limit + 1, n, seen, seen', found, found', r, r', hseen, hsb, hsb', hf, hr => by
    rw [Analysis.settle, Analysis.settle]
    have h := hu (n + 1) r r' hr
    have hout := hb (n + 1) r
    have hout' := hb' (n + 1) r'
    generalize unrolled (n + 1) r = x at h hout ⊢
    generalize unrolled' (n + 1) r' = x' at h hout' ⊢
    cases h with
    | error hr => exact .error hr
    | @ok paths paths' r₁ r₁' hp hr =>
      have hpb := hout r₁ paths rfl
      have hpb' := hout' r₁' paths' rfl
      have hnew := lockstep_addNew hs hC hC' hp hpb hpb' hseen hsb hsb'
      dsimp only
      -- as many states are seen in both runs, so they stop after the same round
      rw [hnew.length_eq, hseen.length_eq]
      split
      · exact .ok (List.rel_append hf hp) hr
      · exact lockstep_settle hu hb hb' limit (n + 1) hnew (fun q hq => (Analysis.mem_addNew hq).elim (hsb q) (hpb q))
          (fun q hq => (Analysis.mem_addNew hq).elim (hsb' q) (hpb' q)) (List.rel_append hf hp) hr

end Search

theorem Kin.entry (hc : c.Lawful) {p q : Path} (h : c.Kin p q) (depth : Int) :
    c.Kin (Analysis.entry depth p) (Analysis.entry depth q) :=
  (h.fork hc).shift depth

theorem Tamed.entry (hc : c.Lawful) {p : Path} (h : c.Tamed p) (depth : Int) : c.Tamed (Analysis.entry depth p) :=
  ((Kin.refl h).entry hc depth).left

/-- The states after a number of iterations have a beginning of the stack of the entry. -/
theorem begins_rounds {depth : Int} {enter : Eval Unit} {body : Analysis} (he : Eval.Pushes enter)
    (hb : Analysis.Shortening body) (p : Path) {n : Nat} {r r₁ : Report} {out : List Path}
    (h : Analysis.rounds depth enter body (Analysis.entry depth p) n r = (.ok out, r₁)) :
    ∀ q ∈ out, q.Begins p.fork.control := fun q hq =>
  (Analysis.shortens_rounds he hb h q hq).take_of_settled p.settled_fork

theorem forall₂_leaveLoop {paths paths' : List Path} (h : List.Forall₂ c.Kin paths paths') :
    List.Forall₂ c.Kin (Analysis.leaveLoop paths) (Analysis.leaveLoop paths') := by
  have hpop := forall₂_map (fun _ _ h => Kin.pop h) h
  have hlast : ∀ {l l' : List Path}, List.Forall₂ c.Kin l l' → List.Forall₂ c.Kin
      (l.getLast?.map (·.pop)).toList (l'.getLast?.map (·.pop)).toList := by
    intro l l' hl
    induction hl with
    | nil => exact .nil
    | cons hp hrest ih => cases hrest with
      | nil => exact .cons hp.pop .nil
      | cons _ _ => simpa only [List.getLast?_cons_cons] using ih
  exact List.rel_append (forall₂_dropLast hpop) (hlast hpop)

section Loop

variable (hc : c.Lawful) (hs : c.strict) (limit : Nat) (depth : Int) {enter : Eval Unit} {body orelse : Analysis}
  (he : c.Sim (fun _ _ => True) enter enter) (hpush : Eval.Pushes enter) (hb : c.Lockstep body)
  (hshort : Analysis.Shortening body)

include hc hs he hpush hb hshort

theorem lockstep_search : c.WalkLockstep (Analysis.search limit depth enter body) := by
  intro p p' r r' hp hr
  exact lockstep_settle hs p.settled_fork p'.settled_fork
    (fun n r r' => lockstep_rounds (lockstep_iteration he hb) depth n (hp.entry hc depth))
    (fun n r r₁ out h => begins_rounds hpush hshort p h) (fun n r r₁ out h => begins_rounds hpush hshort p' h)
    limit 0 .nil (List.forall_mem_nil _) (List.forall_mem_nil _) .nil hr

variable (ho : c.Lockstep orelse)

include ho

theorem lockstep_loopFrom : c.WalkLockstep (Analysis.loopFrom limit depth enter body orelse) := by
  intro p p' r r' hp hr
  unfold Analysis.loopFrom
  have h := lockstep_search hc hs limit depth he hpush hb hshort p p' r r' hp hr
  generalize Analysis.search limit depth enter body p r = x at h ⊢
  generalize Analysis.search limit depth enter body p' r' = x' at h ⊢
  cases h with
  | error hr => exact .error hr
  | @ok found found' r₁ r₁' hf hr =>
    dsimp only
    have h := (ho _ _ _ _ (.cons (hp.entry hc depth) .nil) hr).walk
    generalize orelse [Analysis.entry depth p] r₁ = y at h ⊢
    generalize orelse [Analysis.entry depth p'] r₁' = y' at h ⊢
    obtain ⟨_, r₂, skipped?⟩ := y
    obtain ⟨_, r₂', skipped?'⟩ := y'
    generalize Run.paths? _ = skipped at h ⊢
    generalize Run.paths? _ = skipped' at h ⊢
    cases h with
    | error hr => exact .error hr
    | ok hsk hr => exact .ok (List.rel_append hf (forall₂_leaveLoop hsk)) hr

theorem lockstep_loop : c.Lockstep (Analysis.loop limit depth enter body orelse) := by
  intro paths paths' r r' hp hr
  unfold Analysis.loop
  have h := lockstep_iterate (lockstep_loopFrom hc hs limit depth he hpush hb hshort ho) hp hr
  generalize Analysis.iterate _ paths r = x at h ⊢
  generalize Analysis.iterate _ paths' r' = x' at h ⊢
  cases h with
  | error hr => exact .error hr
  | ok hn hr => exact .ok hp (.some hn) hr

end Loop

end Accord

/-! ## Statements -/

mutual

/-- The accord allows what the statement brings in. -/
def Stmt.Fits [SetOrder] (c : Accord) : Stmt → Prop
  | .skip => True
  | .block body => Stmt.FitAll c body
  | .assign targets value _ => (∀ t ∈ targets, t.Fits c) ∧ value.Fits c
  | .annotated target value _ => target.Fits c ∧ value.Fits c
  | .augmented target current value _ => target.Fits c ∧ current.Fits c ∧ value.Fits c
  | .eval value => value.Fits c
  | .branch test body orelse => test.Fits c ∧ body.Fits c ∧ orelse.Fits c
  | .loop test body orelse => test.Fits c ∧ body.Fits c ∧ orelse.Fits c
  | .each target iter body orelse _ => target.Fits c ∧ iter.Fits c ∧ body.Fits c ∧ orelse.Fits c
  | .fails fault => c.clear → fault ≠ .unsettled

def Stmt.FitAll [SetOrder] (c : Accord) : List Stmt → Prop
  | [] => True
  | s :: rest => s.Fits c ∧ Stmt.FitAll c rest

end

mutual

/-- There is no loop in the statement. -/
def Stmt.LoopFree : Stmt → Prop
  | .block body => Stmt.AllLoopFree body
  | .branch _ body orelse => body.LoopFree ∧ orelse.LoopFree
  | .loop .. => False
  | .each .. => False
  | _ => True

def Stmt.AllLoopFree : List Stmt → Prop
  | [] => True
  | s :: rest => s.LoopFree ∧ Stmt.AllLoopFree rest

end

namespace Accord

variable {c : Accord}

theorem lockstep_assign [SetOrder] (hc : c.Lawful) {targets : List Target} (ht : ∀ t ∈ targets, t.Fits c) {value : Expr}
    (hv : value.Fits c) (spot : Spot) :
    c.Lockstep (Analysis.onEach do discard (Eval.assign c.edition targets value spot)) :=
  lockstep_onEach (sim_assign hc ht hv spot).discard

mutual

/-- Two runs of a statement on kin paths have the same results, if its loops are compared strictly. -/
theorem lockstep_analyse [SetOrder] (hc : c.Lawful) (limit : Nat) : ∀ (s : Stmt), s.Fits c → c.strict ∨ s.LoopFree →
    c.Lockstep (s.analyse c.edition limit)
  | .skip, _, _ => by
    rw [Stmt.analyse.eq_def]
    exact lockstep_idle
  | .block body, hf, hl => by
    rw [Stmt.analyse.eq_def]
    exact lockstep_analyseBlock hc limit body hf hl
  | .assign targets value spot, hf, _ => by
    rw [Stmt.analyse.eq_def]
    exact lockstep_assign hc hf.1 hf.2 spot
  | .annotated target value spot, hf, _ => by
    rw [Stmt.analyse.eq_def]
    have h := lockstep_assign hc (List.forall_mem_singleton.2 hf.1) hf.2 { line := spot.line }
    generalize c.edition = edition at h ⊢
    cases edition
    · exact lockstep_idle
    · exact h
  | .augmented target current value spot, hf, _ => by
    rw [Stmt.analyse.eq_def]
    have hv : (Expr.binary current value).Fits c := hf.2
    have h := lockstep_assign hc (List.forall_mem_singleton.2 hf.1) hv { line := spot.line }
    generalize c.edition = edition at h ⊢
    cases edition
    · exact lockstep_idle
    · exact h
  | .eval value, hf, _ => by
    rw [Stmt.analyse.eq_def]
    exact lockstep_onEach (sim_evaluate hc value hf .value).discard
  | .branch test body orelse, ⟨ht, hb, ho⟩, hl => by
    rw [Stmt.analyse.eq_def]
    intro paths paths' r r' hp hr
    exact lockstep_fork hc (sim_enterTest hc ht) (lockstep_analyse hc limit body hb (hl.imp id And.left))
      (lockstep_analyse hc limit orelse ho (hl.imp id And.right)) hp .nil .nil hr
  | .loop test body orelse, ⟨ht, hb, ho⟩, hl => by
    rw [Stmt.analyse.eq_def]
    have hs : c.strict := hl.elim id False.elim
    exact lockstep_loop hc hs limit 0 (sim_enterTest hc ht) (Eval.pushes_enterTest c.edition test)
      (lockstep_analyse hc limit body hb (.inl hs)) (body.shortening_analyse c.edition limit)
      (lockstep_analyse hc limit orelse ho (.inl hs))
  | .each target iter body orelse spot, ⟨ht, hi, hb, ho⟩, hl => by
    rw [Stmt.analyse.eq_def]
    have hs : c.strict := hl.elim id False.elim
    exact lockstep_loop hc hs limit 1 (sim_enterItem hc ht hi _) (Eval.pushes_enterItem c.edition target iter _)
      (lockstep_analyse hc limit body hb (.inl hs)) (body.shortening_analyse c.edition limit)
      (lockstep_analyse hc limit orelse ho (.inl hs))
  | .fails fault, _, _ => by
    rw [Stmt.analyse.eq_def]
    exact fun _ _ _ _ _ hr => .error hr

theorem lockstep_analyseBlock [SetOrder] (hc : c.Lawful) (limit : Nat) : ∀ (body : List Stmt), Stmt.FitAll c body →
    c.strict ∨ Stmt.AllLoopFree body → c.Lockstep (Stmt.analyseBlock c.edition limit body)
  | [], _, _ => by
    rw [Stmt.analyseBlock.eq_def]
    exact lockstep_idle
  | s :: rest, ⟨hs, hrest⟩, hl => by
    rw [Stmt.analyseBlock.eq_def]
    exact (lockstep_analyse hc limit s hs (hl.imp id And.left)).andThen
      (lockstep_analyseBlock hc limit rest hrest (hl.imp id And.right))

end

/-! ## Accords that every program fits -/

variable (c) in
/-- The accord allows every name and every sanitizer call, and every fault. -/
structure Open [SetOrder] : Prop where
  names : ∀ x, c.name x
  raw : ∀ name x position, c.flow name x { position }
  sanitizes : ∀ function line, c.Sanitizes function line
  faults : ¬ c.clear

theorem Open.reads [SetOrder] (h : c.Open) (id : String) (spot : Spot) : c.Reads id spot :=
  ⟨h.names id, fun name _ => h.raw name id _⟩

mutual

theorem Open.fits_expr [SetOrder] (h : c.Open) : ∀ e : Expr, e.Fits c
  | .name id spot => h.reads id spot
  | .attribute base attr spot => ⟨h.fits_expr base, h.reads attr spot⟩
  | .subscript container index _ => ⟨h.fits_expr container, h.fits_expr index⟩
  | .binary left right => ⟨h.fits_expr left, h.fits_expr right⟩
  | .call receiver function args spot =>
    ⟨fun _ => h.reads receiver spot, h.reads function spot, h.sanitizes function spot.line, h.fits_exprs args⟩
  | .compare left rest => ⟨h.fits_expr left, h.fits_exprs rest⟩
  | .unary operand => h.fits_expr operand
  | .boolean values => h.fits_exprs values
  | .inert => trivial
  | .missing => trivial
  | .fails _ => fun hclear => absurd hclear h.faults

theorem Open.fits_exprs [SetOrder] (h : c.Open) : ∀ es : List Expr, Expr.FitAll c es
  | [] => trivial
  | e :: rest => ⟨h.fits_expr e, h.fits_exprs rest⟩

end

theorem Open.fits_target [SetOrder] (h : c.Open) : ∀ t : Target, t.Fits c
  | .name id => h.names id
  | .attribute _ attr => ⟨fun b _ => h.names b, h.names attr⟩
  | .subscript _ whole => ⟨fun id _ => h.names id, h.fits_expr whole⟩
  | .fails _ => fun hclear => absurd hclear h.faults

mutual

theorem Open.fits [SetOrder] (h : c.Open) : ∀ s : Stmt, s.Fits c
  | .skip => trivial
  | .block body => h.fits_all body
  | .assign _ value _ => ⟨fun t _ => h.fits_target t, h.fits_expr value⟩
  | .annotated target value _ => ⟨h.fits_target target, h.fits_expr value⟩
  | .augmented target current value _ => ⟨h.fits_target target, h.fits_expr current, h.fits_expr value⟩
  | .eval value => h.fits_expr value
  | .branch test body orelse => ⟨h.fits_expr test, h.fits body, h.fits orelse⟩
  | .loop test body orelse => ⟨h.fits_expr test, h.fits body, h.fits orelse⟩
  | .each target iter body orelse _ => ⟨h.fits_target target, h.fits_expr iter, h.fits body, h.fits orelse⟩
  | .fails _ => fun hclear => absurd hclear h.faults

theorem Open.fits_all [SetOrder] (h : c.Open) : ∀ body : List Stmt, Stmt.FitAll c body
  | [] => trivial
  | s :: rest => ⟨h.fits s, h.fits_all rest⟩

end

end Accord

end TaintFlow
