import Mathlib.Data.List.Basic
import TaintFlow.Analysis.Statement
import TaintFlow.Proofs.Contract
import TaintFlow.Proofs.Growth

/-
The control stack. Evaluating an expression or an assignment leaves the stack of enclosing conditions
as it is; only entering and leaving a region changes it. So the stack of every path that comes out of a
statement is a beginning of the stack with which the statement was entered, with the patterns of its
labels kept at forks (`Shortens`). In particular all paths that a loop search collects have a beginning
of one and the same stack, and two of their stacks are equal as soon as they are equally high.
-/
namespace TaintFlow

/-! ## Steps that leave the stack alone -/

namespace Eval

variable {α : Type} {C : List Taint}

/-- Started with the stack `C` the step ends with it, also when it faults. -/
abbrev Keeps (C : List Taint) (x : Eval α) : Prop := x.Preserves fun w => w.path.control = C

variable (edition : Edition)

theorem keeps_evaluate [SetOrder] (e : Expr) (context : Context) : Keeps C (e.evaluate edition context) :=
  fun w hw _ => ⟨(e.grows_evaluate edition context w).path.control.trans hw, fun _ _ => trivial⟩

theorem keeps_assignName [SetOrder] (spot : Spot) (m control : Taint) (name : String) :
    Keeps C (assignName edition spot m control name) := by
  have hflag : ∀ (k : Taint) (kind : FlowKind), Keeps C (flag edition name spot k kind) :=
    fun k kind => secures_flag (S := (·.control = C)) (T := fun _ => True) edition name spot k kind
  refine .path fun _ _ _ => (hflag m .explicit).secures.bind fun _ => (hflag _ .implicit).bind fun _ => ?_
  refine .path fun v hv _ => ?_
  exact Secures.bind (secures_setPath fun _ _ _ => ⟨hv, trivial⟩) fun _ => preserves_pure _

theorem keeps_assign [SetOrder] (targets : List Target) (value : Expr) (spot : Spot) :
    Keeps C (assign edition targets value spot) := by
  have hread : ∀ (e : Expr) (context : Context), (∀ site ∈ e.sites, True) → Keeps C (e.evaluate edition context) :=
    fun e context _ => keeps_evaluate edition e context
  exact preserves_assign (fun _ _ hw => hw) hread (keeps_assignName edition) fun _ _ => trivial

/-- A step that enters a region: if it does not fault, it puts one label on the stack. -/
def Pushes (x : Eval Unit) : Prop :=
  ∀ w w', x.run w = (.ok (), w') → ∃ m, w'.path.control = w.path.control ++ [m]

theorem pushes_of_keeps {α : Type} {x : Eval α} {f : Path → α → Taint}
    (hx : ∀ C, Keeps C x) :
    Pushes (do
      let a ← x
      let p ← path
      setPath (p.push (f p a))) := by
  intro w w' h
  obtain ⟨hcontrol, -⟩ := hx w.path.control w rfl trivial
  rw [run_bind] at h
  generalize x.run w = r at h hcontrol
  obtain ⟨r, w''⟩ := r
  cases r with
  | error f => cases h
  | ok a =>
    cases h
    exact ⟨f w''.path a, congrArg (· ++ [f w''.path a]) hcontrol⟩

theorem pushes_enterTest [SetOrder] (test : Expr) : Pushes (enterTest edition test) := by
  have h : enterTest edition test = (do
      let a ← (do
        let condition ← test.evaluate edition .condition
        let control ← test.evaluate edition .control
        return (condition, control) : Eval (Taint × Taint))
      let p ← path
      setPath (p.push ((p.currentControl.combine a.2).combine a.1))) := by
    simp only [enterTest, bind_assoc, pure_bind]
  rw [h]
  refine pushes_of_keeps fun C => (keeps_evaluate edition test .condition).bind fun _ => ?_
  exact (keeps_evaluate edition test .control).bind fun _ => preserves_pure _

theorem pushes_enterItem [SetOrder] (target : Target) (iter : Expr) (spot : Spot) :
    Pushes (enterItem edition target iter spot) :=
  pushes_of_keeps fun _ => keeps_assign edition [target] iter spot

end Eval

/-! ## Loops -/

/-- What a loop does before each iteration: evaluate its test, or assign the next item. -/
inductive Header where
  | test (e : Expr)
  | item (target : Target) (iter : Expr) (spot : Spot)

namespace Header

def enter [SetOrder] (edition : Edition) : Header → Eval Unit
  | .test e => Eval.enterTest edition e
  | .item target iter spot => Eval.enterItem edition target iter { line := spot.line }

/-- What the loop adds to the nesting level. -/
def depth : Header → Int
  | .test _ => 0
  | .item .. => 1

/-- The sites at which the loop is entered. -/
def sites : Header → List Site
  | .test e => e.sites
  | .item target iter spot => target.sites { line := spot.line } ++ iter.sites

/-- The loop as a statement. -/
def loop (body orelse : Stmt) : Header → Stmt
  | .test e => .loop e body orelse
  | .item target iter spot => .each target iter body orelse spot

theorem analyse_loop [SetOrder] (edition : Edition) (limit : Nat) (body orelse : Stmt) : ∀ h : Header,
    (h.loop body orelse).analyse edition limit =
      Analysis.loop limit h.depth (h.enter edition) (body.analyse edition limit) (orelse.analyse edition limit)
  | .test e => by rw [loop, Stmt.analyse]; rfl
  | .item target iter spot => by rw [loop, Stmt.analyse]; rfl

theorem pushes_enter [SetOrder] (edition : Edition) : ∀ h : Header, Eval.Pushes (h.enter edition)
  | .test e => Eval.pushes_enterTest edition e
  | .item target iter _ => Eval.pushes_enterItem edition target iter _

end Header

/-! ## Beginnings of a stack -/

theorem Table.map_map {κ α β γ : Type} (f : α → β) (g : β → γ) (t : Table κ α) :
    (t.map f).map g = t.map (fun a => g (f a)) := by
  simp only [Table.map, List.map_map, Function.comp_def]

theorem Table.map_id {κ α : Type} {f : α → α} (t : Table κ α) (h : ∀ a, f a = a) : t.map f = t := by
  have hf : f = id := funext h
  subst hf
  simp [Table.map]

theorem MultiLabel.mapPatterns_mapPatterns {π ρ σ : Type} (f : π → ρ) (g : ρ → σ) (m : MultiLabel π) :
    (m.mapPatterns f).mapPatterns g = m.mapPatterns (fun r => g (f r)) := by
  unfold MultiLabel.mapPatterns
  rw [Table.map_map]

/-- A way to replace references that leaves kept patterns as they are. -/
def Keeping (k : PatternRef → PatternRef) : Prop := ∀ q, k (.kept q) = .kept q

theorem Path.keeping (p : Path) : Keeping p.keep := fun _ => rfl

/-- `D` is a beginning of `C`, with the patterns of its labels kept. -/
def Shortens (C D : List Taint) : Prop :=
  ∃ n k, Keeping k ∧ D = (C.take n).map (·.mapPatterns k)

theorem Shortens.refl (C : List Taint) : Shortens C C := by
  refine ⟨C.length, id, fun _ => rfl, ?_⟩
  have hid : ∀ m : Taint, m.mapPatterns id = m := fun m => congrArg MultiLabel.mk (Table.map_id _ fun _ => rfl)
  rw [List.take_length, List.map_congr_left fun m _ => hid m, List.map_id']

theorem Shortens.trans {C D E : List Taint} (h : Shortens C D) (h' : Shortens D E) : Shortens C E := by
  obtain ⟨n, k, hk, rfl⟩ := h
  obtain ⟨n', k', hk', rfl⟩ := h'
  refine ⟨min n' n, fun r => k' (k r), fun q => (congrArg k' (hk q)).trans (hk' q), ?_⟩
  rw [← List.map_take, List.take_take, List.map_map]
  exact List.map_congr_left fun m _ => MultiLabel.mapPatterns_mapPatterns k k' m

theorem Shortens.take (C : List Taint) (n : Nat) : Shortens C (C.take n) := by
  obtain ⟨n', k, hk, h⟩ := Shortens.refl (C.take n)
  refine ⟨min n' n, k, hk, ?_⟩
  rw [← List.take_take]
  exact h

theorem Shortens.keep (C : List Taint) (p : Path) : Shortens C (C.map (·.mapPatterns p.keep)) :=
  ⟨C.length, p.keep, p.keeping, by rw [List.take_length]⟩

theorem Shortens.pop {C : List Taint} {p : Path} (h : Shortens C p.control) : Shortens C p.pop.control := by
  refine h.trans ?_
  show Shortens p.control p.control.dropLast
  rw [List.dropLast_eq_take]
  exact Shortens.take _ _

/-- What was pushed is gone after a pop. -/
theorem Shortens.pop_push {C : List Taint} {m : Taint} {p : Path} (h : Shortens (C ++ [m]) p.control) :
    Shortens C p.pop.control := by
  obtain ⟨n, k, hk, h⟩ := h
  refine ⟨min n (C.length + 1) - 1, k, hk, ?_⟩
  show p.control.dropLast = _
  rw [h, List.dropLast_eq_take, List.length_map, List.length_take, List.length_append, List.length_singleton,
    ← List.map_take, List.take_take, List.take_append_of_le_length (by omega)]
  congr 2
  omega

/-- Labels that refer to kept patterns only. -/
def Settled (C : List Taint) : Prop := ∀ k, Keeping k → C.map (·.mapPatterns k) = C

theorem Path.settled_fork (p : Path) : Settled p.fork.control := by
  intro k hk
  show (p.control.map (·.mapPatterns p.keep)).map _ = p.control.map _
  rw [List.map_map]
  refine List.map_congr_left fun m _ => (MultiLabel.mapPatterns_mapPatterns p.keep k m).trans ?_
  have hkk : ∀ r, k (p.keep r) = p.keep r := fun r => hk _
  simp only [hkk]

/-- Beginnings of a stack of kept patterns are beginnings as they stand. -/
theorem Shortens.take_of_settled {C D : List Taint} (hC : Settled C) (h : Shortens C D) : ∃ n, D = C.take n := by
  obtain ⟨n, k, hk, rfl⟩ := h
  refine ⟨n, ?_⟩
  rw [List.map_take, hC k hk]

/-! ## What comes out of a loop search -/

namespace Analysis

/-- A step from one path to several. -/
abbrev Walk := Path → Report → Except Fault (List Path) × Report

/-- Every path that the step comes to satisfies `P` if the path it starts from does. -/
def Keeps (P : Path → Prop) (step : Walk) : Prop :=
  ∀ p report out report', P p → step p report = (.ok out, report') → ∀ q ∈ out, P q

variable {P : Path → Prop}

/-- What comes out of an iteration from several paths comes out of one of them, and conversely. -/
theorem iterate_spec {step : Walk} : ∀ {paths : List Path} {r r' : Report} {out : List Path},
    iterate step paths r = (.ok out, r') →
      (∀ q ∈ out, ∃ p ∈ paths, ∃ r₁ r₂ o, step p r₁ = (.ok o, r₂) ∧ q ∈ o) ∧
      ∀ p ∈ paths, ∃ r₁ r₂ o, step p r₁ = (.ok o, r₂) ∧ ∀ q ∈ o, q ∈ out
  | [], _, _, _, h => by
    cases h
    exact ⟨List.forall_mem_nil _, List.forall_mem_nil _⟩
  | p :: rest, r, r', out, h => by
    rw [iterate] at h
    obtain ⟨x, hx⟩ : ∃ x, step p r = x := ⟨_, rfl⟩
    rw [hx] at h
    obtain ⟨first, r₁⟩ := x
    cases first with
    | error f => cases h
    | ok first =>
      dsimp only at h
      obtain ⟨y, hy⟩ : ∃ y, iterate step rest r₁ = y := ⟨_, rfl⟩
      rw [hy] at h
      obtain ⟨others, r₂⟩ := y
      cases others with
      | error f => cases h
      | ok others =>
        cases h
        obtain ⟨hout, hin⟩ := iterate_spec hy
        refine ⟨fun q hq => ?_, fun q hq => ?_⟩
        · rcases List.mem_append.1 hq with hq | hq
          · exact ⟨p, List.mem_cons_self .., r, r₁, first, hx, hq⟩
          · obtain ⟨p', hp', h⟩ := hout q hq
            exact ⟨p', List.mem_cons_of_mem _ hp', h⟩
        · rcases List.mem_cons.1 hq with rfl | hq
          · exact ⟨r, r₁, first, hx, fun q hq => List.mem_append.2 (.inl hq)⟩
          · obtain ⟨r₃, r₄, o, ho, hmem⟩ := hin q hq
            exact ⟨r₃, r₄, o, ho, fun q hq => List.mem_append.2 (.inr (hmem q hq))⟩

theorem iterate_ok {step : Walk} (hs : Keeps P step) {paths : List Path} {report report' : Report} {out : List Path}
    (hp : ∀ p ∈ paths, P p) (h : iterate step paths report = (.ok out, report')) : ∀ q ∈ out, P q := by
  intro q hq
  obtain ⟨p, hmem, r₁, r₂, o, ho, hqo⟩ := (iterate_spec h).1 q hq
  exact hs p r₁ o r₂ (hp p hmem) ho q hqo

theorem unroll_ok {step : Walk} (hs : Keeps P step) : ∀ {n : Nat} {paths : List Path} {report report' : Report}
    {out : List Path}, (∀ p ∈ paths, P p) → unroll step n paths report = (.ok out, report') → ∀ q ∈ out, P q
  | 0, _, _, _, _, hp, h, q, hq => by
    cases h
    exact hp q hq
  | n + 1, paths, report, _, _, hp, h, q, hq => by
    rw [unroll] at h
    obtain ⟨r, hr⟩ : ∃ r, iterate step paths report = r := ⟨_, rfl⟩
    rw [hr] at h
    obtain ⟨next, report₁⟩ := r
    cases next with
    | error f => cases h
    | ok next => exact unroll_ok hs (iterate_ok hs hp hr) h q hq

theorem mem_addNew {same : Path → Path → Bool} : ∀ {paths seen : List Path} {q : Path},
    q ∈ addNew same seen paths → q ∈ seen ∨ q ∈ paths
  | [], _, _, h => .inl h
  | p :: paths, seen, q, h => by
    have h : q ∈ addNew same (if seen.any (same p) then seen else seen ++ [p]) paths := h
    rcases mem_addNew h with h | h
    · split at h
      · exact .inl h
      · rcases List.mem_append.1 h with h | h
        · exact .inl h
        · exact .inr (List.mem_singleton.1 h ▸ List.mem_cons_self ..)
    · exact .inr (List.mem_cons_of_mem _ h)

/-- A search that succeeds goes through a round, after which it stops or goes on. -/
theorem settle_succ_ok {same : Path → Path → Bool} {unrolled : Nat → Report → Except Fault (List Path) × Report}
    {limit n : Nat} {seen found : List Path} {report report' : Report} {out : List Path}
    (h : settle same unrolled (limit + 1) n seen found report = (.ok out, report')) :
    ∃ paths report₁, unrolled (n + 1) report = (.ok paths, report₁) ∧
      ((addNew same seen paths).length = seen.length ∧ out = found ++ paths ∧ report' = report₁ ∨
        settle same unrolled limit (n + 1) (addNew same seen paths) (found ++ paths) report₁ = (.ok out, report')) := by
  rw [settle] at h
  generalize unrolled (n + 1) report = r at h
  obtain ⟨paths, report₁⟩ := r
  cases paths with
  | error f => cases h
  | ok paths =>
    refine ⟨paths, report₁, rfl, ?_⟩
    dsimp only at h
    split at h
    · rename_i hstop
      cases h
      exact .inl ⟨hstop, rfl, rfl⟩
    · exact .inr h

theorem settle_ok {same : Path → Path → Bool} {unrolled : Nat → Report → Except Fault (List Path) × Report}
    (hu : ∀ n report report' out, unrolled (n + 1) report = (.ok out, report') → ∀ q ∈ out, P q) :
    ∀ {limit n : Nat} {seen found : List Path} {report report' : Report} {out : List Path}, (∀ q ∈ found, P q) →
      settle same unrolled limit n seen found report = (.ok out, report') → ∀ q ∈ out, P q
  | 0, _, _, _, _, _, _, _, h => by cases h
  | limit + 1, n, seen, found, report, _, _, hf, h => by
    obtain ⟨paths, report₁, hr, hnext⟩ := settle_succ_ok h
    have hall : ∀ q ∈ found ++ paths, P q := List.forall_mem_append.2 ⟨hf, hu n report report₁ paths hr⟩
    rcases hnext with ⟨-, rfl, -⟩ | h
    · exact hall
    · exact settle_ok hu hall h

theorem mem_leaveLoop {paths : List Path} {q : Path} (h : q ∈ leaveLoop paths) :
    ∃ p ∈ paths, q = p.pop ∨ q = p.pop.pop := by
  unfold leaveLoop at h
  rcases List.mem_append.1 h with h | h
  · obtain ⟨p, hp, rfl⟩ := List.mem_map.1 (List.dropLast_subset _ h)
    exact ⟨p, hp, .inl rfl⟩
  · obtain ⟨r, hr, rfl⟩ := Option.map_eq_some_iff.1 (Option.mem_toList.1 h)
    obtain ⟨p, hp, rfl⟩ := List.mem_map.1 (List.mem_of_getLast? hr)
    exact ⟨p, hp, .inr rfl⟩

/-! ## The stacks that come out of a statement -/

/-- Every path that comes out of the analysis has a beginning of the stack with which it was entered. -/
def Shortening (a : Analysis) : Prop :=
  ∀ C paths report out, (∀ p ∈ paths, Shortens C p.control) → (a paths report).paths? = .ok out →
    ∀ q ∈ out, Shortens C q.control

theorem shortening_idle : Shortening Run.idle := by
  intro C paths report out hp h
  cases h
  exact hp

theorem Shortening.andThen {a b : Analysis} (ha : Shortening a) (hb : Shortening b) :
    Shortening fun paths report => (a paths report).andThen b := by
  intro C paths report out hp h
  have ha := ha C paths report
  dsimp only at h
  generalize a paths report = r at ha h
  obtain ⟨given, report', result⟩ := r
  cases result with
  | error f => cases h
  | ok new? =>
    cases new? with
    | none => exact hb C given report' out (ha given hp rfl) h
    | some new =>
      refine hb C new report' out (ha new hp rfl) ?_
      generalize hr : b new report' = r at h ⊢
      simp only [Run.andThen, hr] at h
      unfold Run.paths? at h ⊢
      generalize r.result = result' at h ⊢
      cases result' with
      | error f => cases h
      | ok new? => cases new? <;> exact h

theorem shortening_onEach {step : Eval Unit} (hs : ∀ C, Eval.Keeps C step) :
    Shortening (onEach step) := by
  intro C paths
  induction paths with
  | nil =>
    intro report out hp h
    cases h
    exact hp
  | cons p rest ih =>
    intro report out hp h
    rw [onEach] at h
    have hk := (hs p.control ⟨p, report⟩ rfl trivial).1
    generalize step.run ⟨p, report⟩ = r at h hk
    obtain ⟨result, w⟩ := r
    cases result with
    | error f => cases h
    | ok _ =>
      have ih := ih w.report
      dsimp only at h
      generalize onEach step rest w.report = r at h ih
      obtain ⟨given, report', result⟩ := r
      have hrest : ∀ p ∈ rest, Shortens C p.control := fun p hp' => hp p (List.mem_cons_of_mem _ hp')
      cases result with
      | error f => cases h
      | ok new? =>
        cases new? with
        | some new => exact ih out hrest h
        | none =>
          cases h
          intro q hq
          rcases List.mem_cons.1 hq with rfl | hq
          · rw [hk]
            exact hp p (List.mem_cons_self ..)
          · exact ih given hrest rfl q hq

/-- A path that went through a region that was entered and forked has left what was pushed. -/
theorem Shortening.fork {body : Analysis} (hb : Shortening body) {C : List Taint} {p p' : Path} {m : Taint}
    (hp : Shortens C p.control) (hm : p'.control = p.control ++ [m]) {report : Report} {out : List Path}
    (h : (body [p'.fork] report).paths? = .ok out) {q : Path} (hq : q ∈ out) : Shortens C q.pop.control := by
  have hfork : p'.fork.control = p.control.map (·.mapPatterns p'.keep) ++ [m.mapPatterns p'.keep] := by
    show p'.control.map _ = _
    rw [hm, List.map_append, List.map_singleton]
  have hout := hb _ _ _ _ (List.forall_mem_singleton.2 (.refl p'.fork.control)) h q hq
  rw [hfork] at hout
  exact hp.trans ((Shortens.keep p.control p').trans hout.pop_push)

theorem shortening_fork {enter : Eval Unit} {body orelse : Analysis} (he : Eval.Pushes enter)
    (hb : Shortening body) (ho : Shortening orelse) : ∀ {C : List Taint} (paths done new : List Path) (report : Report)
    (out : List Path), (∀ p ∈ paths, Shortens C p.control) → (∀ q ∈ new, Shortens C q.control) →
    (fork enter body orelse done new paths report).paths? = .ok out → ∀ q ∈ out, Shortens C q.control
  | C, [], _, _, _, _, _, hn, h => by
    cases h
    exact hn
  | C, p :: rest, done, new, report, out, hp, hn, h => by
    rw [Analysis.fork] at h
    have hpush := he ⟨{ p with scope := p.scope + 1 }, report⟩
    generalize enter.run ⟨{ p with scope := p.scope + 1 }, report⟩ = r at h hpush
    obtain ⟨result, w⟩ := r
    cases result with
    | error f => cases h
    | ok _ =>
      obtain ⟨m, hm⟩ := hpush w rfl
      dsimp only at h
      have hp' := hp p (List.mem_cons_self ..)
      cases hyes : (body [w.path.fork] w.report).paths? with
      | error f => rw [hyes] at h; cases h
      | ok yes =>
        rw [hyes] at h
        dsimp only at h
        cases hno : (orelse [w.path.fork] (body [w.path.fork] w.report).report).paths? with
        | error f => rw [hno] at h; cases h
        | ok no =>
          rw [hno] at h
          refine shortening_fork he hb ho rest _ _ _ out (fun p hp' => hp p (List.mem_cons_of_mem _ hp')) ?_ h
          intro q hq
          obtain ⟨q', hq', rfl⟩ := List.mem_map.1 hq
          show Shortens C q'.pop.control
          rcases List.mem_append.1 hq' with hq' | hq'
          · rcases List.mem_append.1 hq' with hq' | hq'
            -- what came from the paths before this one is left once more
            · exact (hn q' hq').pop
            · exact hb.fork hp' hm hyes hq'
          · exact ho.fork hp' hm hno hq'

theorem keeps_iteration {enter : Eval Unit} {body : Analysis} (he : Eval.Pushes enter) (hb : Shortening body)
    (C : List Taint) : Keeps (fun p => Shortens C p.control) (iteration enter body) := by
  intro p report out report' hp h
  unfold iteration at h
  have hpush := he ⟨p, report⟩
  generalize enter.run ⟨p, report⟩ = r at h hpush
  obtain ⟨result, w⟩ := r
  cases result with
  | error f => cases h
  | ok _ =>
    obtain ⟨m, hm⟩ := hpush w rfl
    have hbody := hb (p.control ++ [m]) [w.path] w.report
    have hw : ∀ p' ∈ [w.path], Shortens (p.control ++ [m]) p'.control := by
      rw [List.forall_mem_singleton, hm]
      exact .refl _
    dsimp only at h
    generalize body [w.path] w.report = r at h hbody
    obtain ⟨given, report₁, result⟩ := r
    cases result with
    | error f => cases h
    | ok new? =>
      -- where the body gives its paths back in place of new ones, they are left twice
      cases new? with
      | none =>
        cases h
        intro q hq
        obtain ⟨q', hq', rfl⟩ := List.mem_map.1 hq
        exact hp.trans (hbody given hw rfl q' hq').pop_push.pop
      | some new =>
        cases h
        intro q hq
        obtain ⟨q', hq', rfl⟩ := List.mem_map.1 hq
        exact hp.trans (hbody new hw rfl q' hq').pop_push

theorem rounds_ok {depth : Int} {enter : Eval Unit} {body : Analysis} (hs : Keeps P (iteration enter body))
    (hP : ∀ q, P q → P { q with scope := q.scope - depth }) {start : Path} {n : Nat} {report report' : Report}
    {out : List Path} (hp : P start) (h : rounds depth enter body start n report = (.ok out, report')) :
    ∀ q ∈ out, P q := by
  unfold rounds at h
  obtain ⟨r, hr⟩ : ∃ r, unroll (iteration enter body) n [start] report = r := ⟨_, rfl⟩
  rw [hr] at h
  obtain ⟨paths, report₁⟩ := r
  cases paths with
  | error f => cases h
  | ok paths =>
    cases h
    intro q hq
    obtain ⟨q', hq', rfl⟩ := List.mem_map.1 hq
    exact hP q' (unroll_ok hs (List.forall_mem_singleton.2 hp) hr q' hq')

/-- The paths after a number of iterations have a beginning of the stack of the entry. -/
theorem shortens_rounds {depth : Int} {enter : Eval Unit} {body : Analysis} (he : Eval.Pushes enter)
    (hb : Shortening body) {start : Path} {n : Nat} {report report' : Report} {out : List Path}
    (h : rounds depth enter body start n report = (.ok out, report')) :
    ∀ q ∈ out, Shortens start.control q.control :=
  rounds_ok (keeps_iteration he hb start.control) (fun _ h => h) (.refl _) h

theorem keeps_loopFrom {limit : Nat} {depth : Int} {enter : Eval Unit} {body orelse : Analysis}
    (he : Eval.Pushes enter) (hb : Shortening body) (ho : Shortening orelse) (C : List Taint) :
    Keeps (fun p => Shortens C p.control) (loopFrom limit depth enter body orelse) := by
  intro p report out report' hp h
  unfold loopFrom at h
  obtain ⟨r, hr⟩ : ∃ r, search limit depth enter body p report = r := ⟨_, rfl⟩
  rw [hr] at h
  obtain ⟨found, report₁⟩ := r
  cases found with
  | error f => cases h
  | ok found =>
    have hentry : Shortens C (entry depth p).control := hp.trans (.keep p.control p)
    have hfound : ∀ q ∈ found, Shortens C q.control :=
      settle_ok (fun n report report' out h q hq => hentry.trans (shortens_rounds he hb h q hq))
        (by intro q hq; cases hq) hr
    dsimp only at h
    cases hskip : (orelse [entry depth p] report₁).paths? with
    | error f => rw [hskip] at h; cases h
    | ok skipped =>
      rw [hskip] at h
      cases h
      intro q hq
      rcases List.mem_append.1 hq with hq | hq
      · exact hfound q hq
      · have hs := ho C _ _ _ (List.forall_mem_singleton.2 hentry) hskip
        obtain ⟨q', hq', rfl | rfl⟩ := mem_leaveLoop hq
        · exact (hs q' hq').pop
        · exact (hs q' hq').pop.pop

theorem shortening_loop {limit : Nat} {depth : Int} {enter : Eval Unit} {body orelse : Analysis}
    (he : Eval.Pushes enter) (hb : Shortening body) (ho : Shortening orelse) :
    Shortening (loop limit depth enter body orelse) := by
  intro C paths report out hp h
  unfold loop at h
  obtain ⟨r, hr⟩ : ∃ r, iterate (loopFrom limit depth enter body orelse) paths report = r := ⟨_, rfl⟩
  rw [hr] at h
  obtain ⟨new, report₁⟩ := r
  cases new with
  | error f => cases h
  | ok new =>
    cases h
    exact iterate_ok (keeps_loopFrom he hb ho C) hp hr

/-- Analyses made of steps that leave the stack alone and of regions that are entered with one label more. -/
inductive Regional : Analysis → Prop where
  | idle : Regional Run.idle
  | stop (fault : Fault) : Regional fun paths report => .stop paths report fault
  | onEach {step : Eval Unit} : (∀ C, Eval.Keeps C step) → Regional (onEach step)
  | andThen {a b : Analysis} : Regional a → Regional b → Regional fun paths report => (a paths report).andThen b
  | fork {enter : Eval Unit} {body orelse : Analysis} : Eval.Pushes enter → Regional body → Regional orelse →
    Regional (fork enter body orelse [] [])
  | loop {limit : Nat} {depth : Int} {enter : Eval Unit} {body orelse : Analysis} : Eval.Pushes enter →
    Regional body → Regional orelse → Regional (loop limit depth enter body orelse)

theorem Regional.shortening {a : Analysis} (h : Regional a) : Shortening a := by
  induction h with
  | idle => exact shortening_idle
  | stop fault =>
    intro C paths report out hp h
    cases h
  | onEach hs => exact shortening_onEach hs
  | andThen _ _ ha hb => exact ha.andThen hb
  | fork he _ _ hb ho =>
    exact fun C paths report out hp h => shortening_fork he hb ho paths [] [] report out hp (List.forall_mem_nil _) h
  | loop he _ _ hb ho => exact shortening_loop he hb ho

end Analysis

mutual

theorem Stmt.regional_analyse [SetOrder] (edition : Edition) (limit : Nat) : ∀ s : Stmt,
    Analysis.Regional (s.analyse edition limit)
  | .skip => by
    rw [Stmt.analyse.eq_def]
    exact .idle
  | .block body => by
    rw [Stmt.analyse.eq_def]
    exact Stmt.regional_analyseBlock edition limit body
  | .assign targets value spot => by
    rw [Stmt.analyse.eq_def]
    exact .onEach fun _ => (Eval.keeps_assign edition targets value spot).discard
  | .annotated target value spot => by
    rw [Stmt.analyse.eq_def]
    cases edition
    · exact .idle
    · exact .onEach fun _ =>
        (Eval.keeps_assign _ [target] value { line := spot.line }).discard
  | .augmented target current value spot => by
    rw [Stmt.analyse.eq_def]
    cases edition
    · exact .idle
    · exact .onEach fun _ =>
        (Eval.keeps_assign _ [target] (.binary current value) { line := spot.line }).discard
  | .eval value => by
    rw [Stmt.analyse.eq_def]
    exact .onEach fun _ => (Eval.keeps_evaluate edition value .value).discard
  | .branch test body orelse => by
    rw [Stmt.analyse.eq_def]
    exact .fork (Eval.pushes_enterTest edition test) (Stmt.regional_analyse edition limit body)
      (Stmt.regional_analyse edition limit orelse)
  | .loop test body orelse => by
    rw [Stmt.analyse.eq_def]
    exact .loop (Eval.pushes_enterTest edition test) (Stmt.regional_analyse edition limit body)
      (Stmt.regional_analyse edition limit orelse)
  | .each target iter body orelse spot => by
    rw [Stmt.analyse.eq_def]
    exact .loop (Eval.pushes_enterItem edition target iter _) (Stmt.regional_analyse edition limit body)
      (Stmt.regional_analyse edition limit orelse)
  | .fails fault => by
    rw [Stmt.analyse.eq_def]
    exact .stop fault

theorem Stmt.regional_analyseBlock [SetOrder] (edition : Edition) (limit : Nat) : ∀ body : List Stmt,
    Analysis.Regional (Stmt.analyseBlock edition limit body)
  | [] => by
    rw [Stmt.analyseBlock.eq_def]
    exact .idle
  | s :: rest => by
    rw [Stmt.analyseBlock.eq_def]
    exact .andThen (Stmt.regional_analyse edition limit s) (Stmt.regional_analyseBlock edition limit rest)

end

/-- Every statement gives back beginnings of the stack with which it was entered. -/
theorem Stmt.shortening_analyse [SetOrder] (edition : Edition) (limit : Nat) (s : Stmt) :
    Analysis.Shortening (s.analyse edition limit) :=
  (s.regional_analyse edition limit).shortening

end TaintFlow
