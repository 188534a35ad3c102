import TaintFlow.Proofs.Nesting
import TaintFlow.Proofs.Region

/-
The height of the control stack. A path that comes out of a statement has a beginning of the stack of a path that went
in, so its stack is the one with which the statement was met exactly if it is as high. A region puts one level on the
stack. How many it takes off depends on the paths: a branch leaves its region once for each path that was given, on
all paths that came out so far, and a loop leaves it twice on some paths.

Whether the stack is restored can be read off a statement, where there is a stack to lose: the statement has no loop,
and each branch in it is met by one path. `Stmt.steady` is that test. A path that is too low once is not mended
later, since no statement makes a stack higher than it was.
-/
namespace TaintFlow

/-! ## Stacks with the same flows -/

/-- The stacks are equally high and have the same flows at each level. -/
def SameStack (C D : List Taint) : Prop := List.Forall₂ MultiLabel.SameFlows C D

section

variable {C D : List Taint} {p q : Path}

theorem MultiLabel.SameFlows.trans {a b c : Taint} (h : a.SameFlows b) (h' : b.SameFlows c) : a.SameFlows c := by
  intro name
  have hab := h name
  have hbc := h' name
  generalize a.entries.get? name = x at hab
  generalize b.entries.get? name = y at hab hbc
  generalize c.entries.get? name = z at hbc ⊢
  cases hab with
  | none => exact hbc
  | some hab =>
    cases hbc with
    | some hbc => exact .some fun s => (hab s).trans (hbc s)

theorem SameStack.trans {E : List Taint} (h : SameStack C D) (h' : SameStack D E) : SameStack C E := by
  unfold SameStack at h
  induction h generalizing E with
  | nil => exact h'
  | cons hm _ ih =>
    cases h' with
    | cons hm' h' => exact .cons (hm.trans hm') (ih h')

theorem SameStack.append {C' D' : List Taint} (h : SameStack C D) (h' : SameStack C' D') :
    SameStack (C ++ C') (D ++ D') :=
  List.rel_append h h'

theorem Shortens.length_le (h : Shortens C D) : D.length ≤ C.length := by
  obtain ⟨n, k, -, rfl⟩ := h
  simp

/-- A beginning is told by its height. -/
theorem Shortens.sameStack_take_iff (h : Shortens C D) {n : Nat} (hn : n ≤ C.length) :
    SameStack (C.take n) D ↔ D.length = n := by
  constructor
  · intro hsame
    have hlength := List.Forall₂.length_eq hsame
    rw [List.length_take] at hlength
    omega
  · rintro rfl
    obtain ⟨n, hsame⟩ := h.exists_sameFlows
    have hlength := hsame.length_eq
    rw [List.length_take] at hlength
    rw [← hlength, ← List.take_take, List.take_length]
    exact hsame

theorem Shortens.sameStack_iff (h : Shortens C D) : SameStack C D ↔ D.length = C.length := by
  have hiff := h.sameStack_take_iff (le_refl C.length)
  rwa [List.take_length] at hiff

/-- How many conditions are around the path. -/
def Path.height (p : Path) : Nat := p.control.length

theorem Path.height_pop (p : Path) : p.pop.height = p.height - 1 := List.length_dropLast

theorem Path.height_fork (p : Path) : p.fork.height = p.height := List.length_map _

theorem Path.control_pop_iterate (p : Path) : ∀ n, (Path.pop^[n] p).control = p.control.take (p.height - n)
  | 0 => List.take_length.symm
  | n + 1 => by
    rw [Function.iterate_succ_apply']
    show (Path.pop^[n] p).control.dropLast = _
    rw [p.control_pop_iterate n, List.dropLast_eq_take, List.length_take, List.take_take]
    congr 1
    unfold Path.height
    omega

theorem Eval.Pushes.height {enter : Eval Unit} (he : Eval.Pushes enter) (h : Leads enter.outcome p q) :
    q.height = p.height + 1 := by
  obtain ⟨m, hm⟩ := he.leads h
  unfold Path.height
  rw [hm, List.length_append, List.length_singleton]

theorem Shortens.leave_iterate (h : Shortens C p.control) : ∀ n, Shortens C (Analysis.leave^[n] p).control
  | 0 => h
  | n + 1 => by
    rw [Function.iterate_succ_apply']
    exact (h.leave_iterate n).pop

end

namespace Analysis

theorem height_leave_iterate (p : Path) : ∀ n, (leave^[n] p).height = p.height - n
  | 0 => rfl
  | n + 1 => by
    rw [Function.iterate_succ_apply']
    show (leave^[n] p).pop.height = _
    rw [Path.height_pop, height_leave_iterate p n]
    omega

theorem height_entry (depth : Int) (p : Path) : (entry depth p).height = p.height := p.height_fork

/-! ## Branches and loops, path by path -/

/-- Each list of paths leaves a region once more for each list after it. -/
def leaveLater : List (List Path) → List (List Path)
  | [] => []
  | part :: parts => part.map (leave^[parts.length]) :: leaveLater parts

/-- A branch leads each path to where it leads it alone, and what came out leaves again for each later path. -/
theorem leads_fork_each {enter : Eval Unit} {body orelse : Analysis} : ∀ {paths done new out : List Path},
    Leads (outcome (fork enter body orelse done new)) paths out →
      ∃ parts, List.Forall₂ (fun p part => Leads (outcome (fork enter body orelse [] [])) [p] part) paths parts ∧
        out = new.map (leave^[parts.length]) ++ (leaveLater parts).flatten
  | [], _, new, _, ⟨_, _, h⟩ => by
    cases h
    exact ⟨[], .nil, by simp [leaveLater]⟩
  | p :: rest, done, new, out, ⟨r, r', h⟩ => by
    rw [outcome_fork_cons] at h
    obtain ⟨q, r₁, hq, h⟩ := chain_ok h
    obtain ⟨yes, r₂, hyes, h⟩ := chain_ok h
    obtain ⟨no, r₃, hno, h⟩ := chain_ok h
    obtain ⟨parts, hparts, rfl⟩ := leads_fork_each ⟨r₃, r', h⟩
    have hpart : Leads (outcome (fork enter body orelse [] [])) [p] ((yes ++ no).map leave) := by
      refine ⟨r, r₃, ?_⟩
      rw [outcome_fork_cons, hq]
      show chain (body.outcome [q.fork] r₁) _ = _
      rw [hyes]
      show chain (orelse.outcome [q.fork] r₂) _ = _
      rw [hno]
      rfl
    refine ⟨(yes ++ no).map leave :: parts, .cons hpart hparts, ?_⟩
    simp only [leaveLater, List.flatten_cons, List.map_append, List.map_map, List.length_cons, List.append_assoc,
      Function.iterate_succ]

/-- From one path a branch goes through both of its parts one level higher, and leaves. -/
theorem leads_fork_alone {enter : Eval Unit} {body orelse : Analysis} (he : Eval.Pushes enter) {p : Path}
    {out : List Path} (h : Leads (outcome (fork enter body orelse [] [])) [p] out) :
    ∃ p' yes no, p'.height = p.height + 1 ∧ Leads body.outcome [p'] yes ∧ Leads orelse.outcome [p'] no ∧
      out = (yes ++ no).map leave := by
  obtain ⟨parts, hparts, rfl⟩ := leads_fork h
  cases hparts with
  | cons hpart hrest =>
    cases hrest
    obtain ⟨q, yes, no, henter, hyes, hno, rfl⟩ := hpart
    have hq := he.height henter
    exact ⟨q.fork, yes, no, q.height_fork.trans hq, hyes, hno, rfl⟩

theorem leads_loop_each {limit : Nat} {depth : Int} {enter : Eval Unit} {body orelse : Analysis}
    {paths out : List Path} (h : Leads (outcome (loop limit depth enter body orelse)) paths out) :
    ∃ parts, List.Forall₂ (fun p part => Leads (outcome (loop limit depth enter body orelse)) [p] part ∧
      Leads (loopFrom limit depth enter body orelse) p part) paths parts ∧ out = parts.flatten := by
  obtain ⟨parts, hparts, rfl⟩ := leads_loop h
  refine ⟨parts, hparts.imp fun p part hpart => ⟨?_, hpart⟩, rfl⟩
  obtain ⟨r, r', hpart⟩ := hpart
  refine ⟨r, r', ?_⟩
  rw [outcome_loop, iterate_cons, hpart]
  show (Except.ok (part ++ []), r') = _
  rw [List.append_nil]

/-- The last path that skips a loop leaves twice. -/
theorem leaveLoop_concat (init : List Path) (last : Path) :
    leaveLoop (init ++ [last]) = init.map (·.pop) ++ [last.pop.pop] := by
  unfold leaveLoop
  simp

/-! ## No path is lost, and none gets higher -/

/-- Each path leads to a path that is not higher. -/
def Descends (a : Analysis) : Prop :=
  ∀ paths out, Leads a.outcome paths out → ∀ p ∈ paths, ∃ q ∈ out, q.height ≤ p.height

theorem Descends.ne_nil {a : Analysis} (ha : Descends a) {p : Path} {out : List Path} (h : Leads a.outcome [p] out) :
    out ≠ [] := by
  obtain ⟨q, hq, -⟩ := ha [p] out h p (List.mem_singleton.2 rfl)
  exact List.ne_nil_of_mem hq

theorem Prunes.shortens {a : Analysis} (ha : Prunes a) {p q : Path} {out : List Path} (h : Leads a.outcome [p] out)
    (hq : q ∈ out) : Shortens p.control q.control := by
  obtain ⟨p', hp', hshort⟩ := ha [p] out h q hq
  rwa [List.mem_singleton.1 hp'] at hshort

theorem Prunes.height_le {a : Analysis} (ha : Prunes a) {p q : Path} {out : List Path} (h : Leads a.outcome [p] out)
    (hq : q ∈ out) : q.height ≤ p.height :=
  (ha.shortens h hq).length_le

theorem height_onEach {step : Eval Unit} (hs : ∀ C, Eval.Keeps C step) {p q : Path}
    (h : Leads step.outcome p q) : q.height = p.height := by
  obtain ⟨r, w, hrun, rfl⟩ := Eval.leads_outcome h
  have hcontrol := (hs p.control ⟨p, r⟩ rfl trivial).1
  rw [hrun] at hcontrol
  unfold Path.height
  rw [hcontrol]

/-- What comes out for one path stays in the result, though it may leave a few times more. -/
theorem exists_leaveLater {R : Path → List Path → Prop} {paths : List Path} {parts : List (List Path)}
    (h : List.Forall₂ R paths parts) {p : Path} (hp : p ∈ paths) :
    ∃ part n, R p part ∧ ∀ q ∈ part, leave^[n] q ∈ (leaveLater parts).flatten := by
  induction h with
  | nil => cases hp
  | @cons p' part rest parts hpart _ ih =>
    rw [leaveLater, List.flatten_cons]
    rcases List.mem_cons.1 hp with rfl | hp
    · exact ⟨part, parts.length, hpart, fun q hq => List.mem_append_left _ (List.mem_map_of_mem hq)⟩
    · obtain ⟨part', n, hpart', hmem⟩ := ih hp
      exact ⟨part', n, hpart', fun q hq => List.mem_append_right _ (hmem q hq)⟩

theorem descends_fork {enter : Eval Unit} {body orelse : Analysis} (he : Eval.Pushes enter) (hb : Descends body) :
    Descends (fork enter body orelse [] []) := by
  intro paths out h p hp
  obtain ⟨parts, hparts, rfl⟩ := leads_fork_each h
  obtain ⟨part, n, hpart, hmem⟩ := exists_leaveLater hparts hp
  obtain ⟨p', yes, no, hp', hyes, -, rfl⟩ := leads_fork_alone he hpart
  obtain ⟨q, hq, hle⟩ := hb [p'] yes hyes p' (List.mem_singleton.2 rfl)
  refine ⟨_, hmem _ (List.mem_map_of_mem (List.mem_append_left no hq)), ?_⟩
  rw [height_leave_iterate]
  show q.pop.height - n ≤ p.height
  rw [Path.height_pop]
  omega

/-- The path that skips a loop loses two levels. -/
theorem exists_skipped {limit : Nat} {depth : Int} {enter : Eval Unit} {body orelse : Analysis} (ho : Descends orelse)
    (hp : Prunes orelse) {p : Path} {out : List Path} (h : Leads (loopFrom limit depth enter body orelse) p out) :
    ∃ q ∈ out, q.height ≤ p.height - 2 := by
  obtain ⟨found, skipped, -, hskipped, rfl⟩ := leads_loopFrom h
  rcases List.eq_nil_or_concat' skipped with rfl | ⟨init, last, rfl⟩
  · exact absurd rfl (ho.ne_nil hskipped)
  · refine ⟨last.pop.pop, ?_, ?_⟩
    · rw [leaveLoop_concat]
      simp
    · have hle : last.height ≤ (entry depth p).height := hp.height_le hskipped (by simp)
      rw [height_entry] at hle
      rw [Path.height_pop, Path.height_pop]
      omega

theorem descends_loop {limit : Nat} {depth : Int} {enter : Eval Unit} {body orelse : Analysis} (ho : Descends orelse)
    (hp : Prunes orelse) : Descends (loop limit depth enter body orelse) := by
  intro paths out h p hmem
  obtain ⟨parts, hparts, rfl⟩ := leads_loop h
  obtain ⟨part, hpart, hfrom⟩ := forall₂_mem_right (List.Forall₂.flip hparts) p hmem
  obtain ⟨q, hq, hle⟩ := exists_skipped ho hp hfrom
  exact ⟨q, List.mem_flatten.2 ⟨part, hpart, hq⟩, by omega⟩

theorem Regional.descends {a : Analysis} (h : Regional a) : Descends a := by
  induction h with
  | idle =>
    intro paths out h p hp
    rw [leads_idle h]
    exact ⟨p, hp, le_rfl⟩
  | stop fault => exact fun paths out h => absurd h not_leads_stop
  | onEach hs =>
    intro paths out h p hp
    obtain ⟨q, hq, hstep⟩ := forall₂_mem_right (List.Forall₂.flip (leads_onEach h)) p hp
    exact ⟨q, hq, (height_onEach hs hstep).le⟩
  | andThen _ _ ha hb =>
    intro paths out h p hp
    obtain ⟨mid, hmid, hout⟩ := leads_andThen h
    obtain ⟨p', hp', hle⟩ := ha paths mid hmid p hp
    obtain ⟨q, hq, hle'⟩ := hb mid out hout p' hp'
    exact ⟨q, hq, hle'.trans hle⟩
  | fork he _ _ hb _ => exact descends_fork he hb
  | loop _ _ ho _ hdesc => exact descends_loop hdesc ho.prunes

/-! ## Where heights are restored -/

/-- Paths that are all `k` conditions high, one or more, lead to paths of that height only exactly if `steady` holds of
whether one path is given. -/
def Steadies (steady : Bool → Bool) (a : Analysis) : Prop :=
  ∀ k paths out, 0 < k → paths ≠ [] → (∀ p ∈ paths, p.height = k) → Leads a.outcome paths out →
    ((∀ q ∈ out, q.height = k) ↔ steady (paths.length = 1) = true)

theorem steadies_idle : Steadies (fun _ => true) Run.idle := by
  intro k paths out _ _ hp h
  rw [leads_idle h]
  exact iff_of_true hp rfl

theorem steadies_onEach {step : Eval Unit} (hs : ∀ C, Eval.Keeps C step) :
    Steadies (fun _ => true) (onEach step) := by
  intro k paths out _ _ hp h
  refine iff_of_true (fun q hq => ?_) rfl
  obtain ⟨p, hmem, hstep⟩ := forall₂_mem_right (leads_onEach h) q hq
  rw [height_onEach hs hstep, hp p hmem]

theorem Steadies.andThen {forks : Bool} {level steady steady' : Bool → Bool} {a b : Analysis} (ha : Steadies steady a)
    (hra : Regional a) (ht : Treats forks level a) (hb : Steadies steady' b) (hrb : Regional b) :
    Steadies (fun alone => steady alone && steady' (alone && !forks))
      fun paths report => (a paths report).andThen b := by
  intro k paths out hk hne hp h
  obtain ⟨mid, hmid, hout⟩ := leads_andThen h
  have hne' : mid ≠ [] := by
    obtain ⟨p, hmem⟩ := List.exists_mem_of_ne_nil _ hne
    obtain ⟨q, hq, -⟩ := hra.descends paths mid hmid p hmem
    exact List.ne_nil_of_mem hq
  have halone : decide (mid.length = 1) = (decide (paths.length = 1) && !forks) := by
    have halone := (ht paths mid hmid).alone
    rw [List.length_map, List.length_map] at halone
    rw [Bool.eq_iff_iff]
    simpa using halone
  rw [Bool.and_eq_true, ← halone, ← ha k paths mid hk hne hp hmid]
  constructor
  · intro hall
    -- a path in the middle that is too low would lead to one that is too low
    have hall' : ∀ m ∈ mid, m.height = k := by
      intro m hm
      obtain ⟨p, hmem, hshort⟩ := hra.prunes paths mid hmid m hm
      obtain ⟨q, hq, hle⟩ := hrb.descends mid out hout m hm
      have hle' : m.height ≤ p.height := hshort.length_le
      rw [hp p hmem] at hle'
      rw [hall q hq] at hle
      exact le_antisymm hle' hle
    exact ⟨hall', (hb k mid out hk hne' hall' hout).1 hall⟩
  · rintro ⟨hall, hsteady⟩
    exact (hb k mid out hk hne' hall hout).2 hsteady

theorem steadies_fork {enter : Eval Unit} {steady steady' : Bool → Bool} {body orelse : Analysis}
    (he : Eval.Pushes enter) (hb : Steadies steady body) (hrb : Regional body) (ho : Steadies steady' orelse)
    (hro : Regional orelse) :
    Steadies (fun alone => alone && (steady true && steady' true)) (fork enter body orelse [] []) := by
  intro k paths out hk hne hp h
  obtain ⟨parts, hparts, rfl⟩ := leads_fork_each h
  cases hparts with
  | nil => exact absurd rfl hne
  | @cons p part rest parts hpart hrest =>
    have hpk := hp p (List.mem_cons_self ..)
    cases hrest with
    | nil =>
      obtain ⟨p', yes, no, hp', hyes, hno, rfl⟩ := leads_fork_alone he hpart
      rw [hpk] at hp'
      have hyes := hb (k + 1) [p'] yes k.succ_pos (by simp) (by simpa using hp') hyes
      have hno := ho (k + 1) [p'] no k.succ_pos (by simp) (by simpa using hp') hno
      have hleave : ∀ q : Path, (leave q).height = k ↔ q.height = k + 1 := by
        intro q
        show q.pop.height = k ↔ _
        rw [Path.height_pop]
        omega
      simp only [leaveLater, List.map_nil, List.nil_append, List.flatten_cons, List.flatten_nil, List.append_nil,
        List.length_nil, Function.iterate_zero, List.map_id, List.forall_mem_map, List.forall_mem_append, hleave, hyes,
        hno]
      simp
    | @cons p₂ part₂ rest parts hpart₂ hrest =>
      -- what came out for the first path leaves once more for the second
      refine iff_of_false (fun hall => ?_) (by simp)
      obtain ⟨q, hq, hle⟩ := (Regional.fork he hrb hro).descends [p] part hpart p (List.mem_singleton.2 rfl)
      have hmem : leave^[(part₂ :: parts).length] q ∈
          List.map (leave^[(part :: part₂ :: parts).length]) [] ++ (leaveLater (part :: part₂ :: parts)).flatten := by
        rw [leaveLater, List.flatten_cons]
        exact List.mem_append_right _ (List.mem_append_left _ (List.mem_map_of_mem hq))
      have hheight := hall _ hmem
      rw [height_leave_iterate, List.length_cons] at hheight
      omega

theorem steadies_loop {limit : Nat} {depth : Int} {enter : Eval Unit} {body orelse : Analysis} (ho : Regional orelse) :
    Steadies (fun _ => false) (loop limit depth enter body orelse) := by
  intro k paths out hk hne hp h
  refine iff_of_false (fun hall => ?_) Bool.false_ne_true
  obtain ⟨p, hmem⟩ := List.exists_mem_of_ne_nil _ hne
  obtain ⟨parts, hparts, rfl⟩ := leads_loop h
  obtain ⟨part, hpart, hfrom⟩ := forall₂_mem_right (List.Forall₂.flip hparts) p hmem
  obtain ⟨q, hq, hle⟩ := exists_skipped ho.descends ho.prunes hfrom
  have hheight := hall q (List.mem_flatten.2 ⟨part, hpart, hq⟩)
  rw [hp p hmem] at hle
  omega

end Analysis

/-! ## Statements -/

mutual

/-- The statement has no loop, and each of its branches is met by one path. The statement itself is met by one path if
it is `alone`. -/
def Stmt.steady : Stmt → (alone : Bool) → Bool
  | .block body, alone => Stmt.allSteady body alone
  | .branch _ body orelse, alone => alone && (body.steady true && orelse.steady true)
  | .loop _ _ _, _ => false
  | .each _ _ _ _ _, _ => false
  | _, _ => true

def Stmt.allSteady : List Stmt → (alone : Bool) → Bool
  | [], _ => true
  | s :: rest, alone => s.steady alone && Stmt.allSteady rest (alone && !s.forks)

end

open Analysis

mutual

theorem Stmt.steadies_analyse [SetOrder] (edition : Edition) (limit : Nat) : ∀ s : Stmt,
    Steadies s.steady (s.analyse edition limit)
  | .skip => by
    rw [Stmt.analyse.eq_def]
    exact steadies_idle
  | .block body => by
    rw [Stmt.analyse.eq_def]
    exact Stmt.steadies_analyseBlock edition limit body
  | .assign targets value spot => by
    rw [Stmt.analyse.eq_def]
    exact steadies_onEach fun _ => (Eval.keeps_assign edition targets value spot).discard
  | .annotated target value spot => by
    rw [Stmt.analyse.eq_def]
    cases edition
    · exact steadies_idle
    · exact steadies_onEach fun _ =>
        (Eval.keeps_assign _ [target] value { line := spot.line }).discard
  | .augmented target current value spot => by
    rw [Stmt.analyse.eq_def]
    cases edition
    · exact steadies_idle
    · exact steadies_onEach fun _ =>
        (Eval.keeps_assign _ [target] (.binary current value) { line := spot.line }).discard
  | .eval value => by
    rw [Stmt.analyse.eq_def]
    exact steadies_onEach fun _ => (Eval.keeps_evaluate edition value .value).discard
  | .branch test body orelse => by
    rw [Stmt.analyse.eq_def]
    exact steadies_fork (Eval.pushes_enterTest edition test) (Stmt.steadies_analyse edition limit body)
      (body.regional_analyse edition limit) (Stmt.steadies_analyse edition limit orelse)
      (orelse.regional_analyse edition limit)
  | .loop test body orelse => by
    rw [Stmt.analyse.eq_def]
    exact steadies_loop (orelse.regional_analyse edition limit)
  | .each target iter body orelse spot => by
    rw [Stmt.analyse.eq_def]
    exact steadies_loop (orelse.regional_analyse edition limit)
  | .fails fault => by
    rw [Stmt.analyse.eq_def]
    exact fun k paths out _ _ _ h => absurd h not_leads_stop

theorem Stmt.steadies_analyseBlock [SetOrder] (edition : Edition) (limit : Nat) : ∀ body : List Stmt,
    Steadies (Stmt.allSteady body) (Stmt.analyseBlock edition limit body)
  | [] => by
    rw [Stmt.analyseBlock.eq_def]
    exact steadies_idle
  | s :: rest => by
    rw [Stmt.analyseBlock.eq_def]
    exact (Stmt.steadies_analyse edition limit s).andThen (s.regional_analyse edition limit)
      (s.treats_analyse edition limit) (Stmt.steadies_analyseBlock edition limit rest)
      (Stmt.regional_analyseBlock edition limit rest)

end

end TaintFlow
