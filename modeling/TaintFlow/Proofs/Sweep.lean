import Mathlib.Logic.Relation
import TaintFlow.Proofs.Meeting

/-
Loops on both sides of a tilt. The search for the paths through a loop is a tour: when it stops, it has taken an
iteration from the entry and from a state like each state that it has found. Each round is unrolled anew, so
an iteration from the states of one round is taken in the next; and the states of the last round are like states
of earlier ones. Hence the searches of both sides meet, whatever the number of rounds they take, and from the
parts of statements the analyses of all statements meet.
-/
namespace TaintFlow

open Relation Analysis

theorem Analysis.unroll_succ_ok {step : Walk} {n : Nat} {paths out : List Path} {r r₁ : Report}
    (h : unroll step (n + 1) paths r = (.ok out, r₁)) :
    ∃ mid r₂, unroll step n paths r = (.ok mid, r₂) ∧ iterate step mid r₂ = (.ok out, r₁) := by
  rw [unroll_succ] at h
  generalize unroll step n paths r = x at h ⊢
  obtain ⟨mid, r₂⟩ := x
  cases mid with
  | error f => cases h
  | ok mid => exact ⟨mid, r₂, rfl, h⟩

/-- The step leads from one path to others, among them the second. -/
def Analysis.Next (step : Walk) (p q : Path) : Prop := ∃ out, Leads step p out ∧ q ∈ out

/-- A tour that has visited its start and all that it has found follows whatever is reached from a near start. -/
theorem Analysis.Tour.reaches {Near Like' : Path → Path → Prop} {Exempt : Subject → Prop} {step step' : Walk}
    {Source' : Path → Prop} {r' r₁' : Report} {found' : List Path} {start start' : Path}
    (hw : Follows Near Exempt step step')
    (tour' : Tour Like' step' (fun p => p = start' ∨ p ∈ found') Source' r' found' r₁')
    (hlike' : ∀ {p q q'}, Near p q → Like' q q' → Near p q') (hstart : Near start start') (p : Path)
    (h : ReflTransGen (Next step) start p) : ∃ v, (v = start' ∨ v ∈ found') ∧ Near p v := by
  induction h with
  | refl => exact ⟨start', .inl rfl, hstart⟩
  | tail _ hnext ih =>
    obtain ⟨v, hv, hnear⟩ := ih
    obtain ⟨out, hout, hmem⟩ := hnext
    obtain ⟨f, hf, hnear'⟩ := tour'.covers hw hlike' hv hnear hout _ hmem
    exact ⟨f, .inr hf, hnear'⟩

namespace Tilt

variable {t : Tilt} {p q : Path}

theorem Meets.unroll {walk walk' : Walk} (h : t.Meets t.Beside walk walk') :
    ∀ n, t.Meets t.Facing (unroll walk n) (unroll walk' n)
  | 0 => by
    intro paths paths' r r' out out' r₁ r₁' hfacing hrun hrun'
    cases hrun
    cases hrun'
    exact ⟨hfacing, told_refl _⟩
  | n + 1 => by
    intro paths paths' r r' out out' r₁ r₁' hfacing hrun hrun'
    rw [unroll_succ_eq_chain] at hrun hrun'
    obtain ⟨mid, r₂, hmid, hrun⟩ := chain_ok hrun
    obtain ⟨mid', r₂', hmid', hrun'⟩ := chain_ok hrun'
    obtain ⟨hfacing, htold⟩ := h.iterate hfacing hmid hmid'
    obtain ⟨hfacing, htold'⟩ := h.unroll n hfacing hrun hrun'
    exact ⟨hfacing, htold.trans htold'⟩

/-! ## The search as a tour -/

variable (policy : List Pattern) (walk : Walk) (start : Path) in
/-- What the first rounds of a search have done. -/
structure Swept (n : Nat) (r : Report) (found : List Path) (r₁ : Report) : Prop where
  keeps : r.Kept r₁
  rounds : ∀ i < n, ∃ ρ out ρ₁, unroll walk (i + 1) [start] ρ = (.ok out, ρ₁) ∧
    (∀ w ∈ out, ∃ f ∈ found, (even policy).Beside w f) ∧ ρ₁.Kept r₁
  origin : ∀ f ∈ found, ∃ i < n, ∃ out, Leads (unroll walk (i + 1)) [start] out ∧
    ∃ w ∈ out, (even policy).Beside w f
  news : ∀ s marks, r₁.Recorded s .explicit marks →
    r.Recorded s .explicit marks ∨ ∃ p, ReflTransGen (Next walk) start p ∧ News walk p s marks

section Sweep

variable {policy : List Pattern} {walk : Walk} (hw : (even policy).Meets (even policy).Beside walk walk)
  {start : Path} (hstart : (even policy).left.Tamed start)

include hw in
theorem tour_of_tamed {paths out : List Path} {r r₁ : Report} (hpaths : ∀ p ∈ paths, (even policy).left.Tamed p)
    (h : iterate walk paths r = (.ok out, r₁)) : Tour Eq walk (· ∈ paths) (· ∈ paths) r out r₁ :=
  tour_iterate (fun p hp _ _ _ ho => (hw (.refl (hpaths p hp)) ho ho).2.keeps) h

include hw hstart in
theorem tamed_unroll {n : Nat} {r r₁ : Report} {out : List Path} (h : unroll walk n [start] r = (.ok out, r₁)) :
    ∀ w ∈ out, (even policy).left.Tamed w := by
  intro w hmem
  obtain ⟨_, -, hbeside⟩ := (hw.unroll n (facing_singleton (.refl hstart)) h h).1.left w hmem
  exact hbeside.left

/-- The states of every round are reached step by step. -/
theorem reached_unroll : ∀ {n : Nat} {r r₁ : Report} {out : List Path},
    unroll walk n [start] r = (.ok out, r₁) → ∀ w ∈ out, ReflTransGen (Next walk) start w
  | 0, _, _, _, h => by
    cases h
    exact List.forall_mem_singleton.2 .refl
  | n + 1, r, r₁, out, h => by
    obtain ⟨mid, r₂, hmid, h⟩ := unroll_succ_ok h
    intro w hmem
    obtain ⟨p, hp, ρ, ρ₁, o, ho, hwo⟩ := (iterate_spec h).1 w hmem
    exact (reached_unroll hmid p hp).tail ⟨o, ⟨ρ, ρ₁, ho⟩, hwo⟩

include hw hstart in
theorem news_unroll : ∀ {n : Nat} {r r₁ : Report} {out : List Path}, unroll walk n [start] r = (.ok out, r₁) →
    ∀ s marks, r₁.Recorded s .explicit marks →
      r.Recorded s .explicit marks ∨ ∃ p, ReflTransGen (Next walk) start p ∧ News walk p s marks
  | 0, _, _, _, h => by
    cases h
    exact fun _ _ => .inl
  | n + 1, r, r₁, out, h => by
    obtain ⟨mid, r₂, hmid, h⟩ := unroll_succ_ok h
    have tour := tour_of_tamed hw (tamed_unroll hw hstart hmid) h
    intro s marks hrecorded
    rcases tour.news s marks hrecorded with hrecorded | ⟨p, hp, hnews⟩
    · exact news_unroll hmid s marks hrecorded
    · exact .inr ⟨p, reached_unroll hmid p hp, hnews⟩

theorem swept_nil (r : Report) : Swept policy walk start 0 r [] r where
  keeps := .refl r
  rounds i hi := absurd hi (Nat.not_lt_zero i)
  origin := List.forall_mem_nil _
  news _ _ h := .inl h

include hw hstart in
/-- One more round. -/
theorem Swept.next {n : Nat} {r r₁ r₂ : Report} {found out paths : List Path} (h : Swept policy walk start n r found r₁)
    (hround : unroll walk (n + 1) [start] r₁ = (.ok out, r₂)) (hpaths : List.Forall₂ Path.Remains out paths) :
    Swept policy walk start (n + 1) r (found ++ paths) r₂ := by
  have hkept : r₁.Kept r₂ := (hw.unroll (n + 1) (facing_singleton (.refl hstart)) hround hround).2.keeps
  have htamed := tamed_unroll hw hstart hround
  refine ⟨h.keeps.trans hkept, fun i hi => ?_, fun f hf => ?_, ?_⟩
  · rcases Nat.lt_succ_iff_lt_or_eq.1 hi with hi | rfl
    · obtain ⟨ρ, o, ρ₁, ho, hcover, hk⟩ := h.rounds i hi
      refine ⟨ρ, o, ρ₁, ho, fun w hmem => ?_, hk.trans hkept⟩
      obtain ⟨f, hf, hwf⟩ := hcover w hmem
      exact ⟨f, List.mem_append_left _ hf, hwf⟩
    · refine ⟨r₁, out, r₂, hround, fun w hmem => ?_, .refl r₂⟩
      obtain ⟨f, hf, hremains⟩ := Accord.forall₂_exists_right hpaths w hmem
      exact ⟨f, List.mem_append_right _ hf, (Beside.refl (htamed w hmem)).remains .same hremains⟩
  · rcases List.mem_append.1 hf with hf | hf
    · obtain ⟨i, hi, horigin⟩ := h.origin f hf
      exact ⟨i, by omega, horigin⟩
    · obtain ⟨w, hmem, hremains⟩ := Accord.forall₂_exists_right hpaths.flip f hf
      exact ⟨n, by omega, out, ⟨r₁, r₂, hround⟩, w, hmem, (Beside.refl (htamed w hmem)).remains .same hremains⟩
  · intro s marks hrecorded
    rcases news_unroll hw hstart hround s marks hrecorded with hrecorded | hnews
    · exact h.news s marks hrecorded
    · exact .inr hnews

include hw hstart in
/-- If all states come of rounds before the last one, an iteration was taken from a state like each of them. -/
theorem Swept.tour {n : Nat} {r r₁ : Report} {found : List Path} (h : Swept policy walk start (n + 1) r found r₁)
    (horigin : ∀ f ∈ found, ∃ i < n, ∃ out, Leads (unroll walk (i + 1)) [start] out ∧
      ∃ w ∈ out, (even policy).Beside w f) :
    Tour (even policy).Beside walk (fun p => p = start ∨ p ∈ found) (ReflTransGen (Next walk) start) r found r₁ := by
  -- from a state like one that any run reaches in round `i`, the next round has taken an iteration
  have htaken : ∀ i < n + 1, ∀ out, Leads (unroll walk i) [start] out → ∀ w ∈ out, ∀ p, (even policy).Beside w p →
      ∃ q ρ o ρ₁, (even policy).Beside p q ∧ walk q ρ = (.ok o, ρ₁) ∧
        (∀ w ∈ o, ∃ f ∈ found, (even policy).Beside w f) ∧ ρ₁.Kept r₁ := by
    rintro i hi out ⟨ρ, ρ₁, hout⟩ w hmem p hwp
    obtain ⟨ρ₂, out', ρ₃, hround, hcover, hkept⟩ := h.rounds i hi
    obtain ⟨mid, ρ₄, hmid, hround⟩ := unroll_succ_ok hround
    obtain ⟨q, hq, hwq⟩ := (hw.unroll i (facing_singleton (.refl hstart)) hout hmid).1.left w hmem
    have tour := tour_of_tamed hw (tamed_unroll hw hstart hmid) hround
    obtain ⟨_, ρ₅, o, ρ₆, rfl, ho, hin, hk⟩ := tour.taken q hq
    refine ⟨q, ρ₅, o, ρ₆, (Beside.refl hwp.left).transfer hwp hwq, ho, fun w hmem => ?_,
      hk.trans hkept⟩
    obtain ⟨_, hf, rfl⟩ := hin w hmem
    exact hcover w hf
  refine ⟨h.keeps, fun p hp => ?_, fun f hf => ?_, h.news⟩
  · rcases hp with rfl | hp
    · exact htaken 0 (by omega) [p] ⟨r, r, rfl⟩ p (List.mem_singleton_self p) p (.refl hstart)
    · obtain ⟨i, hi, out, hout, w, hmem, hwp⟩ := horigin p hp
      exact htaken (i + 1) (by omega) out hout w hmem p hwp
  · obtain ⟨i, -, out, ⟨ρ, ρ₁, hout⟩, w, hmem, hwf⟩ := h.origin f hf
    obtain ⟨mid, ρ₂, hmid, hout⟩ := unroll_succ_ok hout
    obtain ⟨p, hp, ρ₃, ρ₄, o, ho, hwo⟩ := (iterate_spec hout).1 w hmem
    exact ⟨p, reached_unroll hmid p hp, o, ⟨ρ₃, ρ₄, ho⟩, w, hwo, hwf⟩

end Sweep

section Loops

variable {depth : Int} {enter : Eval Unit} {body body' : Analysis}

/-- A search that stops is a tour. -/
theorem tour_of_settle {policy : List Pattern} {start : Path}
    (hw : (even policy).Meets (even policy).Beside (iteration enter body) (iteration enter body))
    (hstart : (even policy).left.Tamed start) {r : Report} :
    ∀ {limit n : Nat} {seen found found' : List Path} {r₁ r₂ : Report}, (∀ s ∈ seen, s ∈ found) →
      Swept policy (iteration enter body) start n r found r₁ →
      settle Path.same (rounds depth enter body start) limit n seen found r₁ = (.ok found', r₂) →
      Tour (even policy).Beside (iteration enter body) (fun p => p = start ∨ p ∈ found')
        (ReflTransGen (Next (iteration enter body)) start) r found' r₂
  | 0, _, _, _, _, _, _, _, _, h => by cases h
  | limit + 1, n, seen, found, found', r₁, r₂, hsub, hswept, h => by
    obtain ⟨paths, r₃, hround, h⟩ := settle_succ_ok h
    obtain ⟨out, hout, rfl⟩ := rounds_eq_ok.1 hround
    have hnext := hswept.next hw hstart hout (Path.remains_map (fun q => .rescope (q.scope - depth) .same) out)
    rcases h with ⟨hstop, rfl, rfl⟩ | h
    · -- the states of the last round are like states that were seen before
      refine hnext.tour hw hstart fun f hf => ?_
      obtain ⟨_, -, _, -, _, -, hlike⟩ := hnext.origin f hf
      rcases List.mem_append.1 hf with hf | hf
      · exact hswept.origin f hf
      · obtain ⟨s, hs, hsame⟩ := known_of_length_addNew hstop f hf
        obtain ⟨i, hi, o, ho, w, hmem, hws⟩ := hswept.origin s (hsub s hs)
        have hfs := beside_of_same hlike.right hws.right hsame
        exact ⟨i, hi, o, ho, w, hmem, hws.transfer (.refl hws.left) hfs.symm⟩
    · refine tour_of_settle hw hstart (fun s hs => ?_) hnext h
      exact List.mem_append.2 ((mem_addNew hs).imp_left (hsub s))

variable (hw : t.Meets t.Beside (iteration enter body) (iteration enter body'))
  (hleft : (even t.policy).Meets (even t.policy).Beside (iteration enter body) (iteration enter body))
  (hright : (even t.policy').Meets (even t.policy').Beside (iteration enter body') (iteration enter body'))

theorem Beside.entry (h : t.Beside p q) (depth : Int) : t.Beside (entry depth p) (entry depth q) :=
  h.fork.remains (.rescope (p.scope + depth) .same) (.rescope (q.scope + depth) .same)

include hw hleft hright in
theorem meets_search (limit limit' : Nat) :
    t.Meets t.Beside (search limit depth enter body) (search limit' depth enter body') := by
  intro p q r r' out out' r₁ r₁' hpq hp hq
  have hentry := hpq.entry depth
  have tour := tour_of_settle hleft hentry.left (List.forall_mem_nil _) (swept_nil r) hp
  have tour' := tour_of_settle hright hentry.right (List.forall_mem_nil _) (swept_nil r') hq
  have hlike : ∀ {p p' q}, t.Beside p q → (even t.policy).Beside p p' → t.Beside p' q :=
    fun hpq hp => hpq.transfer hp (.refl hpq.right)
  have hlike' : ∀ {p q q'}, t.Beside p q → (even t.policy').Beside q q' → t.Beside p q' :=
    fun hpq hq => hpq.transfer (.refl hpq.left) hq
  exact hw.tours tour tour' hlike hlike' (tour'.reaches hw.forward hlike' hentry)
    (tour.reaches hw.backward hlike hentry)

theorem remains_leaveLoop (paths : List Path) : List.Forall₂ Path.Remains paths (leaveLoop paths) := by
  unfold leaveLoop
  rcases List.eq_nil_or_concat paths with rfl | ⟨init, last, rfl⟩
  · exact .nil
  · simp only [List.concat_eq_append, List.map_append, List.map_cons, List.map_nil, List.dropLast_concat,
      List.getLast?_concat, Option.map_some, Option.toList_some]
    exact List.rel_append (Path.remains_map (fun _ => .pop .same) init) (.cons (.pop (.pop .same)) .nil)

end Loops

/-- Loops meet if their parts do so for every tilt that allows for the names: with other sides and with
themselves. -/
theorem Lawful.meets_loop (hb : t.Lawful) {names : List String} (hnames : ∀ x ∈ names, t.taught x) {enter : Eval Unit}
    (body : Nat → Analysis) (henter : ∀ {t : Tilt}, t.Lawful → (∀ x ∈ names, t.taught x) →
      ∀ σ, t.coupling.Runs σ Coupling.Any enter enter)
    (hbody : ∀ {t : Tilt} (limit limit' : Nat), t.Lawful → (∀ x ∈ names, t.taught x) →
      t.Meets t.Facing (body limit).outcome (body limit').outcome)
    {orelse orelse' : Analysis} (horelse : t.Meets t.Facing orelse.outcome orelse'.outcome) (depth : Int)
    (limit limit' : Nat) :
    t.Meets t.Facing (outcome (loop limit depth enter (body limit) orelse))
      (outcome (loop limit' depth enter (body limit') orelse')) := by
  have hself : ∀ policy limit, (even policy).Meets (even policy).Beside (iteration enter (body limit))
      (iteration enter (body limit)) := fun policy limit =>
    meets_iteration (henter (lawful_even policy) fun _ _ => trivial)
      (hbody limit limit (lawful_even policy) fun _ _ => trivial)
  have hsearch : t.Meets t.Beside (search limit depth enter (body limit)) (search limit' depth enter (body limit')) :=
    meets_search (meets_iteration (henter hb hnames) (hbody limit limit' hb hnames)) (hself t.policy limit)
      (hself t.policy' limit') limit limit'
  have hfrom : t.Meets t.Beside (loopFrom limit depth enter (body limit) orelse)
      (loopFrom limit' depth enter (body limit') orelse') := by
    intro p q r r' out out' r₁ r₁' hpq hp hq
    rw [loopFrom_eq_chain] at hp hq
    obtain ⟨found, r₂, hfound, hp⟩ := chain_ok hp
    obtain ⟨skipped, _, hskipped, hp⟩ := chain_ok hp
    obtain ⟨found', r₂', hfound', hq⟩ := chain_ok hq
    obtain ⟨skipped', _, hskipped', hq⟩ := chain_ok hq
    cases hp
    cases hq
    obtain ⟨hfacing, htold⟩ := hsearch hpq hfound hfound'
    obtain ⟨hfacing', htold'⟩ := horelse (facing_singleton (hpq.entry depth)) hskipped hskipped'
    have hleave := hfacing'.remains (remains_leaveLoop skipped) (remains_leaveLoop skipped')
    exact ⟨hfacing.append hleave, htold.trans htold'⟩
  intro paths paths' r r' out out' r₁ r₁' hfacing hrun hrun'
  rw [outcome_loop] at hrun hrun'
  exact hfrom.iterate hfacing hrun hrun'

end Tilt

/-! ## Statements -/

mutual

/-- The analyses of a statement meet, if the tilt allows for all that its tests read. -/
theorem Stmt.meets_analyse [SetOrder] : ∀ (s : Stmt) {t : Tilt} (limit limit' : Nat), t.Lawful →
    (∀ x ∈ s.tested, t.taught x) → t.Meets t.Facing (s.analyse .plain limit).outcome (s.analyse .plain limit').outcome
  | .skip, _, _, _, _, _ => Tilt.meets_idle
  | .block body, t, limit, limit', hb, ht => by
    rw [Stmt.analyse, Stmt.analyse]
    rw [Stmt.tested] at ht
    exact Stmt.meets_analyseBlock body limit limit' hb ht
  | .assign targets value spot, t, limit, limit', hb, _ => by
    rw [Stmt.analyse, Stmt.analyse]
    exact Tilt.meets_onEach fun σ => ((hb.stores fun _ => True).assigns (fun _ _ => trivial) σ).discard
  | .annotated _ _ _, _, _, _, _, _ => by
    rw [Stmt.analyse, Stmt.analyse]
    exact Tilt.meets_idle
  | .augmented _ _ _ _, _, _, _, _, _ => by
    rw [Stmt.analyse, Stmt.analyse]
    exact Tilt.meets_idle
  | .eval value, t, limit, limit', hb, _ => by
    rw [Stmt.analyse, Stmt.analyse]
    have hreads := (hb.stores fun _ => True).toReads
    exact Tilt.meets_onEach fun σ =>
      (hreads.evaluate value (fun _ _ => trivial) .value (fun hc => by cases hc) σ).discard
  | .branch test body orelse, t, limit, limit', hb, ht => by
    rw [Stmt.analyse, Stmt.analyse]
    rw [Stmt.tested, List.forall_mem_append, List.forall_mem_append] at ht
    have htest : ∀ x ∈ test.tested, t.coupling.Learns x := fun x hx => Tilt.learns (ht.1.1 x hx)
    exact Tilt.meets_fork ((hb.stores fun _ => True).enterTest (fun _ _ => trivial) htest)
      (Stmt.meets_analyse body limit limit' hb ht.1.2) (Stmt.meets_analyse orelse limit limit' hb ht.2)
  | .loop test body orelse, t, limit, limit', hb, ht => by
    rw [Stmt.analyse, Stmt.analyse]
    rw [Stmt.tested, List.forall_mem_append] at ht
    refine hb.meets_loop ht.1 (fun limit => body.analyse .plain limit) (fun hb ht => ?_) (fun limit limit' hb ht => ?_)
      (Stmt.meets_analyse orelse limit limit' hb ht.2) 0 limit limit'
    · refine (hb.stores fun _ => True).enterTest (fun _ _ => trivial) fun x hx => Tilt.learns (ht x ?_)
      exact List.mem_append_left _ hx
    · exact Stmt.meets_analyse body limit limit' hb fun x hx => ht x (List.mem_append_right _ hx)
  | .each target iter body orelse spot, t, limit, limit', hb, ht => by
    rw [Stmt.analyse, Stmt.analyse]
    rw [Stmt.tested, List.forall_mem_append] at ht
    exact hb.meets_loop ht.1 (fun limit => body.analyse .plain limit)
      (fun hb _ => (hb.stores fun _ => True).enterItem fun _ _ => trivial)
      (fun limit limit' hb ht => Stmt.meets_analyse body limit limit' hb ht)
      (Stmt.meets_analyse orelse limit limit' hb ht.2) 1 limit limit'
  | .fails fault, t, limit, limit', _, _ => by
    intro paths paths' r r' out out' r₁ r₁' _ hrun
    rw [Stmt.analyse] at hrun
    cases hrun

theorem Stmt.meets_analyseBlock [SetOrder] : ∀ (body : List Stmt) {t : Tilt} (limit limit' : Nat), t.Lawful →
    (∀ x ∈ Stmt.allTested body, t.taught x) →
    t.Meets t.Facing (outcome (Stmt.analyseBlock .plain limit body)) (outcome (Stmt.analyseBlock .plain limit' body))
  | [], _, _, _, _, _ => Tilt.meets_idle
  | s :: rest, t, limit, limit', hb, ht => by
    rw [Stmt.analyseBlock, Stmt.analyseBlock]
    rw [Stmt.allTested, List.forall_mem_append] at ht
    exact (Stmt.meets_analyse s limit limit' hb ht.1).andThen (Stmt.meets_analyseBlock rest limit limit' hb ht.2)

end

end TaintFlow
