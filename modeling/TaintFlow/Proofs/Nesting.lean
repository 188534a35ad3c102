import TaintFlow.Proofs.Custody
import TaintFlow.Proofs.Lineage
import TaintFlow.Proofs.Reached

/-
Nesting levels. A branch and an iteration raise the level of the paths that enter their region. A branch lowers it
again on all paths that came out so far, once for each path that was given: only the paths of the last given path
are back at their level. An iteration lowers it on the paths of its rounds, but not on the path that skips it.

So whether levels are restored can be read off a statement: it has no iteration, and every branch in it is met by one
path, which is so if no statement before it in its block forks. `Stmt.level` is that test. It is exact. A statement
that passes gives each path that comes out the level of the path it comes from; one that does not pass
takes paths of one level to paths not all of that level.

The proofs look at the levels alone, as lists of numbers. The invariant is that a list begins at or below a level and
ends at or above it: what comes out too low comes out first, what comes out too high comes out last, and
no later statement mends it.
-/
namespace TaintFlow

/-! ## Lists of levels -/

/-- The second list has the members of the first, in order, each once or more often. -/
inductive Stutters : List Int → List Int → Prop where
  | nil : Stutters [] []
  | once {x : Int} {xs ys : List Int} : Stutters xs ys → Stutters (x :: xs) (x :: ys)
  | again {x : Int} {xs ys : List Int} : Stutters (x :: xs) ys → Stutters (x :: xs) (x :: ys)

namespace Stutters

variable {xs ys zs : List Int} {x : Int}

theorem refl : ∀ xs : List Int, Stutters xs xs
  | [] => .nil
  | _ :: xs => .once (refl xs)

theorem trans (h : Stutters xs ys) (h' : Stutters ys zs) : Stutters xs zs := by
  induction h' generalizing xs with
  | nil => exact h
  | once _ ih =>
    cases h with
    | once h => exact .once (ih h)
    | again h => exact .again (ih h)
  | again _ ih =>
    -- the list in the middle begins with the repeated member, and so does `xs`
    have hall := ih h
    cases h with
    | once _ => exact .again hall
    | again _ => exact .again hall

/-- A list of copies of `x` and a list that stutters. -/
theorem prepend (h : Stutters xs ys) : ∀ {part : List Int}, part ≠ [] → (∀ y ∈ part, y = x) →
    Stutters (x :: xs) (part ++ ys)
  | [], hne, _ => absurd rfl hne
  | [y], _, hx => by
    rw [hx y (List.mem_singleton.2 rfl)]
    exact .once h
  | y :: z :: part, _, hx => by
    rw [List.forall_mem_cons] at hx
    rw [hx.1]
    exact .again (prepend h (List.cons_ne_nil z part) hx.2)

theorem mem (h : Stutters xs ys) : ∀ y ∈ ys, y ∈ xs := by
  induction h with
  | nil => exact List.forall_mem_nil _
  | once _ ih =>
    refine List.forall_mem_cons.2 ⟨List.mem_cons_self .., fun y hy => ?_⟩
    exact List.mem_cons_of_mem _ (ih y hy)
  | again _ ih => exact List.forall_mem_cons.2 ⟨List.mem_cons_self .., ih⟩

end Stutters

/-- The list begins at or below the level, and ends at or above it. -/
structure Spans (k : Int) (l : List Int) : Prop where
  first : ∃ x ∈ l.head?, x ≤ k
  last : ∃ x ∈ l.getLast?, k ≤ x

namespace Spans

variable {j k : Int} {l m : List Int}

theorem ne_nil (h : Spans k l) : l ≠ [] := by
  rintro rfl
  obtain ⟨x, hx, -⟩ := h.first
  cases hx

theorem of_forall (hne : l ≠ []) (h : ∀ x ∈ l, x = k) : Spans k l := by
  refine ⟨⟨l.head hne, List.head_mem_head? hne, ?_⟩, l.getLast hne, List.getLast?_eq_some_getLast hne, ?_⟩
  · rw [h _ (List.head_mem hne)]
  · rw [h _ (List.getLast_mem hne)]

theorem singleton (k : Int) : Spans k [k] := of_forall (List.cons_ne_nil k []) (List.forall_mem_singleton.2 rfl)

theorem append (hl : Spans k l) (hm : Spans j m) (hkj : k ≤ j) : Spans k (l ++ m) := by
  obtain ⟨x, hx, hxk⟩ := hl.first
  obtain ⟨y, hy, hjy⟩ := hm.last
  refine ⟨⟨x, ?_, hxk⟩, y, ?_, le_trans hkj hjy⟩
  · rw [List.head?_append, Option.mem_def.1 hx]
    rfl
  · rw [List.getLast?_append, Option.mem_def.1 hy]
    rfl

theorem lower (h : Spans k l) (d : Int) : Spans (k - d) (l.map (· - d)) := by
  obtain ⟨x, hx, hxk⟩ := h.first
  obtain ⟨y, hy, hky⟩ := h.last
  refine ⟨⟨x - d, ?_, by omega⟩, y - d, ?_, by omega⟩
  · rw [List.head?_map, Option.mem_def.1 hx]
    rfl
  · rw [List.getLast?_map, Option.mem_def.1 hy]
    rfl

/-- A list of copies spans no other level. -/
theorem eq_of_forall (h : Spans k l) (hl : ∀ x ∈ l, x = j) : k = j := by
  obtain ⟨x, hx, hxk⟩ := h.first
  obtain ⟨y, hy, hky⟩ := h.last
  have hx := hl x (List.mem_of_head? hx)
  have hy := hl y (List.mem_of_getLast? hy)
  omega

/-- Each member is replaced by a list that spans it. -/
theorem flatten {parts : List (List Int)} (hparts : List.Forall₂ Spans l parts) (h : Spans k l) :
    Spans k parts.flatten := by
  obtain ⟨x, hx, hxk⟩ := h.first
  refine ⟨?_, ?_⟩
  · cases hparts with
    | nil => cases hx
    | cons hpart _ =>
      cases hx
      obtain ⟨y, hy, hyx⟩ := hpart.first
      refine ⟨y, ?_, le_trans hyx hxk⟩
      rw [List.flatten_cons, List.head?_append, Option.mem_def.1 hy]
      rfl
  · -- the last part decides
    obtain ⟨z, hz, hkz⟩ := h.last
    clear h hx
    induction hparts with
    | nil => cases hz
    | @cons x part l parts hpart hparts ih =>
      rw [List.flatten_cons, List.getLast?_append]
      cases l with
      | nil =>
        cases hparts
        cases hz
        obtain ⟨y, hy, hzy⟩ := hpart.last
        refine ⟨y, ?_, le_trans hkz hzy⟩
        rw [Option.mem_def.1 hy]
        rfl
      | cons x' l =>
        rw [List.getLast?_cons_cons] at hz
        obtain ⟨y, hy, hky⟩ := ih hz
        refine ⟨y, ?_, hky⟩
        rw [Option.mem_def.1 hy]
        rfl

end Spans

/-! ## How statements treat levels -/

/-- The list spans the level, and `level` tells whether all of it is at the level. -/
structure Around (level : Bool) (x : Int) (l : List Int) : Prop where
  spans : Spans x l
  exact : (∀ y ∈ l, y = x) ↔ level = true

/-- How a statement takes paths of levels `xs` to paths of levels `ys`: it `forks` or leads each path to one, and it
restores levels if `level` holds of whether it is given one path. -/
structure Relevels (forks : Bool) (level : Bool → Bool) (xs ys : List Int) : Prop where
  alone : ys.length = 1 ↔ xs.length = 1 ∧ forks = false
  spans : ∀ {k}, Spans k xs → Spans k ys
  exact : ∀ {k}, Spans k xs → (∀ y ∈ ys, y = k) → (∀ x ∈ xs, x = k) ∧ level (xs.length = 1) = true
  stutters : level (xs.length = 1) = true → Stutters xs ys

section

variable {forks forks' c c' : Bool} {level level' : Bool → Bool} {xs ys zs : List Int} {x d : Int}

theorem Around.append {l m : List Int} (hl : Around c x l) (hm : Around c' (x + d) m) (hd : 0 ≤ d) :
    Around (c && c' && decide (d = 0)) x (l ++ m) := by
  refine ⟨hl.spans.append hm.spans (by omega), ?_⟩
  rw [List.forall_mem_append, Bool.and_eq_true, Bool.and_eq_true, decide_eq_true_eq, ← hl.exact, ← hm.exact]
  constructor
  · rintro ⟨hx, hy⟩
    -- the second list spans `x + d`, so it is not all at `x` unless they are the same
    have hd : x + d = x := hm.spans.eq_of_forall hy
    exact ⟨⟨hx, fun y hmem => (hy y hmem).trans hd.symm⟩, by omega⟩
  · rintro ⟨⟨hx, hy⟩, rfl⟩
    exact ⟨hx, fun y hmem => (hy y hmem).trans (Int.add_zero x)⟩

theorem Around.lower {l : List Int} (h : Around c x l) (d : Int) : Around c (x - d) (l.map (· - d)) := by
  refine ⟨h.spans.lower d, ?_⟩
  rw [← h.exact, List.forall_mem_map]
  constructor <;> intro hall y hy <;> have := hall y hy <;> omega

/-- More lists that span the level change nothing if they are at the level whenever the first list is. -/
theorem Around.append_flatten : ∀ {more : List (List Int)} {l : List Int}, Around c x l →
    (∀ m ∈ more, Spans x m ∧ (c = true → ∀ y ∈ m, y = x)) → Around c x (l ++ more.flatten)
  | [], l, h, _ => by simpa using h
  | m :: more, l, h, hmore => by
    rw [List.forall_mem_cons] at hmore
    obtain ⟨⟨hspans, hflat⟩, hmore⟩ := hmore
    have hboth : Around c x (l ++ m) := by
      refine ⟨h.spans.append hspans le_rfl, fun hall => h.exact.1 (List.forall_mem_append.1 hall).1, fun hc => ?_⟩
      exact List.forall_mem_append.2 ⟨h.exact.2 hc, hflat hc⟩
    rw [List.flatten_cons, ← List.append_assoc]
    exact hboth.append_flatten hmore

theorem Relevels.around (h : Relevels forks level [x] ys) : Around (level true) x ys := by
  refine ⟨h.spans (.singleton x), fun hall => (h.exact (.singleton x) hall).2, fun hl y hy => ?_⟩
  exact List.mem_singleton.1 ((h.stutters hl).mem y hy)

theorem relevels_same (xs : List Int) : Relevels false (fun _ => true) xs xs where
  alone := by simp
  spans h := h
  exact _ hall := ⟨hall, rfl⟩
  stutters _ := .refl xs

theorem Relevels.trans (h : Relevels forks level xs ys) (h' : Relevels forks' level' ys zs) :
    Relevels (forks || forks') (fun alone => level alone && level' (alone && !forks)) xs zs := by
  have halone : decide (ys.length = 1) = (decide (xs.length = 1) && !forks) := by
    rw [Bool.eq_iff_iff]
    simp [h.alone]
  refine ⟨?_, fun hk => h'.spans (h.spans hk), fun hk hall => ?_, fun hl => ?_⟩
  · rw [h'.alone, h.alone, and_assoc, Bool.or_eq_false_iff]
  · obtain ⟨hys, hl'⟩ := h'.exact (h.spans hk) hall
    obtain ⟨hxs, hl⟩ := h.exact hk hys
    rw [halone] at hl'
    exact ⟨hxs, Bool.and_eq_true_iff.2 ⟨hl, hl'⟩⟩
  · rw [Bool.and_eq_true, ← halone] at hl
    exact (h.stutters hl.1).trans (h'.stutters hl.2)

/-! ## Loops -/

/-- Each path is led to several paths around its level. -/
theorem relevels_flatten {parts : List (List Int)}
    (h : List.Forall₂ (fun x part => Around c x part ∧ 2 ≤ part.length) xs parts) :
    Relevels true (fun _ => c) xs parts.flatten := by
  have hspans : List.Forall₂ Spans xs parts := h.imp fun _ _ hpart => hpart.1.spans
  refine ⟨?_, fun hk => hk.flatten hspans, fun {k} hk hall => ?_, fun hc => ?_⟩
  · cases h with
    | nil => simp
    | cons hpart _ =>
      rw [List.flatten_cons, List.length_append]
      simp only [Bool.true_eq_false, and_false, iff_false]
      omega
  · -- a part that is all at `k` spans no other level, so it comes from a path at `k`
    have hmem : ∀ x ∈ xs, x = k ∧ c = true := by
      intro x hx
      obtain ⟨part, hpart, haround, -⟩ := forall₂_mem_right (List.Forall₂.flip h) x hx
      have hk : ∀ y ∈ part, y = k := fun y hy => hall y (List.mem_flatten.2 ⟨part, hpart, hy⟩)
      have hx := haround.spans.eq_of_forall hk
      exact ⟨hx, haround.exact.1 fun y hy => (hk y hy).trans hx.symm⟩
    obtain ⟨x, hx, -⟩ := hk.first
    exact ⟨fun x hx => (hmem x hx).1, (hmem x (List.mem_of_head? hx)).2⟩
  · clear hspans
    induction h with
    | nil => exact .nil
    | cons hpart _ ih => exact ih.prepend hpart.1.spans.ne_nil (hpart.1.exact.2 hc)

/-! ## Branches -/

/-- The levels that come out of a branch: each part is lowered once for itself and once for each part after it. -/
def lowered : List (List Int) → List Int
  | [] => []
  | part :: parts => part.map (· - (parts.length + 1 : Int)) ++ lowered parts

theorem last_lowered {k : Int} {parts : List (List Int)} (h : List.Forall₂ (fun x part => Spans (x + 1) part) xs parts)
    (hlast : ∃ x ∈ xs.getLast?, k ≤ x) : ∃ y ∈ (lowered parts).getLast?, k ≤ y := by
  obtain ⟨z, hz, hkz⟩ := hlast
  induction h with
  | nil => cases hz
  | @cons x part xs parts hpart hparts ih =>
    rw [lowered, List.getLast?_append]
    cases xs with
    | nil =>
      cases hparts
      obtain rfl : x = z := by simpa using hz
      obtain ⟨y, hy, hzy⟩ := (hpart.lower 1).last
      refine ⟨y, ?_, by omega⟩
      simpa [lowered] using hy
    | cons x' xs =>
      rw [List.getLast?_cons_cons] at hz
      obtain ⟨y, hy, hky⟩ := ih hz
      refine ⟨y, ?_, hky⟩
      rw [Option.mem_def.1 hy]
      rfl

/-- Each path is led to several paths around the level inside the branch, which then leave it. With one path given they
are back at its level; with more, the paths of the first are too low. -/
theorem relevels_lowered {parts : List (List Int)}
    (h : List.Forall₂ (fun x part => Around c (x + 1) part ∧ 2 ≤ part.length) xs parts) :
    Relevels true (fun alone => alone && c) xs (lowered parts) := by
  have hspans : List.Forall₂ (fun x part => Spans (x + 1) part) xs parts := h.imp fun _ _ hpart => hpart.1.spans
  cases h with
  | nil => exact ⟨by simp [lowered], fun hk => absurd rfl hk.ne_nil, fun hk => absurd rfl hk.ne_nil, by simp⟩
  | @cons x part xs parts hpart hparts =>
    obtain ⟨haround, hseveral⟩ := hpart
    obtain ⟨y, hy, hyx⟩ := haround.spans.first
    have hfirst : y - (parts.length + 1 : Int) ∈ (lowered (part :: parts)).head? := by
      rw [lowered, List.head?_append, List.head?_map, Option.mem_def.1 hy]
      rfl
    refine ⟨?_, fun {k} hk => ⟨⟨_, hfirst, ?_⟩, last_lowered hspans hk.last⟩, fun {k} hk hall => ?_, fun hl => ?_⟩
    · -- the first part alone has two paths
      rw [lowered, List.length_append, List.length_map]
      simp only [Bool.true_eq_false, and_false, iff_false]
      omega
    · obtain ⟨_, hx, hxk⟩ := hk.first
      cases hx
      omega
    · obtain ⟨_, hx, hxk⟩ := hk.first
      cases hx
      have hk' := hall _ (List.mem_of_head? hfirst)
      -- the first path that came out was lowered once, so there is one part only
      have hparts' : parts = [] := List.eq_nil_of_length_eq_zero (by omega)
      subst hparts'
      cases hparts
      have hone := haround.lower 1
      have hall : ∀ z ∈ part.map (· - 1), z = k := by simpa [lowered] using hall
      have hx : x + 1 - 1 = k := hone.spans.eq_of_forall hall
      refine ⟨List.forall_mem_singleton.2 (by omega), ?_⟩
      simpa using hone.exact.1 fun z hz => (hall z hz).trans hx.symm
    · simp only [List.length_cons, Nat.add_eq_right, List.length_eq_zero_iff, Bool.and_eq_true, decide_eq_true_eq] at hl
      obtain ⟨rfl, hc⟩ := hl
      cases hparts
      have hone := haround.lower 1
      have hall : ∀ z ∈ part.map (· - 1), z = x := fun z hz => by
        have := hone.exact.2 hc z hz
        omega
      simpa [lowered] using Stutters.nil.prepend hone.spans.ne_nil hall

end

/-! ## Steps on one path -/

/-- The level of a path. -/
def Custody.leveled (edition : Edition) (k : Int) : Custody where
  edition := edition
  Kept p := p.scope = k
  Later _ _ := True
  Sound _ _ := True
  Reported _ := True
  refl _ := trivial
  trans _ _ := trivial

theorem Custody.lawful_leveled [SetOrder] (edition : Edition) (k : Int) : (leveled edition k).Lawful fun _ => True := by
  constructor
  case moves => exact fun hp hscope _ _ => ⟨hscope.trans hp, trivial⟩
  all_goals intros; trivial

/-- The step leaves the level of the path as it is. -/
def Eval.KeepsLevel (step : Eval Unit) : Prop := ∀ p q, Leads step.outcome p q → q.scope = p.scope

namespace Eval

variable (edition : Edition)

theorem keepsLevel_of_holds {step : Eval Unit}
    (h : ∀ k w, (Custody.leveled edition k).discipline.Holds w (fun _ _ => True) step) : KeepsLevel step := by
  intro p q hq
  obtain ⟨r, w, hrun, rfl⟩ := leads_outcome hq
  have hkept := (h p.scope ⟨p, r⟩ ⟨rfl, trivial⟩).1.1
  rw [hrun] at hkept
  exact hkept

theorem keepsLevel_assign [SetOrder] (targets : List Target) (value : Expr) (spot : Spot) :
    KeepsLevel (do discard (Eval.assign edition targets value spot)) :=
  keepsLevel_of_holds edition fun k w =>
    ((Custody.lawful_leveled edition k).writes.assigns (fun _ _ => trivial) w).discard

theorem keepsLevel_evaluate [SetOrder] (value : Expr) (context : Context) :
    KeepsLevel (do discard (value.evaluate edition context)) :=
  keepsLevel_of_holds edition fun k w =>
    ((Custody.lawful_leveled edition k).writes.evaluate (fun _ _ => trivial) context w).discard

theorem keepsLevel_enterTest [SetOrder] (test : Expr) : KeepsLevel (enterTest edition test) :=
  keepsLevel_of_holds edition fun k w => (Custody.lawful_leveled edition k).writes.enterTest (fun _ _ => trivial) w

theorem keepsLevel_enterItem [SetOrder] (target : Target) (iter : Expr) (spot : Spot) :
    KeepsLevel (enterItem edition target iter spot) :=
  keepsLevel_of_holds edition fun k w => (Custody.lawful_leveled edition k).writes.enterItem (fun _ _ => trivial) w

end Eval

/-! ## The parts of an analysis -/

namespace Analysis

/-- The analysis treats levels in one way, whatever paths it is given. -/
def Treats (forks : Bool) (level : Bool → Bool) (a : Analysis) : Prop :=
  ∀ paths out, Leads a.outcome paths out → Relevels forks level (paths.map Path.scope) (out.map Path.scope)

theorem treats_idle : Treats false (fun _ => true) Run.idle := by
  intro paths out h
  rw [leads_idle h]
  exact relevels_same _

theorem Treats.andThen {forks forks' : Bool} {level level' : Bool → Bool} {a b : Analysis} (ha : Treats forks level a)
    (hb : Treats forks' level' b) :
    Treats (forks || forks') (fun alone => level alone && level' (alone && !forks))
      fun paths report => (a paths report).andThen b := by
  intro paths out h
  obtain ⟨mid, hmid, hout⟩ := leads_andThen h
  exact (ha paths mid hmid).trans (hb mid out hout)

theorem treats_onEach {step : Eval Unit} (hs : step.KeepsLevel) : Treats false (fun _ => true) (onEach step) := by
  intro paths out h
  have hsame : out.map Path.scope = paths.map Path.scope := by
    have hall := leads_onEach h
    clear h
    induction hall with
    | nil => rfl
    | cons hq _ ih => rw [List.map_cons, List.map_cons, ih, hs _ _ hq]
  rw [hsame]
  exact relevels_same _

/-- From one path the analysis leads to paths around its level. -/
theorem Treats.around {forks : Bool} {level : Bool → Bool} {a : Analysis} (ha : Treats forks level a) {p : Path}
    {out : List Path} (h : Leads a.outcome [p] out) : Around (level true) p.scope (out.map Path.scope) :=
  (ha [p] out h).around

theorem scopes_leaveAll : ∀ (parts : List (List Path)) (new : List Path),
    (leaveAll new parts).map Path.scope =
      (new.map Path.scope).map (· - (parts.length : Int)) ++ lowered (parts.map (·.map Path.scope))
  | [], new => by simp [leaveAll, lowered]
  | part :: parts, new => by
    have hleave : ∀ l : List Path, (l.map leave).map Path.scope = (l.map Path.scope).map (· - 1) := by
      intro l
      rw [List.map_map, List.map_map]
      rfl
    have hshift : ∀ l : List Int, (l.map (· - 1)).map (· - (parts.length : Int)) =
        l.map (· - ((part :: parts).length : Int)) := by
      intro l
      rw [List.map_map]
      refine List.map_congr_left fun x _ => ?_
      simp only [Function.comp_apply, List.length_cons]
      omega
    rw [leaveAll, scopes_leaveAll, hleave, hshift, List.map_append, List.map_append, List.append_assoc]
    simp [lowered]

theorem scopes_leaveLoop (paths : List Path) : (leaveLoop paths).map Path.scope = paths.map Path.scope := by
  have hpop : ∀ l : List Path, (l.map (·.pop)).map Path.scope = l.map Path.scope := by
    intro l
    rw [List.map_map]
    rfl
  rcases List.eq_nil_or_concat' paths with rfl | ⟨init, last, rfl⟩
  · rfl
  · unfold leaveLoop
    simp only [List.map_append, List.map_singleton, List.dropLast_concat, List.getLast?_concat, Option.map_some,
      Option.toList_some, hpop]
    rfl

theorem treats_fork {enter : Eval Unit} {forks forks' : Bool} {level level' : Bool → Bool} {body orelse : Analysis}
    (he : enter.KeepsLevel) (hb : Treats forks level body) (ho : Treats forks' level' orelse) :
    Treats true (fun alone => alone && (level true && level' true)) (fork enter body orelse [] []) := by
  intro paths out h
  obtain ⟨parts, hparts, rfl⟩ := leads_fork h
  rw [scopes_leaveAll]
  refine relevels_lowered ?_
  rw [List.forall₂_map_left_iff, List.forall₂_map_right_iff]
  refine hparts.imp fun p part hpart => ?_
  obtain ⟨q, yes, no, henter, hyes, hno, rfl⟩ := hpart
  have hscope : q.fork.scope = p.scope + 1 := he _ _ henter
  have hyes := hb.around hyes
  have hno := ho.around hno
  rw [hscope] at hyes hno
  rw [List.map_append]
  refine ⟨by simpa using hyes.append (d := 0) (by simpa using hno) le_rfl, ?_⟩
  have hpos := List.length_pos_iff.2 hyes.spans.ne_nil
  have hpos' := List.length_pos_iff.2 hno.spans.ne_nil
  rw [List.length_append]
  omega

/-! The search of a loop -/

section Loop

variable {depth : Int} {enter : Eval Unit} {forks forks' : Bool} {level level' : Bool → Bool} {body orelse : Analysis}
  (he : enter.KeepsLevel) (hb : Treats forks level body)

include he hb

theorem around_iteration {p : Path} {out : List Path} (h : Leads (iteration enter body) p out) :
    Around (level true) p.scope (out.map Path.scope) := by
  obtain ⟨q, mid, hq, hmid, hout⟩ := leads_iteration h
  have hmid := hb.around hmid
  rw [he p q hq] at hmid
  rcases hout with rfl | rfl <;> rw [List.map_map] <;> exact hmid

-- The number of rounds is what the induction is on. A round that does not restore levels makes the list wider, so only
-- `Spans` survives it.
theorem spans_unroll : ∀ (n : Nat) {paths out : List Path} {k : Int}, Spans k (paths.map Path.scope) →
    Leads (unroll (iteration enter body) n) paths out → Spans k (out.map Path.scope) ∧
      (level true = true → (∀ p ∈ paths, p.scope = k) → ∀ q ∈ out, q.scope = k)
  | 0, paths, out, k, hk, ⟨r, r', h⟩ => by
    cases h
    exact ⟨hk, fun _ hp => hp⟩
  | n + 1, paths, out, k, hk, h => by
    obtain ⟨mid, hmid, h⟩ := leads_unroll_succ h
    obtain ⟨parts, hparts, rfl⟩ := leads_iterate hmid
    have haround : List.Forall₂ (fun p part => Around (level true) p.scope (part.map Path.scope)) paths parts :=
      hparts.imp fun _ _ hpart => around_iteration he hb hpart
    have hspans : Spans k (parts.flatten.map Path.scope) := by
      rw [List.map_flatten]
      refine hk.flatten ?_
      rw [List.forall₂_map_left_iff, List.forall₂_map_right_iff]
      exact haround.imp fun _ _ hpart => hpart.spans
    obtain ⟨hout, hflat⟩ := spans_unroll n hspans h
    refine ⟨hout, fun hl hp => hflat hl fun q hq => ?_⟩
    obtain ⟨part, hpart, hq⟩ := List.mem_flatten.1 hq
    obtain ⟨p, hmem, hpart⟩ := forall₂_mem_right haround part hpart
    rw [← hp p hmem]
    exact hpart.exact.2 hl q.scope (List.mem_map.2 ⟨q, hq, rfl⟩)

theorem around_first {start : Path} {out : List Path} (h : Leads (rounds depth enter body start) 1 out) :
    Around (level true) (start.scope - depth) (out.map Path.scope) := by
  obtain ⟨mid, hmid, rfl⟩ := leads_rounds h
  obtain ⟨once, honce, r, r', hmid⟩ := leads_unroll_succ hmid
  cases hmid
  obtain ⟨parts, hparts, rfl⟩ := leads_iterate honce
  cases hparts with
  | cons hpart hrest =>
    cases hrest
    have hpart := (around_iteration he hb hpart).lower depth
    rw [List.flatten_singleton, List.map_map]
    rw [List.map_map] at hpart
    exact hpart

theorem spans_round {start : Path} {n : Nat} {out : List Path} (h : Leads (rounds depth enter body start) n out) :
    Spans (start.scope - depth) (out.map Path.scope) ∧
      (level true = true → ∀ y ∈ out.map Path.scope, y = start.scope - depth) := by
  obtain ⟨mid, hmid, rfl⟩ := leads_rounds h
  obtain ⟨hspans, hflat⟩ := spans_unroll he hb n (.singleton start.scope) hmid
  have hmap : (mid.map fun q => { q with scope := q.scope - depth }).map Path.scope =
      (mid.map Path.scope).map (· - depth) := by
    rw [List.map_map, List.map_map]
    rfl
  rw [hmap]
  refine ⟨hspans.lower depth, fun hl => List.forall_mem_map.2 (List.forall_mem_map.2 fun q hq => ?_)⟩
  rw [hflat hl (List.forall_mem_singleton.2 rfl) q hq]

/-- A search leads to paths around the level of the path it starts from. -/
theorem around_search {limit : Nat} {p : Path} {found : List Path} (h : Leads (search limit depth enter body) p found) :
    Around (level true) p.scope (found.map Path.scope) := by
  obtain ⟨first, more, hfirst, hmore, rfl⟩ := leads_search h
  have hentry : (entry depth p).scope - depth = p.scope := Int.add_sub_cancel _ _
  have hfirst := around_first he hb hfirst
  rw [hentry] at hfirst
  rw [List.map_append, List.map_flatten]
  -- whether the body restores levels shows in the first round
  refine hfirst.append_flatten (List.forall_mem_map.2 fun round hround => ?_)
  obtain ⟨n, hround⟩ := hmore round hround
  have hround := spans_round he hb hround
  rw [hentry] at hround
  exact hround

/-- The path that skips a loop stays at the level of its region. -/
theorem around_loopFrom (ho : Treats forks' level' orelse) {limit : Nat} (hd : 0 ≤ depth) {p : Path} {out : List Path}
    (h : Leads (loopFrom limit depth enter body orelse) p out) :
    Around (level true && level' true && decide (depth = 0)) p.scope (out.map Path.scope) ∧
      2 ≤ (out.map Path.scope).length := by
  obtain ⟨found, skipped, hfound, hskipped, rfl⟩ := leads_loopFrom h
  have hfound := around_search he hb hfound
  have hskipped : Around (level' true) (p.scope + depth) (skipped.map Path.scope) := ho.around hskipped
  rw [List.map_append, scopes_leaveLoop]
  refine ⟨hfound.append hskipped hd, ?_⟩
  have hpos := List.length_pos_iff.2 hfound.spans.ne_nil
  have hpos' := List.length_pos_iff.2 hskipped.spans.ne_nil
  rw [List.length_append]
  omega

theorem treats_loop (ho : Treats forks' level' orelse) (limit : Nat) (hd : 0 ≤ depth) :
    Treats true (fun _ => level true && level' true && decide (depth = 0)) (loop limit depth enter body orelse) := by
  intro paths out h
  obtain ⟨parts, hparts, rfl⟩ := leads_loop h
  rw [List.map_flatten]
  refine relevels_flatten ?_
  rw [List.forall₂_map_left_iff, List.forall₂_map_right_iff]
  exact hparts.imp fun p part hpart => around_loopFrom he hb ho hd hpart

end Loop

end Analysis

/-! ## Statements -/

mutual

/-- The statement leads one path to several. -/
def Stmt.forks : Stmt → Bool
  | .block body => Stmt.anyForks body
  | .branch _ _ _ => true
  | .loop _ _ _ => true
  | .each _ _ _ _ _ => true
  | _ => false

def Stmt.anyForks : List Stmt → Bool
  | [] => false
  | s :: rest => s.forks || Stmt.anyForks rest

end

mutual

/-- The statement has no iteration, and each of its branches is met by one path. The statement itself is met by
one path if it is `alone`. -/
def Stmt.level : Stmt → (alone : Bool) → Bool
  | .block body, alone => Stmt.allLevel body alone
  | .branch _ body orelse, alone => alone && (body.level true && orelse.level true)
  | .loop _ body orelse, _ => body.level true && orelse.level true
  | .each _ _ _ _ _, _ => false
  | _, _ => true

def Stmt.allLevel : List Stmt → (alone : Bool) → Bool
  | [], _ => true
  | s :: rest, alone => s.level alone && Stmt.allLevel rest (alone && !s.forks)

end

open Analysis

mutual

theorem Stmt.treats_analyse [SetOrder] (edition : Edition) (limit : Nat) : ∀ s : Stmt,
    Treats s.forks s.level (s.analyse edition limit)
  | .skip => by
    rw [Stmt.analyse.eq_def]
    exact treats_idle
  | .block body => by
    rw [Stmt.analyse.eq_def]
    exact Stmt.treats_analyseBlock edition limit body
  | .assign targets value spot => by
    rw [Stmt.analyse.eq_def]
    exact treats_onEach (Eval.keepsLevel_assign edition targets value spot)
  | .annotated target value spot => by
    rw [Stmt.analyse.eq_def]
    cases edition
    · exact treats_idle
    · exact treats_onEach (Eval.keepsLevel_assign _ [target] value { line := spot.line })
  | .augmented target current value spot => by
    rw [Stmt.analyse.eq_def]
    cases edition
    · exact treats_idle
    · exact treats_onEach (Eval.keepsLevel_assign _ [target] (.binary current value) { line := spot.line })
  | .eval value => by
    rw [Stmt.analyse.eq_def]
    exact treats_onEach (Eval.keepsLevel_evaluate edition value .value)
  | .branch test body orelse => by
    rw [Stmt.analyse.eq_def]
    exact treats_fork (Eval.keepsLevel_enterTest edition test) (Stmt.treats_analyse edition limit body)
      (Stmt.treats_analyse edition limit orelse)
  | .loop test body orelse => by
    rw [Stmt.analyse.eq_def]
    have h := treats_loop (Eval.keepsLevel_enterTest edition test) (Stmt.treats_analyse edition limit body)
      (Stmt.treats_analyse edition limit orelse) limit (le_refl 0)
    simpa [Stmt.forks, Stmt.level] using h
  | .each target iter body orelse spot => by
    rw [Stmt.analyse.eq_def]
    have h := treats_loop (Eval.keepsLevel_enterItem edition target iter { line := spot.line })
      (Stmt.treats_analyse edition limit body) (Stmt.treats_analyse edition limit orelse) limit Int.one_nonneg
    simpa [Stmt.forks, Stmt.level] using h
  | .fails fault => by
    rw [Stmt.analyse.eq_def]
    exact fun paths out h => absurd h not_leads_stop

theorem Stmt.treats_analyseBlock [SetOrder] (edition : Edition) (limit : Nat) : ∀ body : List Stmt,
    Treats (Stmt.anyForks body) (Stmt.allLevel body) (Stmt.analyseBlock edition limit body)
  | [] => by
    rw [Stmt.analyseBlock.eq_def]
    exact treats_idle
  | s :: rest => by
    rw [Stmt.analyseBlock.eq_def]
    exact (Stmt.treats_analyse edition limit s).andThen (Stmt.treats_analyseBlock edition limit rest)

end

end TaintFlow
