import Mathlib.Data.Int.Interval
import Mathlib.Order.Interval.Finset.Nat
import TaintFlow.Proofs.Search
import TaintFlow.Proofs.Stock

/-
How many states a search can tell apart. A search compares what paths show: the variables they assigned, the
sources they found, the patterns and the lists of flows of their labels, and the conditions around them. On
a stock these are finitely many facts, if the lists of flows stay below some length and, in the scoped
edition, the nesting levels in them below some number. That is the only thing a stock does not bound: a list of
flows may hold a flow twice.
-/
namespace TaintFlow

open Filter Listing

/-! ## What paths show -/

namespace Path

/-- The label of the variable has this entry. -/
def Tracks (p : Path) (x name : String) (t : Tracked PatternRef) : Prop :=
  ∃ m, p.labels.get? x = some m ∧ m.entries.get? name = some t

/-- The lists of flows of the labels are no longer than `bound`; in the scoped edition the nesting levels in
them are not beyond it either. -/
def Bounded (edition : Edition) (bound : Nat) (p : Path) : Prop :=
  ∀ x name t, p.Tracks x name t → ∀ s flows, t.label.flows.get? s = some flows →
    flows.length ≤ bound ∧ (edition = .scoped → ∀ f ∈ flows, f.position.scope.natAbs ≤ bound)

/-- Every path is bounded by some number and all larger ones. -/
theorem eventually_bounded (edition : Edition) (p : Path) : ∀ᶠ bound in atTop, p.Bounded edition bound := by
  have hflows : ∀ flows : List Flow, ∀ᶠ bound in atTop,
      flows.length ≤ bound ∧ (edition = .scoped → ∀ f ∈ flows, f.position.scope.natAbs ≤ bound) := by
    intro flows
    filter_upwards [eventually_ge_atTop flows.length,
      Stock.eventually_forall_mem flows fun f _ => eventually_ge_atTop f.position.scope.natAbs] with bound hl hs
    exact ⟨hl, fun _ => hs⟩
  have hall : ∀ᶠ bound in atTop, ∀ e ∈ p.labels.table.entries, ∀ t ∈ e.2.entries.entries,
      ∀ l ∈ t.2.label.flows.entries, l.2.length ≤ bound ∧
        (edition = .scoped → ∀ f ∈ l.2, f.position.scope.natAbs ≤ bound) :=
    Stock.eventually_forall_mem _ fun _ _ => Stock.eventually_forall_mem _ fun _ _ =>
      Stock.eventually_forall_mem _ fun l _ => hflows l.2
  filter_upwards [hall] with bound h
  rintro x name t ⟨m, hm, ht⟩ s flows hs
  exact h _ (Table.mem_entries.2 hm) _ (Table.mem_entries.2 ht) _ (Table.mem_entries.2 hs)

/-- Paths with the same explicit taint have the same bounds. -/
theorem Bounded.of_sameExplicit {edition : Edition} {bound : Nat} {p q : Path} (h : q.SameExplicit p)
    (hp : p.Bounded edition bound) : q.Bounded edition bound := by
  rintro x name t ⟨m, hm, ht⟩ s flows hs
  have hx := h.labels x
  rw [hm] at hx
  obtain ⟨m', hm', hsame⟩ : ∃ m', p.labels.get? x = some m' ∧ MultiLabel.SameFlows m m' := by
    generalize p.labels.get? x = o at hx
    cases hx with
    | some hs => exact ⟨_, rfl, hs⟩
  have hn := hsame name
  rw [ht] at hn
  obtain ⟨u, hu, hl⟩ : ∃ u, m'.entries.get? name = some u ∧ t.label.Alike u.label := by
    generalize m'.entries.get? name = o at hn
    cases hn with
    | some hl => exact ⟨_, rfl, hl⟩
  exact hp x name u ⟨m', hm', hu⟩ s flows ((hl s).symm.trans hs)

end Path

/-- What a search compares of a path. -/
inductive Fact where
  | assigned (x : String)
  | source (i : Nat) (s : String)
  | labelled (x : String)
  | shape (x name : String) (pattern : Pattern)
  | behind (x name s : String)
  | flows (x name s : String) (flows : List Flow)
  | height (n : Nat)

def Path.Shows (p : Path) : Fact → Prop
  | .assigned x => x ∈ p.initialized
  | .source i s => s ∈ (p.view (.own i)).sources
  | .labelled x => (p.labels.get? x).isSome = true
  | .shape x name pattern => ∃ t, p.Tracks x name t ∧ (p.view t.pattern).bare = pattern
  | .behind x name s => ∃ t, p.Tracks x name t ∧ s ∈ (p.view t.pattern).sources
  | .flows x name s flows => ∃ t, p.Tracks x name t ∧ t.label.flows.get? s = some flows
  | .height n => p.control.length = n

/-! ## Paths that show the same are not told apart -/

section Shows

variable {p q : Path} (h : ∀ fact, p.Shows fact ↔ q.Shows fact)

include h

theorem tracks_of_shows {x name : String} {t : Tracked PatternRef} (ht : p.Tracks x name t) :
    ∃ u, q.Tracks x name u ∧ (p.view t.pattern).Alike (q.view u.pattern) ∧ t.label.Alike u.label := by
  obtain ⟨u, hu, hbare⟩ := (h (.shape x name (p.view t.pattern).bare)).1 ⟨t, ht, rfl⟩
  -- a path has one entry for each variable and name
  have honly : ∀ {r : Path} {v w : Tracked PatternRef}, r.Tracks x name v → r.Tracks x name w → v = w := by
    rintro r v w ⟨m, hm, hv⟩ ⟨m', hm', hw⟩
    cases hm.symm.trans hm'
    exact Option.some.inj (hv.symm.trans hw)
  refine ⟨u, hu, ⟨hbare.symm, fun s => ⟨fun hs => ?_, fun hs => ?_⟩⟩,
    fun s => Option.ext fun flows => ⟨fun hs => ?_, fun hs => ?_⟩⟩
  · obtain ⟨v, hv, hs⟩ := (h (.behind x name s)).1 ⟨t, ht, hs⟩
    exact honly hu hv ▸ hs
  · obtain ⟨v, hv, hs⟩ := (h (.behind x name s)).2 ⟨u, hu, hs⟩
    exact honly ht hv ▸ hs
  · obtain ⟨v, hv, hs⟩ := (h (.flows x name s flows)).1 ⟨t, ht, hs⟩
    exact honly hu hv ▸ hs
  · obtain ⟨v, hv, hs⟩ := (h (.flows x name s flows)).2 ⟨u, hu, hs⟩
    exact honly ht hv ▸ hs

theorem sameLabels_of_shows : p.labels.same p.view q.view q.labels = true := by
  refine Table.agree_iff.2 fun x => ?_
  show Option.Rel _ (p.labels.get? x) (q.labels.get? x)
  have hlabelled : (p.labels.get? x).isSome = true ↔ (q.labels.get? x).isSome = true := h (.labelled x)
  cases hp : p.labels.get? x with
  | none => cases hq : q.labels.get? x with
    | none => exact .none
    | some _ =>
      rw [hp, hq] at hlabelled
      exact Bool.noConfusion (hlabelled.2 rfl)
  | some m => cases hq : q.labels.get? x with
    | none =>
      rw [hp, hq] at hlabelled
      exact Bool.noConfusion (hlabelled.1 rfl)
    | some m' =>
      refine .some (MultiLabel.same_iff.2 fun name => ?_)
      cases ht : m.entries.get? name with
      | none => cases hu : m'.entries.get? name with
        | none => exact .none
        | some u =>
          obtain ⟨t, ⟨n, hn, ht'⟩, -⟩ := tracks_of_shows (fun fact => (h fact).symm) ⟨m', hq, hu⟩
          cases hp.symm.trans hn
          cases ht.symm.trans ht'
      | some t =>
        obtain ⟨u, ⟨n, hn, hu⟩, hview, hlabel⟩ := tracks_of_shows h ⟨m, hp, ht⟩
        cases hq.symm.trans hn
        rw [hu]
        exact .some ⟨(Pattern.same_iff_of_bare hview.bare).2 hview, hlabel⟩

theorem same_of_shows (hp : p.patterns.map Pattern.bare = q.patterns.map Pattern.bare)
    (hstack : p.control.length = q.control.length → Path.sameStack p.view q.view p.control q.control = true) :
    p.same q = true := by
  unfold Path.same
  simp only [Bool.and_eq_true]
  refine ⟨⟨⟨sameLabels_of_shows h, sameMembers_iff.2 fun x => h (.assigned x)⟩, ?_⟩, hstack ?_⟩
  · refine Path.samePatterns_iff.2 (List.forall₂_iff_get.2 ⟨by simpa using congrArg List.length hp, ?_⟩)
    intro i hi hi'
    have hbare := Path.view_own_bare hp i
    have hsources : ∀ s, s ∈ (p.view (.own i)).sources ↔ s ∈ (q.view (.own i)).sources := fun s => h (.source i s)
    rw [Path.view_own hi, Path.view_own hi'] at hbare hsources
    exact (Pattern.same_iff_of_bare hbare).2 ⟨hbare, hsources⟩
  · exact ((h (.height p.control.length)).1 rfl).symm

end Shows

/-! ## The facts on a stock are finitely many -/

theorem finite_lists {α : Type} {s : Set α} (hs : s.Finite) (n : Nat) :
    {l : List α | (∀ a ∈ l, a ∈ s) ∧ l.length ≤ n}.Finite := by
  have := hs.to_subtype
  refine ((List.finite_length_le s n).image (List.map Subtype.val)).subset ?_
  rintro l ⟨hl, hn⟩
  exact ⟨l.attach.map fun a => ⟨a.1, hl a.1 a.2⟩, by simpa using hn, by simp⟩

theorem finite_nodup_lists {α : Type} {s : Set α} (hs : s.Finite) :
    {l : List α | (∀ a ∈ l, a ∈ s) ∧ l.Nodup}.Finite := by
  classical
  refine (finite_lists hs hs.toFinset.card).subset ?_
  rintro l ⟨hl, hn⟩
  refine ⟨hl, ?_⟩
  rw [← List.toFinset_card_of_nodup hn]
  exact Finset.card_le_card fun a ha => hs.mem_toFinset.2 (hl a (List.mem_toFinset.1 ha))

/-- The flows that can be made from a stock at nesting levels that are not beyond `bound`. -/
def Stock.flows (S : Stock) (edition : Edition) (bound : Nat) : Set Flow :=
  {f | S.Makes edition f ∧ (edition = .scoped → f.position.scope.natAbs ≤ bound)}

theorem Stock.finite_flows (S : Stock) (edition : Edition) (bound : Nat) : (S.flows edition bound).Finite := by
  have hcalls : (Set.image2 Mark.sanitizer (S.names : Set String) (S.numbers : Set Int)).Finite :=
    S.names.finite_toSet.image2 _ S.numbers.finite_toSet
  have hmarks := (finite_nodup_lists hcalls).union S.marks.finite_toSet
  have hscopes : ((S.numbers : Set Int) ∪ Set.Icc (-(bound : Int)) bound).Finite :=
    S.numbers.finite_toSet.union (Set.finite_Icc _ _)
  have hpositions := S.numbers.finite_toSet.prod (S.numbers.finite_toSet.prod hscopes)
  refine ((hpositions.prod hmarks).image fun e => (⟨⟨e.1.1, e.1.2.1, e.1.2.2⟩, e.2⟩ : Flow)).subset ?_
  rintro f ⟨hf, hscope⟩
  refine ⟨((f.position.line, f.position.column, f.position.scope), f.marks), ⟨⟨hf.line, hf.column, ?_⟩, ?_⟩, rfl⟩
  · cases edition
    · exact .inl (hf.scope rfl)
    · have := hscope rfl
      exact .inr ⟨by simp only; omega, by simp only; omega⟩
  · rcases hf.once with ho | hm
    · refine .inl ⟨fun k hk => ?_, ho⟩
      obtain ⟨function, hn, line, hl, rfl⟩ := hf.calls k hk
      exact ⟨function, hn, line, hl, rfl⟩
    · exact .inr hm

/-- The facts that paths can show on a stock. -/
inductive Stock.Allows (S : Stock) (edition : Edition) (policy : List Pattern) (bound height : Nat) : Fact → Prop where
  | assigned {x : String} : x ∈ S.names → S.Allows edition policy bound height (.assigned x)
  | source {i : Nat} {s : String} : i < policy.length → s ∈ S.names → S.Allows edition policy bound height (.source i s)
  | labelled {x : String} : x ∈ S.names → S.Allows edition policy bound height (.labelled x)
  | shape {x name : String} {pattern : Pattern} : x ∈ S.names → name ∈ policy.map (·.name) → pattern ∈ S.shapes →
    S.Allows edition policy bound height (.shape x name pattern)
  | behind {x name s : String} : x ∈ S.names → name ∈ policy.map (·.name) → s ∈ S.names →
    S.Allows edition policy bound height (.behind x name s)
  | flows {x name s : String} {flows : List Flow} : x ∈ S.names → name ∈ policy.map (·.name) → s ∈ S.names →
    (∀ f ∈ flows, f ∈ S.flows edition bound) → flows.length ≤ bound →
    S.Allows edition policy bound height (.flows x name s flows)
  | height {n : Nat} : n ≤ height → S.Allows edition policy bound height (.height n)

theorem Stock.finite_allows (S : Stock) (edition : Edition) (policy : List Pattern) (bound height : Nat) :
    {fact | S.Allows edition policy bound height fact}.Finite := by
  have hn : (S.names : Set String).Finite := S.names.finite_toSet
  have hk : {name | name ∈ policy.map (·.name)}.Finite := List.finite_toSet _
  have hf := finite_lists (S.finite_flows edition bound) bound
  have hassigned := hn.image Fact.assigned
  have hsource := (Set.finite_Iio policy.length).image2 Fact.source hn
  have hlabelled := hn.image Fact.labelled
  have hshape := (hn.prod (hk.prod S.shapes.finite_toSet)).image fun e => Fact.shape e.1 e.2.1 e.2.2
  have hbehind := (hn.prod (hk.prod hn)).image fun e => Fact.behind e.1 e.2.1 e.2.2
  have hflows := (hn.prod (hk.prod (hn.prod hf))).image fun e => Fact.flows e.1 e.2.1 e.2.2.1 e.2.2.2
  have hheight := (Set.finite_Iic height).image Fact.height
  refine Set.Finite.subset ((hassigned.union hsource).union
    (hlabelled.union (hshape.union (hbehind.union (hflows.union hheight))))) ?_
  intro fact h
  cases h with
  | assigned hx => exact .inl (.inl ⟨_, hx, rfl⟩)
  | source hi hs => exact .inl (.inr ⟨_, hi, _, hs, rfl⟩)
  | labelled hx => exact .inr (.inl ⟨_, hx, rfl⟩)
  | shape hx hname hp => exact .inr (.inr (.inl ⟨(_, _, _), ⟨hx, hname, hp⟩, rfl⟩))
  | behind hx hname hs => exact .inr (.inr (.inr (.inl ⟨(_, _, _), ⟨hx, hname, hs⟩, rfl⟩)))
  | flows hx hname hs hf hl => exact .inr (.inr (.inr (.inr (.inl ⟨(_, _, _, _), ⟨hx, hname, hs, hf, hl⟩, rfl⟩))))
  | height hn => exact .inr (.inr (.inr (.inr (.inr ⟨_, hn, rfl⟩))))

/-! ## The states that are told apart are finitely many -/

/-- If the paths are told apart by a key, and the keys are finitely many, lists of paths that are all told
apart are not arbitrarily long. -/
theorem exists_bound_of_finite {α κ : Type} {P : α → Prop} {same : α → α → Bool} {keys : Set κ} (hkeys : keys.Finite)
    (key : α → κ) (hkey : ∀ a, P a → key a ∈ keys) (hsame : ∀ a b, P a → P b → key a = key b → same a b = true) :
    ∃ N, ∀ l : List α, (∀ a ∈ l, P a) → l.Pairwise (fun a b => same b a = false) → l.length ≤ N := by
  classical
  refine ⟨hkeys.toFinset.card, fun l hl hpair => ?_⟩
  have hnodup : (l.map key).Nodup := by
    refine List.pairwise_map.2 (List.Pairwise.imp_of_mem ?_ hpair)
    intro a b ha hb hne he
    rw [hsame b a (hl b hb) (hl a ha) he.symm] at hne
    cases hne
  rw [← List.length_map (f := key), ← List.toFinset_card_of_nodup hnodup]
  refine Finset.card_le_card fun k hk => ?_
  obtain ⟨a, ha, rfl⟩ := List.mem_map.1 (List.mem_toFinset.1 hk)
  exact hkeys.mem_toFinset.2 (hkey a (hl a ha))

namespace Accord

variable {edition : Edition} {policy : List Pattern} {strict full clear : Prop} {S : Stock}

/-- On a stock, paths show facts that the stock allows. -/
theorem Tamed.allows {p : Path} (hp : (stocked edition policy strict full clear S).Tamed p)
    (hS : S.Covers policy) {bound height : Nat} (hb : p.Bounded edition bound)
    (hh : p.control.length ≤ height) : ∀ {fact : Fact}, p.Shows fact → S.Allows edition policy bound height fact
  | .assigned x, hx => .assigned (hp.initialized x hx)
  | .source i s, hs => by
    have hs : s ∈ (p.view (.own i)).sources := hs
    by_cases hi : i < p.patterns.length
    · have hl := congrArg List.length hp.patterns
      rw [List.length_map, List.length_map] at hl
      exact .source (hl ▸ hi) (hp.sources _ (Path.view_own_mem hi) s hs)
    · -- beyond the end there is no pattern, and so no source
      rw [Path.view_own_default hi] at hs
      cases hs
  | .labelled x, hx => by
    obtain ⟨m, hm⟩ := Option.isSome_iff_exists.1 hx
    exact .labelled (hp.keys x m hm)
  | .shape x name _, ⟨t, ⟨m, hm, ht⟩, rfl⟩ => by
    have hr := (hp.labels x m hm).refs name t ht
    exact .shape (hp.keys x m hm) hr.1 (Stock.view_mem hS hp.patterns hp.sources hr.2).1
  | .behind x name s, ⟨t, ⟨m, hm, ht⟩, hs⟩ => by
    have hr := (hp.labels x m hm).refs name t ht
    exact .behind (hp.keys x m hm) hr.1 ((Stock.view_mem hS hp.patterns hp.sources hr.2).2 s hs)
  | .flows x name s flows, ⟨t, ⟨m, hm, ht⟩, hs⟩ => by
    have hr := (hp.labels x m hm).refs name t ht
    obtain ⟨hl, hscope⟩ := hb x name t ⟨m, hm, ht⟩ s flows hs
    have hname := (hp.labels x m hm).sources name s ⟨t, ht, Option.isSome_iff_exists.2 ⟨flows, hs⟩⟩
    refine .flows (hp.keys x m hm) hr.1 hname (fun f hf => ⟨?_, fun he => hscope he f hf⟩) hl
    exact ((hp.labels x m hm).flows name s f ⟨t, ht, flows, hs, hf⟩).2.1
  | .height _, rfl => .height hh

/-- Beginnings of one stack are not told apart if they are equally high. -/
theorem Tamed.same_of_shows {p q : Path} (hp : (stocked edition policy strict full clear S).Tamed p)
    (hq : (stocked edition policy strict full clear S).Tamed q) {C : List Taint} (hC : Settled C) (hpC : p.Begins C)
    (hqC : q.Begins C) (h : {fact | p.Shows fact} = {fact | q.Shows fact}) : p.same q = true :=
  TaintFlow.same_of_shows (fun fact => (Set.ext_iff.1 h fact)) (hp.patterns.trans hq.patterns.symm)
    (hC.sameStack_of_begins hpC hqC)

theorem Tamed.shows_subset {p : Path} (hp : (stocked edition policy strict full clear S).Tamed p)
    (hS : S.Covers policy) {bound : Nat} (hb : p.Bounded edition bound) {C : List Taint}
    (hC : p.Begins C) :
    {fact | p.Shows fact} ∈ {facts : Set Fact | facts ⊆ {fact | S.Allows edition policy bound C.length fact}} := by
  obtain ⟨n, hn⟩ := hC
  have hlength : p.control.length ≤ C.length := by
    rw [hn, List.length_take]
    exact Nat.min_le_right ..
  exact fun fact hfact => hp.allows hS hb hlength hfact

/-- On a stock, lists of bounded paths that a search tells apart are not arbitrarily long. -/
theorem exists_bound (hS : S.Covers policy) (bound : Nat) {C : List Taint} (hC : Settled C) :
    ∃ N, ∀ l : List Path, (∀ p ∈ l, (stocked edition policy strict full clear S).Tamed p ∧ p.Bounded edition bound ∧
      p.Begins C) → l.Pairwise (fun p q => q.same p = false) → l.length ≤ N :=
  exists_bound_of_finite (S.finite_allows edition policy bound C.length).finite_subsets
    (fun p => {fact | p.Shows fact}) (fun _ hp => hp.1.shows_subset hS hp.2.1 hp.2.2)
    (fun _ _ hp hq h => hp.1.same_of_shows hq.1 hC hp.2.2 hq.2.2 h)

end Accord

/-! ## A search that tells finitely many states apart stops -/

namespace Analysis

theorem separated_addNew {same : Path → Path → Bool} : ∀ (paths seen : List Path),
    seen.Pairwise (fun p q => same q p = false) → (addNew same seen paths).Pairwise (fun p q => same q p = false)
  | [], _, h => h
  | p :: paths, seen, h => by
    refine separated_addNew paths (if seen.any (same p) then seen else seen ++ [p]) ?_
    split
    · exact h
    · rename_i hnew
      refine List.pairwise_append.2 ⟨h, List.pairwise_singleton .., fun q hq q' hq' => ?_⟩
      rw [List.mem_singleton.1 hq']
      rw [List.any_eq_true, not_exists] at hnew
      simpa using fun hs => hnew q ⟨hq, hs⟩

/-- The rounds of a search may themselves depend on the limit, but each of them comes to a result `x` for all
large limits. Then so does the search, if not arbitrarily many states are told apart. `I` is what is known
before a round. -/
theorem settle_halts {same : Path → Path → Bool} {P : Path → Prop} {N : Nat}
    (hN : ∀ l : List Path, (∀ p ∈ l, P p) → l.Pairwise (fun p q => same q p = false) → l.length ≤ N)
    {unrolled : Nat → Nat → Report → Except Fault (List Path) × Report}
    {I : Nat → List Path → List Path → Report → Prop}
    (hI : ∀ n seen found r, I n seen found r → ∃ x, x.1 ≠ .error .unsettled ∧
      (∀ᶠ limit in atTop, unrolled limit (n + 1) r = x) ∧ ∀ out r', x = (.ok out, r') → (∀ q ∈ out, P q) ∧
        ((addNew same seen out).length ≠ seen.length → I (n + 1) (addNew same seen out) (found ++ out) r')) :
    ∀ (n : Nat) (seen found : List Path) (r : Report), I n seen found r → (∀ p ∈ seen, P p) →
      seen.Pairwise (fun p q => same q p = false) → ∃ y, y.1 ≠ .error .unsettled ∧
        ∀ᶠ limit in atTop, settle same (unrolled limit) (limit - n) n seen found r = y := by
  intro n seen
  -- each round that does not end the search leaves fewer states to be found
  induction hk : N - seen.length using Nat.strong_induction_on generalizing n seen with
  | h k ih =>
    intro found r hinv hseen hsep
    obtain ⟨x, hx, hround, hnext⟩ := hI n seen found r hinv
    have hunfold : ∀ᶠ limit in atTop, unrolled limit (n + 1) r = x ∧ limit - n = limit - (n + 1) + 1 := by
      filter_upwards [hround, eventually_gt_atTop n] with limit hlimit hn
      exact ⟨hlimit, by omega⟩
    obtain ⟨out, r'⟩ := x
    cases out with
    | error f =>
      refine ⟨(.error f, r'), hx, ?_⟩
      filter_upwards [hunfold] with limit hlimit
      rw [hlimit.2, settle, hlimit.1]
    | ok out =>
      obtain ⟨hout, hnew⟩ := hnext out r' rfl
      by_cases hstop : (addNew same seen out).length = seen.length
      · refine ⟨(.ok (found ++ out), r'), (by simp), ?_⟩
        filter_upwards [hunfold] with limit hlimit
        rw [hlimit.2, settle, hlimit.1]
        exact if_pos hstop
      · have hseen' : ∀ p ∈ addNew same seen out, P p := fun p hp => (mem_addNew hp).elim (hseen p) (hout p)
        have hsep' := separated_addNew out seen hsep
        have hless := hN _ hseen' hsep'
        have hmore := @length_le_addNew same out seen
        obtain ⟨y, hy, hrest⟩ := ih _ (by omega) (n + 1) _ rfl (found ++ out) r' (hnew hstop) hseen' hsep'
        refine ⟨y, hy, ?_⟩
        filter_upwards [hunfold, hrest] with limit hlimit hlast
        rw [hlimit.2, settle, hlimit.1]
        exact (if_neg hstop).trans hlast

end Analysis

end TaintFlow
