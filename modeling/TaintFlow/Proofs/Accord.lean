import Mathlib.Data.List.Forall2
import Mathlib.Data.List.Nodup
import TaintFlow.Proofs.Recording

/-
What two runs of the analysis have in common. An `Accord` says how closely the labels, paths and
reports of two runs are compared, and which names, flows and references to patterns may occur in them
at all. Explicit labels are always compared, list by list; control labels, the references behind
labels and the reports only if the accord asks for it.

The laws say that the operations on multilabels keep an accord. Labels that are being computed are
`Fresh`: for each pattern of the policy they refer to the path's own pattern, so that both runs add
sources and sanitizers for the same patterns. Labels that were stored need not be.
-/
namespace TaintFlow

open Listing

/-! ## Entries in two tables -/

section Rel

variable {α β γ δ : Type} {R : α → β → Prop} {a : Option α} {b : Option β}

theorem rel_map_left {S : γ → β → Prop} {f : α → γ} (h : ∀ {a b}, R a b → S (f a) b) (hab : Option.Rel R a b) :
    Option.Rel S (a.map f) b := by
  cases hab with
  | none => exact .none
  | some hab => exact .some (h hab)

theorem rel_map_right {S : α → δ → Prop} {g : β → δ} (h : ∀ {a b}, R a b → S a (g b)) (hab : Option.Rel R a b) :
    Option.Rel S a (b.map g) := by
  cases hab with
  | none => exact .none
  | some hab => exact .some (h hab)

theorem rel_map {S : γ → δ → Prop} {f : α → γ} {g : β → δ} (h : ∀ {a b}, R a b → S (f a) (g b))
    (hab : Option.Rel R a b) : Option.Rel S (a.map f) (b.map g) :=
  rel_map_left id (rel_map_right h hab)

theorem rel_imp {S : α → β → Prop} (h : ∀ {a b}, R a b → S a b) (hab : Option.Rel R a b) : Option.Rel S a b := by
  cases hab with
  | none => exact .none
  | some hab => exact .some (h hab)

theorem rel_symm {S : β → α → Prop} (h : ∀ {a b}, R a b → S b a) (hab : Option.Rel R a b) : Option.Rel S b a := by
  cases hab with
  | none => exact .none
  | some hab => exact .some (h hab)

theorem rel_trans {S : β → γ → Prop} {T : α → γ → Prop} (h : ∀ {a b c}, R a b → S b c → T a c) {c : Option γ}
    (hab : Option.Rel R a b) (hbc : Option.Rel S b c) : Option.Rel T a c := by
  cases hab with
  | none => cases hbc; exact .none
  | some hab => cases hbc with
    | some hbc => exact .some (h hab hbc)

/-- A comparison in one run carries over to another: if `a` and `b` are related, and `a` goes with `x` and `b`
with `y`, then `x` and `y` are related. -/
theorem rel_transfer {S : α → γ → Prop} {S' : β → δ → Prop} {T : γ → δ → Prop}
    (h : ∀ {a b x y}, R a b → S a x → S' b y → T x y) {x : Option γ} {y : Option δ} (hab : Option.Rel R a b)
    (hax : Option.Rel S a x) (hby : Option.Rel S' b y) : Option.Rel T x y := by
  cases hab with
  | none => cases hax; cases hby; exact .none
  | some hab => cases hax with
    | some hax => cases hby with
      | some hby => exact .some (h hab hax hby)

end Rel

/-! ## Patterns up to their sources -/

namespace Pattern

/-- The pattern without its sources: what does not change while a program is analysed. -/
def bare (p : Pattern) : Pattern := { p with sources := [] }

/-- The patterns differ at most in the order of their sources. -/
structure Alike (p q : Pattern) : Prop where
  bare : p.bare = q.bare
  sources : ∀ s, s ∈ p.sources ↔ s ∈ q.sources

theorem Alike.refl (p : Pattern) : p.Alike p := ⟨rfl, fun _ => Iff.rfl⟩

theorem Alike.symm {p q : Pattern} (h : p.Alike q) : q.Alike p := ⟨h.bare.symm, fun s => (h.sources s).symm⟩

theorem Alike.trans {p q r : Pattern} (h : p.Alike q) (h' : q.Alike r) : p.Alike r :=
  ⟨h.bare.trans h'.bare, fun s => (h.sources s).trans (h'.sources s)⟩

theorem Alike.isSource {p q : Pattern} (h : p.Alike q) (s : String) : p.isSource s = q.isSource s := by
  unfold Pattern.isSource
  rw [decide_eq_decide]
  exact h.sources s

section Bare

variable {p q : Pattern} (h : p.bare = q.bare)

include h

theorem name_of_bare : p.name = q.name := (Pattern.mk.inj h).1

theorem isSink_of_bare (s : String) : p.isSink s = q.isSink s := by
  unfold isSink; rw [(Pattern.mk.inj h).2.2.1]

theorem sanitizers_of_bare : p.sanitizers = q.sanitizers := by
  unfold sanitizers; rw [(Pattern.mk.inj h).2.2.2.1]

theorem isSanitizer_of_bare (s : String) : p.isSanitizer s = q.isSanitizer s := by
  unfold isSanitizer; rw [sanitizers_of_bare h]

theorem shows?_of_bare (s : String) : p.shows? s = q.shows? s := by
  unfold shows?; rw [(Pattern.mk.inj h).2.2.2.1]

theorem implicit_of_bare : p.implicit = q.implicit := (Pattern.mk.inj h).2.2.2.2.2

theorem display_of_bare [SetOrder] (edition : Edition) (path : List Mark) :
    p.display edition path = q.display edition path := by
  have hd : p.displays = q.displays := by
    funext m
    cases m with
    | sanitizer name line => simp only [displays, shows?_of_bare h]
    | remark content => rfl
  unfold display
  rw [hd]

end Bare

theorem Alike.addSource {p q : Pattern} (h : p.Alike q) (name : String) :
    (p.addSource name).Alike (q.addSource name) := by
  refine ⟨h.bare, fun s => ?_⟩
  show s ∈ adjoin p.sources name ↔ s ∈ adjoin q.sources name
  rw [mem_adjoin, mem_adjoin, h.sources s]

theorem same_iff_of_bare {p q : Pattern} (h : p.bare = q.bare) : p.same q = true ↔ p.Alike q := by
  obtain ⟨hn, -, hk, -, -, hi⟩ := Pattern.mk.inj h
  have hrefl : ∀ l : List String, sameMembers l l = true := fun l => sameMembers_iff.2 fun _ => Iff.rfl
  unfold same
  rw [hn, hk, sanitizers_of_bare h, hi, hrefl, hrefl]
  simp only [decide_true, Bool.true_and, Bool.and_true, sameMembers_iff]
  exact ⟨fun hs => ⟨h, hs⟩, Alike.sources⟩

end Pattern

/-- The references are to the same place of a policy, or to kept patterns that are alike. -/
inductive PatternRef.Alike : PatternRef → PatternRef → Prop where
  | own (i : Nat) : Alike (.own i) (.own i)
  | kept {p q : Pattern} : p.Alike q → Alike (.kept p) (.kept q)

theorem PatternRef.Alike.refl : ∀ r : PatternRef, r.Alike r
  | .own i => .own i
  | .kept p => .kept (.refl p)

theorem PatternRef.Alike.symm : ∀ {r r' : PatternRef}, r.Alike r' → r'.Alike r
  | _, _, .own i => .own i
  | _, _, .kept h => .kept h.symm

theorem PatternRef.Alike.trans : ∀ {r r' r'' : PatternRef}, r.Alike r' → r'.Alike r'' → r.Alike r''
  | _, _, _, .own i, .own _ => .own i
  | _, _, _, .kept h, .kept h' => .kept (h.trans h')

/-! ## The patterns of a path -/

namespace Path

theorem getD_alike : ∀ {ps qs : List Pattern}, List.Forall₂ Pattern.Alike ps qs → ∀ i : Nat,
    (ps.getD i default).Alike (qs.getD i default)
  | _, _, .nil, _ => .refl _
  | _, _, .cons h _, 0 => h
  | _, _, .cons _ hs, i + 1 => getD_alike hs i

/-- What a reference shows is alike on paths whose patterns are. -/
theorem view_alike {p q : Path} (h : List.Forall₂ Pattern.Alike p.patterns q.patterns) {r r' : PatternRef}
    (hr : r.Alike r') : (p.view r).Alike (q.view r') := by
  cases hr with
  | own i => exact getD_alike h i
  | kept hk => exact hk

theorem view_own {p : Path} {i : Nat} (h : i < p.patterns.length) : p.view (.own i) = p.patterns[i] := by
  show p.patterns.getD i default = _
  rw [List.getD_eq_getElem?_getD, List.getElem?_eq_getElem h]
  rfl

theorem view_own_mem {p : Path} {i : Nat} (h : i < p.patterns.length) : p.view (.own i) ∈ p.patterns :=
  view_own h ▸ List.getElem_mem h

theorem view_own_default {p : Path} {i : Nat} (h : ¬ i < p.patterns.length) : p.view (.own i) = default := by
  show p.patterns.getD i default = default
  rw [List.getD_eq_getElem?_getD, List.getElem?_eq_none (Nat.le_of_not_lt h)]
  rfl

theorem view_own_mem_or_default (p : Path) (i : Nat) : p.view (.own i) ∈ p.patterns ∨ p.view (.own i) = default :=
  (Nat.lt_or_ge i p.patterns.length).imp view_own_mem fun h => view_own_default (Nat.not_lt.2 h)

theorem refs_eq {p q : Path} (h : p.patterns.map Pattern.bare = q.patterns.map Pattern.bare) :
    p.refs = q.refs := by
  have hl : p.patterns.length = q.patterns.length := by simpa using congrArg List.length h
  unfold refs
  rw [hl]

theorem view_own_bare {p q : Path} (h : p.patterns.map Pattern.bare = q.patterns.map Pattern.bare) (i : Nat) :
    (p.view (.own i)).bare = (q.view (.own i)).bare := by
  have hi := congrArg (fun l : List Pattern => l[i]?) h
  simp only [List.getElem?_map] at hi
  show (p.patterns.getD i default).bare = (q.patterns.getD i default).bare
  rw [List.getD_eq_getElem?_getD, List.getD_eq_getElem?_getD]
  cases hp : p.patterns[i]? <;> cases hq : q.patterns[i]? <;> simp_all

/-- The label without flows depends on the names of the patterns only. -/
theorem clean_eq {p q : Path} (h : p.patterns.map Pattern.bare = q.patterns.map Pattern.bare) :
    p.clean = q.clean := by
  unfold clean MultiLabel.ofPatterns
  rw [refs_eq h]
  congr 2
  refine List.map_congr_left fun r hr => ?_
  obtain ⟨i, -, rfl⟩ := List.mem_map.1 hr
  rw [Pattern.name_of_bare (view_own_bare h i)]

/-- An entry of the label without flows has no flows, and refers to a pattern of its name. -/
theorem get?_clean {p : Path} {name : String} {t : Tracked PatternRef}
    (h : p.clean.entries.get? name = some t) :
    ∃ i, i < p.patterns.length ∧ t = { pattern := .own i } ∧ (p.view (.own i)).name = name := by
  obtain ⟨r, hr, he⟩ := List.mem_map.1 (Table.mem_of_get?_ofList h)
  obtain ⟨i, hi, rfl⟩ := List.mem_map.1 hr
  cases he
  exact ⟨i, List.mem_range.1 hi, rfl, rfl⟩

theorem not_has_clean (p : Path) (name s : String) (f : Flow) : ¬ p.clean.Has name s f := by
  rintro ⟨t, h, hf⟩
  obtain ⟨i, hi, rfl, rfl⟩ := get?_clean h
  exact Label.holds_empty s f hf

theorem contains_clean {p : Path} {i : Nat} (h : i < p.patterns.length) :
    p.clean.entries.contains (p.view (.own i)).name = true := by
  refine Table.contains_ofList ?_
  rw [List.map_map]
  exact List.mem_map.2 ⟨.own i, List.mem_map.2 ⟨i, List.mem_range.2 h, rfl⟩, rfl⟩

end Path

/-! ## Policies whose patterns of one name have the same sanitizers -/

/-- Every sanitizer of a pattern is one of all patterns of its name. The plain edition asks for no modes. -/
def Policy.Coherent (edition : Edition) (policy : List Pattern) : Prop :=
  edition = .scoped → ∀ p ∈ policy, ∀ q ∈ policy, p.name = q.name → p.sanitizers ⊆ q.sanitizers

/-- A policy is coherent if no two of its patterns share a name. -/
theorem Policy.coherent_of_nodup {policy : List Pattern} (h : (policy.map (·.name)).Nodup) (edition : Edition) :
    Policy.Coherent edition policy := by
  intro _ p hp q hq hname
  obtain rfl : p = q := List.inj_on_of_nodup_map h hp hq hname
  exact List.Subset.refl _

/-- A call that is a sanitizer of the pattern that labels of a name are for is one of some pattern of the name. -/
theorem Policy.exists_sanitizer {policy : List Pattern} {name function : String}
    (hsan : ∀ t, (Path.start policy).clean.entries.get? name = some t →
      ((Path.start policy).view t.pattern).isSanitizer function = true)
    {p : Pattern} (hp : p ∈ policy) (hname : p.name = name) :
    ∃ q ∈ policy, q.name = name ∧ q.isSanitizer function = true := by
  -- some pattern of the name is in the policy, so the label without flows has an entry for it
  obtain ⟨i, hi, hpi⟩ := List.mem_iff_getElem.1 hp
  have hview : (Path.start policy).view (.own i) = p := (Path.view_own hi).trans hpi
  have hmem := Path.contains_clean (p := Path.start policy) hi
  rw [hview, hname] at hmem
  obtain ⟨t, ht⟩ := Option.isSome_iff_exists.1 hmem
  have hs := hsan t ht
  obtain ⟨j, hj, rfl, hn⟩ := Path.get?_clean ht
  exact ⟨_, Path.view_own_mem hj, hn, hs⟩

/-- Such a call is listed by all patterns of the name. -/
theorem Policy.Coherent.listed {edition : Edition} {policy : List Pattern} (h : Policy.Coherent edition policy)
    {name function : String} (hsan : ∀ t, (Path.start policy).clean.entries.get? name = some t →
      ((Path.start policy).view t.pattern).isSanitizer function = true)
    {p : Pattern} (hp : p ∈ policy) (hname : p.name = name) (line : Int) :
    (Mark.sanitizer function line).Listed edition p := by
  refine ⟨function, line, rfl, fun he => ?_⟩
  obtain ⟨q, hq, hn, hs⟩ := Policy.exists_sanitizer hsan hp hname
  exact Pattern.isSome_shows? (h he q hq p hp (hn.trans hname.symm) (of_decide_eq_true hs))

/-! ## Accords -/

/-- How closely two runs are compared, and what may occur in them. -/
structure Accord where
  edition : Edition
  /-- The patterns of the runs; their sources may grow. -/
  policy : List Pattern
  /-- Labels refer to the same patterns, and reports show the same explicit flows. -/
  strict : Prop
  /-- Control labels have the same flows. -/
  full : Prop
  /-- No part of the program carries the fault of an unsettled loop. -/
  clear : Prop
  /-- The names of variables and sources that may occur. -/
  name : String → Prop
  /-- The flows that may occur, for a pattern name and a source. -/
  flow : String → String → Flow → Prop
  /-- The references that may occur, for a pattern name. -/
  ref : String → PatternRef → Prop

namespace Accord

variable (c : Accord)

/-- The label without flows. -/
def blank : Taint := (Path.start c.policy).clean

/-- The labels of a run that an accord allows. Unless references are compared, only patterns of the
policy are tracked. -/
structure Tame (m : Taint) : Prop where
  tracked : ∀ name t, m.entries.get? name = some t → c.strict ∨ c.blank.entries.contains name = true
  refs : ∀ name t, m.entries.get? name = some t → c.ref name t.pattern
  sources : ∀ name s, m.Lists name s → c.name s
  flows : ∀ name s f, m.Has name s f → c.flow name s f

/-- The label refers to the path's own patterns, for each pattern of the policy. -/
def Fresh (m : Taint) : Prop :=
  ∀ name t, c.blank.entries.get? name = some t → ∃ u, m.entries.get? name = some u ∧ u.pattern = t.pattern

/-- The entries have the same lists of flows. -/
structure SameEntry (t u : Tracked PatternRef) : Prop where
  label : t.label.Alike u.label
  refs : c.strict → t.pattern.Alike u.pattern

/-- The explicit labels have the same lists of flows. -/
def Same (m m' : Taint) : Prop := ∀ name, Option.Rel c.SameEntry (m.entries.get? name) (m'.entries.get? name)

/-- The control labels have the same flows, if the accord compares them. -/
def SameControl (m m' : Taint) : Prop := c.full → ∀ name s f, m.Has name s f ↔ m'.Has name s f

/-- Stored explicit labels of two runs. -/
structure Stored (m m' : Taint) : Prop where
  left : c.Tame m
  right : c.Tame m'
  same : c.Same m m'

/-- Explicit labels of two runs while they are computed. -/
structure Working (m m' : Taint) : Prop extends c.Stored m m' where
  fresh : c.Fresh m
  fresh' : c.Fresh m'

/-- Control labels of two runs. -/
structure Control (m m' : Taint) : Prop where
  left : c.Tame m
  right : c.Tame m'
  same : c.SameControl m m'

/-- Control labels of two runs while they are computed. -/
structure ControlWorking (m m' : Taint) : Prop extends c.Control m m' where
  fresh : c.Fresh m
  fresh' : c.Fresh m'

/-- What an accord has to respect: flows carry sanitizers that their patterns list, the references
are closed under forks, and control labels are compared only where the patterns are all the path's. -/
structure Lawful : Prop where
  listed : ∀ name s f, c.flow name s f →
    ∀ p ∈ c.policy, p.name = name → ∀ m ∈ f.marks, m.Listed c.edition p
  own : ∀ i, i < c.policy.length → c.ref ((Path.start c.policy).view (.own i)).name (.own i)
  kept : ∀ name r (p : Path), p.patterns.map Pattern.bare = c.policy.map Pattern.bare →
    (∀ q ∈ p.patterns, ∀ s ∈ q.sources, c.name s) → c.ref name r → c.ref name (.kept (p.view r))
  apart : c.full → ¬ c.strict

/-- A name may be read at a spot, and be a source there. -/
structure Reads (id : String) (spot : Spot) : Prop where
  name : c.name id
  raw : ∀ name scope, c.flow name id { position := c.edition.place spot scope }

/-- A function may be called at a line, and be a sanitizer there. -/
def Sanitizes [SetOrder] (function : String) (line : Int) : Prop :=
  ∀ name s f, c.flow name s f →
    (∀ t, c.blank.entries.get? name = some t → ((Path.start c.policy).view t.pattern).isSanitizer function = true) →
    c.flow name s (f.sanitize (.sanitizer function line))

variable {c}

/-! ## Labels of one run -/

theorem tame_blank (hc : c.Lawful) : c.Tame c.blank := by
  refine ⟨fun name t h => ?_, fun name t h => ?_, ?_, ?_⟩
  · exact .inr (by rw [Table.contains, h]; rfl)
  · obtain ⟨i, hi, rfl, rfl⟩ := Path.get?_clean h
    exact hc.own i hi
  · rintro name s ⟨t, h, hs⟩
    obtain ⟨i, hi, rfl, rfl⟩ := Path.get?_clean h
    cases hs
  · rintro name s f ⟨t, h, hf⟩
    obtain ⟨i, hi, rfl, rfl⟩ := Path.get?_clean h
    exact absurd hf (Label.holds_empty s f)

theorem fresh_blank : c.Fresh c.blank := fun _ t h => ⟨t, h, rfl⟩

theorem contains_blank {name : String} (h : name ∈ c.policy.map (·.name)) : c.blank.entries.contains name = true := by
  obtain ⟨p, hp, rfl⟩ := List.mem_map.1 h
  obtain ⟨i, hi, rfl⟩ := List.mem_iff_getElem.1 hp
  have hmem := Path.contains_clean (p := Path.start c.policy) hi
  rw [Path.view_own (p := Path.start c.policy) hi] at hmem
  exact hmem

theorem Tame.combine [SetOrder] {a b : Taint} (ha : c.Tame a) (hb : c.Tame b) : c.Tame (a.combine b) := by
  refine ⟨fun name t h => ?_, fun name t h => ?_, fun name s h => ?_, fun name s f h => ?_⟩
  · rcases MultiLabel.get?_combine_some h with ⟨u, hu, -⟩ | ⟨-, hu⟩
    · exact ha.tracked name u hu
    · exact hb.tracked name t hu
  · rcases MultiLabel.get?_combine_some h with ⟨u, hu, hp⟩ | ⟨-, hu⟩
    · rw [hp]; exact ha.refs name u hu
    · exact hb.refs name t hu
  · exact (MultiLabel.lists_combine.1 h).elim (ha.sources name s) (hb.sources name s)
  · rcases MultiLabel.has_combine.1 h with h | h
    · exact ha.flows name s f h
    · exact hb.flows name s f h

theorem Fresh.combine [SetOrder] {a : Taint} (ha : c.Fresh a) (b : Taint) : c.Fresh (a.combine b) := by
  intro name t ht
  obtain ⟨u, hu, hp⟩ := ha name t ht
  rw [MultiLabel.get?_combine, hu]
  cases b.entries.get? name with
  | none => exact ⟨u, rfl, hp⟩
  | some v => exact ⟨MultiLabel.join u v, rfl, hp⟩

theorem Fresh.addSource {m : Taint} (hm : c.Fresh m) (p : Path) (source : String) (position : Position) :
    c.Fresh (p.addSource m source position) := by
  intro name t ht
  obtain ⟨u, hu, hp⟩ := hm name t ht
  unfold Path.addSource
  rw [MultiLabel.get?_addSource, hu]
  refine ⟨_, rfl, ?_⟩
  dsimp only
  split <;> exact hp

theorem Fresh.addSanitizer [SetOrder] {m : Taint} (hm : c.Fresh m) (view : PatternRef → Pattern) (function : String)
    (line : Int) : c.Fresh (m.addSanitizer view function line) := by
  intro name t ht
  obtain ⟨u, hu, hp⟩ := hm name t ht
  rw [MultiLabel.get?_addSanitizer, hu]
  refine ⟨_, rfl, ?_⟩
  dsimp only
  split <;> exact hp

theorem Tame.addSource {m : Taint} (hm : c.Tame m) (p : Path) {source : String} {position : Position}
    (hname : c.name source) (h : ∀ name, c.flow name source { position }) :
    c.Tame (p.addSource m source position) := by
  refine ⟨fun name t ht => ?_, fun name t ht => ?_, fun name s hs => ?_, fun name s f hf => ?_⟩
  · obtain ⟨u, hu, -⟩ := MultiLabel.get?_addSource_some ht
    exact hm.tracked name u hu
  · obtain ⟨u, hu, hp⟩ := MultiLabel.get?_addSource_some ht
    rw [hp]; exact hm.refs name u hu
  · rcases MultiLabel.lists_addSource hs with hs | rfl
    · exact hm.sources name s hs
    · exact hname
  · rcases MultiLabel.has_addSource.1 hf with hf | ⟨rfl, rfl, -⟩
    · exact hm.flows name s f hf
    · exact h name

theorem Tame.addSanitizer [SetOrder] {m : Taint} (hm : c.Tame m) (hf : c.Fresh m) {p : Path}
    (hp : p.patterns.map Pattern.bare = c.policy.map Pattern.bare) {function : String} {line : Int}
    (h : c.Sanitizes function line) : c.Tame (m.addSanitizer p.view function line) := by
  refine ⟨fun name t ht => ?_, fun name t ht => ?_, fun name s hs => ?_, fun name s f hh => ?_⟩
  · obtain ⟨u, hu, -⟩ := MultiLabel.get?_addSanitizer_some ht
    exact hm.tracked name u hu
  · obtain ⟨u, hu, hr⟩ := MultiLabel.get?_addSanitizer_some ht
    rw [hr]; exact hm.refs name u hu
  · exact hm.sources name s (MultiLabel.lists_addSanitizer hs)
  · obtain ⟨t, ht, g, hg, rfl⟩ := MultiLabel.has_addSanitizer.1 hh
    have hflow := hm.flows name s g ⟨t, ht, hg⟩
    split
    · rename_i hs
      refine h name s g hflow fun u hu => ?_
      -- the pattern behind a fresh label is the path's own, so its sanitizers are those of the policy
      obtain ⟨t', ht', hr⟩ := hf name u hu
      rw [ht] at ht'
      cases ht'
      obtain ⟨i, -, rfl, -⟩ := Path.get?_clean hu
      rw [hr] at hs
      rw [← hs]
      exact (Pattern.isSanitizer_of_bare (Path.view_own_bare (q := Path.start c.policy) hp i) function).symm
    · exact hflow

/-! ## Labels of two runs -/

theorem SameEntry.refl (t : Tracked PatternRef) : c.SameEntry t t := ⟨.refl _, fun _ => .refl _⟩

theorem SameEntry.symm {t u : Tracked PatternRef} (h : c.SameEntry t u) : c.SameEntry u t :=
  ⟨h.label.symm, fun hs => (h.refs hs).symm⟩

theorem SameEntry.trans {t u v : Tracked PatternRef} (h : c.SameEntry t u) (h' : c.SameEntry u v) :
    c.SameEntry t v :=
  ⟨h.label.trans h'.label, fun hs => (h.refs hs).trans (h'.refs hs)⟩

theorem Same.some {m m' : Taint} (h : c.Same m m') {name : String} {t : Tracked PatternRef}
    (ht : m.entries.get? name = some t) : ∃ u, m'.entries.get? name = some u ∧ c.SameEntry t u := by
  have hr := h name
  rw [ht] at hr
  generalize m'.entries.get? name = o at hr
  cases hr with
  | some hs => exact ⟨_, rfl, hs⟩

theorem Same.refl (m : Taint) : c.Same m m := by
  intro name
  cases m.entries.get? name with
  | none => exact .none
  | some t => exact .some (.refl t)

theorem Same.symm {m m' : Taint} (h : c.Same m m') : c.Same m' m := fun name => rel_symm (fun hs => hs.symm) (h name)

theorem Same.trans {m m' m'' : Taint} (h : c.Same m m') (h' : c.Same m' m'') : c.Same m m'' := fun name =>
  rel_trans (fun hs hs' => hs.trans hs') (h name) (h' name)

theorem Same.has {m m' : Taint} (h : c.Same m m') (name s : String) (f : Flow) :
    m.Has name s f ↔ m'.Has name s f := by
  constructor
  · rintro ⟨t, ht, hf⟩
    obtain ⟨u, hu, hs⟩ := h.some ht
    exact ⟨u, hu, (hs.label.holds s f).1 hf⟩
  · rintro ⟨t, ht, hf⟩
    obtain ⟨u, hu, hs⟩ := h.symm.some ht
    exact ⟨u, hu, (hs.label.holds s f).1 hf⟩

theorem Same.combine [SetOrder] {a a' b b' : Taint} (ha : c.Same a a') (hb : c.Same b b') :
    c.Same (a.combine b) (a'.combine b') := by
  intro name
  rw [MultiLabel.get?_combine, MultiLabel.get?_combine]
  have hra := ha name
  have hrb := hb name
  generalize a.entries.get? name = x at hra ⊢
  generalize a'.entries.get? name = x' at hra ⊢
  generalize b.entries.get? name = y at hrb ⊢
  generalize b'.entries.get? name = y' at hrb ⊢
  cases hra with
  | none =>
    rw [Option.merge_none_left, Option.merge_none_left]
    exact hrb
  | some hs => cases hrb with
    | none => exact .some hs
    | some hs' => exact .some ⟨hs.label.combine hs'.label, hs.refs⟩

theorem Working.control {m m' : Taint} (h : c.Working m m') : c.ControlWorking m m' :=
  ⟨⟨h.left, h.right, fun _ => h.same.has⟩, h.fresh, h.fresh'⟩

theorem working_blank (hc : c.Lawful) : c.Working c.blank c.blank :=
  ⟨⟨tame_blank hc, tame_blank hc, .refl _⟩, fresh_blank, fresh_blank⟩

theorem Working.combine [SetOrder] {a a' b b' : Taint} (ha : c.Working a a') (hb : c.Stored b b') :
    c.Working (a.combine b) (a'.combine b') :=
  ⟨⟨ha.left.combine hb.left, ha.right.combine hb.right, ha.same.combine hb.same⟩,
    ha.fresh.combine b, ha.fresh'.combine b'⟩

theorem Control.combine [SetOrder] {a a' b b' : Taint} (ha : c.Control a a') (hb : c.Control b b') :
    c.Control (a.combine b) (a'.combine b') := by
  refine ⟨ha.left.combine hb.left, ha.right.combine hb.right, fun hfull name s f => ?_⟩
  rw [MultiLabel.has_combine, MultiLabel.has_combine, ha.same hfull, hb.same hfull]

theorem ControlWorking.combine [SetOrder] {a a' b b' : Taint} (ha : c.ControlWorking a a') (hb : c.Control b b') :
    c.ControlWorking (a.combine b) (a'.combine b') :=
  ⟨ha.toControl.combine hb, ha.fresh.combine b, ha.fresh'.combine b'⟩

/-- Labels that are being computed refer to patterns that are alike. -/
theorem Working.view_alike {m m' : Taint} (h : c.Working m m') {p q : Path}
    (hpq : List.Forall₂ Pattern.Alike p.patterns q.patterns) {name : String} {t u : Tracked PatternRef}
    (ht : m.entries.get? name = some t) (hu : m'.entries.get? name = some u) :
    (p.view t.pattern).Alike (q.view u.pattern) := by
  apply Path.view_alike hpq
  rcases h.left.tracked name t ht with hs | hb
  · obtain ⟨u', hu', hsame⟩ := h.same.some ht
    rw [hu] at hu'
    cases hu'
    exact hsame.refs hs
  · obtain ⟨b, hb⟩ := Option.isSome_iff_exists.1 hb
    obtain ⟨t', ht', hp⟩ := h.fresh name b hb
    obtain ⟨u', hu', hp'⟩ := h.fresh' name b hb
    rw [ht] at ht'
    rw [hu] at hu'
    cases ht'
    cases hu'
    rw [hp, hp']
    exact .refl _

/-- Changes to the labels of both runs that depend on the patterns behind them only in what alike patterns share. -/
theorem Working.rel_map {m m' : Taint} (h : c.Working m m') {p q : Path}
    (hpq : List.Forall₂ Pattern.Alike p.patterns q.patterns) {f g : Tracked PatternRef → Tracked PatternRef}
    (hfg : ∀ {t u}, (p.view t.pattern).Alike (q.view u.pattern) → c.SameEntry t u → c.SameEntry (f t) (g u))
    (name : String) : Option.Rel c.SameEntry ((m.entries.get? name).map f) ((m'.entries.get? name).map g) := by
  cases ht : m.entries.get? name with
  | none =>
    have hr := h.same name
    rw [ht] at hr
    generalize m'.entries.get? name = o at hr ⊢
    cases hr
    exact .none
  | some t =>
    obtain ⟨u, hu, hsame⟩ := h.same.some ht
    rw [hu]
    exact .some (hfg (h.view_alike hpq ht hu) hsame)

theorem Working.addSource {m m' : Taint} (h : c.Working m m') {p q : Path}
    (hpq : List.Forall₂ Pattern.Alike p.patterns q.patterns) {source : String} {position : Position}
    (hname : c.name source) (hs : ∀ name, c.flow name source { position }) :
    c.Working (p.addSource m source position) (q.addSource m' source position) := by
  refine ⟨⟨h.left.addSource p hname hs, h.right.addSource q hname hs, fun name => ?_⟩,
    h.fresh.addSource p _ _, h.fresh'.addSource q _ _⟩
  unfold Path.addSource
  rw [MultiLabel.get?_addSource, MultiLabel.get?_addSource]
  refine h.rel_map hpq (fun halike hsame => ?_) name
  rw [halike.isSource source]
  split
  · exact ⟨hsame.label.addSource _ _, hsame.refs⟩
  · exact hsame

theorem Working.addSanitizer [SetOrder] {m m' : Taint} (h : c.Working m m') {p q : Path}
    (hp : p.patterns.map Pattern.bare = c.policy.map Pattern.bare)
    (hq : q.patterns.map Pattern.bare = c.policy.map Pattern.bare)
    (hpq : List.Forall₂ Pattern.Alike p.patterns q.patterns) {function : String} {line : Int}
    (hs : c.Sanitizes function line) :
    c.Working (m.addSanitizer p.view function line) (m'.addSanitizer q.view function line) := by
  refine ⟨⟨h.left.addSanitizer h.fresh hp hs, h.right.addSanitizer h.fresh' hq hs, fun name => ?_⟩,
    h.fresh.addSanitizer _ _ _, h.fresh'.addSanitizer _ _ _⟩
  rw [MultiLabel.get?_addSanitizer, MultiLabel.get?_addSanitizer]
  refine h.rel_map hpq (fun halike hsame => ?_) name
  rw [Pattern.isSanitizer_of_bare halike.bare function]
  split
  · exact ⟨hsame.label.addSanitizer _ _, hsame.refs⟩
  · exact hsame

/-- A flow of a label that is computed passes a sanitizer in both runs or in none. -/
theorem ControlWorking.has_addSanitizer [SetOrder] {m m' : Taint} (hc : c.Lawful) (h : c.ControlWorking m m')
    (hfull : c.full) {p q : Path} (hp : p.patterns.map Pattern.bare = c.policy.map Pattern.bare)
    (hq : q.patterns.map Pattern.bare = c.policy.map Pattern.bare) {function : String} {line : Int}
    {name s : String} {f : Flow} (hf : (m.addSanitizer p.view function line).Has name s f) :
    (m'.addSanitizer q.view function line).Has name s f := by
  obtain ⟨t, ht, g, hg, rfl⟩ := MultiLabel.has_addSanitizer.1 hf
  obtain ⟨u, hu, hg'⟩ := (h.same hfull name s g).1 ⟨t, ht, hg⟩
  refine MultiLabel.has_addSanitizer.2 ⟨u, hu, g, hg', ?_⟩
  -- control labels are compared only where every tracked pattern is the path's own
  have hb := (h.left.tracked name t ht).resolve_left (hc.apart hfull)
  obtain ⟨b, hb⟩ := Option.isSome_iff_exists.1 hb
  obtain ⟨t', ht', hr⟩ := h.fresh name b hb
  obtain ⟨u', hu', hr'⟩ := h.fresh' name b hb
  obtain ⟨i, -, rfl, -⟩ := Path.get?_clean hb
  rw [ht] at ht'
  rw [hu] at hu'
  cases ht'
  cases hu'
  rw [hr, hr', Pattern.isSanitizer_of_bare (Path.view_own_bare (hp.trans hq.symm) i) function]

theorem ControlWorking.symm {m m' : Taint} (h : c.ControlWorking m m') : c.ControlWorking m' m :=
  ⟨⟨h.right, h.left, fun hfull name s f => (h.same hfull name s f).symm⟩, h.fresh', h.fresh⟩

theorem ControlWorking.addSanitizer [SetOrder] {m m' : Taint} (hc : c.Lawful) (h : c.ControlWorking m m') {p q : Path}
    (hp : p.patterns.map Pattern.bare = c.policy.map Pattern.bare)
    (hq : q.patterns.map Pattern.bare = c.policy.map Pattern.bare) {function : String} {line : Int}
    (hs : c.Sanitizes function line) :
    c.ControlWorking (m.addSanitizer p.view function line) (m'.addSanitizer q.view function line) :=
  ⟨⟨h.left.addSanitizer h.fresh hp hs, h.right.addSanitizer h.fresh' hq hs, fun hfull _ _ _ =>
    ⟨h.has_addSanitizer hc hfull hp hq, h.symm.has_addSanitizer hc hfull hq hp⟩⟩,
    h.fresh.addSanitizer _ _ _, h.fresh'.addSanitizer _ _ _⟩

/-! ## Labels of a fork -/

theorem Tame.keep (hc : c.Lawful) {m : Taint} (hm : c.Tame m) {p : Path}
    (hp : p.patterns.map Pattern.bare = c.policy.map Pattern.bare)
    (hs : ∀ q ∈ p.patterns, ∀ s ∈ q.sources, c.name s) : c.Tame (m.mapPatterns p.keep) := by
  refine ⟨fun name t ht => ?_, fun name t ht => ?_, fun name s hl => ?_, fun name s f hf => ?_⟩
  · rw [MultiLabel.get?_mapPatterns] at ht
    obtain ⟨u, hu, -⟩ := Option.map_eq_some_iff.1 ht
    exact hm.tracked name u hu
  · rw [MultiLabel.get?_mapPatterns] at ht
    obtain ⟨u, hu, rfl⟩ := Option.map_eq_some_iff.1 ht
    exact hc.kept name u.pattern p hp hs (hm.refs name u hu)
  · exact hm.sources name s (MultiLabel.lists_mapPatterns.1 hl)
  · exact hm.flows name s f (MultiLabel.has_mapPatterns.1 hf)

theorem Same.keep {m m' : Taint} (h : c.Same m m') {p q : Path}
    (hpq : List.Forall₂ Pattern.Alike p.patterns q.patterns) :
    c.Same (m.mapPatterns p.keep) (m'.mapPatterns q.keep) := by
  intro name
  rw [MultiLabel.get?_mapPatterns, MultiLabel.get?_mapPatterns]
  exact rel_map (fun hs => ⟨hs.label, fun h => .kept (Path.view_alike hpq (hs.refs h))⟩) (h name)

theorem SameControl.keep {m m' : Taint} (h : c.SameControl m m') (p q : Path) :
    c.SameControl (m.mapPatterns p.keep) (m'.mapPatterns q.keep) := by
  intro hfull name s f
  rw [MultiLabel.has_mapPatterns, MultiLabel.has_mapPatterns]
  exact h hfull name s f

end Accord

end TaintFlow
