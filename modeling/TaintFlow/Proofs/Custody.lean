import TaintFlow.Proofs.Growth

/-
Properties of all labels that a path holds. A path stores labels in three places: on variables, on what
conditions left on variables, and on its control stack. The lemmas about `Path.Stores` say which labels can be
new after a step.

A `Custody` is an invariant of that kind. It says what a label must be, and what must hold of a path besides; if
the operations on labels respect it, so does every expression and every assignment.
-/
namespace TaintFlow

theorem Labelling.get?_update_some {π : Type} {g : Labelling π} {x y : String} {m k : MultiLabel π}
    (h : (g.update x m).get? y = some k) : k = m ∨ g.get? y = some k := by
  by_cases he : y = x
  · rw [he, get?_update_self] at h
    exact .inl (Option.some.inj h).symm
  · rw [get?_update_of_ne _ he] at h
    exact .inr h

/-! ## The labels of a path -/

namespace Path

/-- The multilabel is that of a variable, what conditions left on a variable, or that of a condition. -/
def Stores (p : Path) (m : Taint) : Prop :=
  (∃ x, p.labels.get? x = some m) ∨ (∃ x, p.controlLabels.get? x = some m) ∨ m ∈ p.control

variable {p : Path} {m k n : Taint} {x : String}

theorem not_stores_start (patterns : List Pattern) (m : Taint) : ¬ (Path.start patterns).Stores m := by
  rintro (⟨x, hx⟩ | ⟨x, hx⟩ | hm)
  · cases hx
  · cases hx
  · cases hm

/-- The labels of a copy are those of the path, with their patterns kept. -/
theorem stores_fork (h : p.fork.Stores m) : ∃ k, p.Stores k ∧ m = k.mapPatterns p.keep := by
  rcases h with ⟨x, hx⟩ | ⟨x, hx⟩ | hm
  · have hx : (p.labels.mapPatterns p.keep).get? x = some m := hx
    rw [Labelling.get?_mapPatterns] at hx
    obtain ⟨k, hk, rfl⟩ := Option.map_eq_some_iff.1 hx
    exact ⟨k, .inl ⟨x, hk⟩, rfl⟩
  · have hx : (p.controlLabels.mapPatterns p.keep).get? x = some m := hx
    rw [Labelling.get?_mapPatterns] at hx
    obtain ⟨k, hk, rfl⟩ := Option.map_eq_some_iff.1 hx
    exact ⟨k, .inr (.inl ⟨x, hk⟩), rfl⟩
  · obtain ⟨k, hk, rfl⟩ := List.mem_map.1 hm
    exact ⟨k, .inr (.inr hk), rfl⟩

theorem stores_pop (h : p.pop.Stores m) : p.Stores m := by
  rcases h with h | h | h
  · exact .inl h
  · exact .inr (.inl h)
  · exact .inr (.inr (List.dropLast_subset _ h))

theorem stores_push (h : (p.push k).Stores m) : p.Stores m ∨ m = k := by
  rcases h with h | h | h
  · exact .inl (.inl h)
  · exact .inl (.inr (.inl h))
  · rcases List.mem_append.1 h with h | h
    · exact .inl (.inr (.inr h))
    · exact .inr (List.mem_singleton.1 h)

theorem stores_update (h : { p with labels := p.labels.update x m }.Stores n) : p.Stores n ∨ n = m := by
  rcases h with ⟨y, hy⟩ | h | h
  · rcases Labelling.get?_update_some hy with rfl | hy
    · exact .inr rfl
    · exact .inl (.inl ⟨y, hy⟩)
  · exact .inl (.inr (.inl h))
  · exact .inl (.inr (.inr h))

theorem stores_assign
    (h : { p with labels := p.labels.update x m, controlLabels := p.controlLabels.update x k }.Stores n) :
    p.Stores n ∨ n = m ∨ n = k := by
  rcases h with ⟨y, hy⟩ | ⟨y, hy⟩ | h
  · rcases Labelling.get?_update_some hy with rfl | hy
    · exact .inr (.inl rfl)
    · exact .inl (.inl ⟨y, hy⟩)
  · rcases Labelling.get?_update_some hy with rfl | hy
    · exact .inr (.inr rfl)
    · exact .inl (.inr (.inl ⟨y, hy⟩))
  · exact .inl (.inr (.inr h))

end Path

/-! ## What is flagged -/

/-- What flagging adds to a report is a flow of the flagged value, for a pattern of the path that has the sink. -/
theorem Eval.recorded_flag_cases [SetOrder] {edition : Edition} {x : String} {spot : Spot} {m : Taint}
    {kind kind' : FlowKind} {w : World} {s : Subject} {marks : List Mark}
    (h : ((flag edition x spot m kind).run w).2.report.Recorded s kind' marks) :
    w.report.Recorded s kind' marks ∨ ∃ i f, i < w.path.patterns.length ∧
      (w.path.view (.own i)).isSink x = true ∧ m.Has (w.path.view (.own i)).name s.source f ∧
      f.position = s.sourceAt ∧ Report.imprint edition (w.path.view (.own i)) f.marks = .ok (some marks) ∧
      s.pattern = (w.path.view (.own i)).name ∧ s.sink = x ∧ s.sinkAt = edition.place spot w.path.scope ∧
      kind' = kind ∧ (kind = .implicit → (w.path.view (.own i)).implicit = true) := by
  rw [run_flag] at h
  split at h
  · exact .inl h
  · rcases Report.files_add.only w.report s kind' marks h with h | ⟨name, t, ht, hfiled⟩
    · exact .inl h
    · obtain ⟨hkind, himplicit, hpattern, hsink, hat, f, hf, hpos, himprint⟩ := hfiled
      obtain ⟨i, u, hi, hown, rfl, hx, hu, hl⟩ := Path.get?_detect ht
      rw [hown] at himplicit hpattern himprint
      rw [hl, Policy.holds_illegal] at hf
      exact .inr ⟨i, f, hi, hx, ⟨u, hu, hf.2⟩, hpos, himprint, hpattern, hsink, hat, hkind, himplicit⟩

/-! ## Invariants of labels -/

/-- An invariant of paths, of the labels that a path stores or computes, and of reports. -/
structure Custody where
  edition : Edition
  Kept : Path → Prop
  Later : Path → Path → Prop
  Sound : Path → Taint → Prop
  Reported : Report → Prop
  refl : ∀ p, Later p p
  trans : ∀ {p q r}, Later p q → Later q r → Later p r

namespace Custody

open Coupling (Mentioned Exposed Consulted)

/-- The invariant as one of worlds. -/
def discipline (c : Custody) : Discipline where
  edition := c.edition
  Inv w := c.Kept w.path ∧ c.Reported w.report
  Later v w := c.Later v.path w.path
  Value w := c.Sound w.path
  Stored w := c.Sound w.path
  refl w := c.refl w.path
  trans := c.trans

/-- The operations on labels respect the invariant, at the sites that are allowed. -/
structure Lawful [SetOrder] (c : Custody) (allowed : Site → Prop) : Prop where
  later : ∀ {p q m}, c.Later p q → c.Sound p m → c.Sound q m
  stores : ∀ {p m}, c.Kept p → p.Stores m → c.Sound p m
  /-- A path may find sources, and store labels that are sound. -/
  moves : ∀ {p q}, c.Kept p → q.scope = p.scope →
    List.Forall₂ (Pattern.Grows (Consulted allowed)) p.patterns q.patterns →
    (∀ m, q.Stores m → p.Stores m ∨ c.Sound p m) → c.Kept q ∧ c.Later p q
  combine : ∀ {p a b}, c.Sound p a → c.Sound p b → c.Sound p (a.combine b)
  clean : ∀ {p}, c.Kept p → c.Sound p p.clean
  source : ∀ {p x spot m}, c.Kept p → Mentioned allowed x spot → c.Sound p m →
    c.Sound p (p.addSource m x (c.edition.place spot p.scope))
  sanitized : ∀ {p r f spot m}, c.Kept p → allowed (.call r f spot) → c.Sound p m →
    c.Sound p (m.addSanitizer p.view f spot.line)
  flag : ∀ {w x spot m kind}, FlowKind.Known kind → c.Kept w.path → c.Reported w.report → Exposed allowed x spot →
    c.Sound w.path m → c.Reported ((Eval.flag c.edition x spot m kind).run w).2.report

variable {c : Custody} {allowed : Site → Prop}

theorem Lawful.writes [SetOrder] (h : c.Lawful allowed) : c.discipline.Writes allowed := by
  have hmoves : ∀ {w : World} {q : Path}, c.discipline.Inv w → q.scope = w.path.scope →
      List.Forall₂ (Pattern.Grows (Consulted allowed)) w.path.patterns q.patterns →
      (∀ m, q.Stores m → w.path.Stores m ∨ c.Sound w.path m) → c.discipline.Moves w q := by
    intro w q hw hscope hpatterns hs
    obtain ⟨hq, hlater⟩ := h.moves hw.1 hscope hpatterns hs
    exact ⟨⟨hq, hw.2⟩, hlater⟩
  -- only reading a variable makes patterns grow
  have hsame : ∀ patterns : List Pattern, List.Forall₂ (Pattern.Grows (Consulted allowed)) patterns patterns :=
    fun _ => List.forall₂_same.2 fun a _ => .refl a
  constructor
  case mark => exact fun hw _ => hmoves hw rfl (hsame _) fun m hm => .inl hm
  case assign =>
    intro w x spot m k hw _ hm hk
    refine hmoves hw rfl (hsame _) fun n hn => ?_
    rcases Path.stores_assign hn with hn | rfl | rfl
    · exact .inl hn
    · exact .inr hm
    · exact .inr hk
  case push =>
    intro w k hw hk
    refine hmoves hw rfl (hsame _) fun n hn => ?_
    rcases Path.stores_push hn with hn | rfl
    · exact .inl hn
    · exact .inr hk
  case toLawful =>
    constructor
    case value_later => exact fun ht hm => h.later ht hm
    case stored_later => exact fun ht hm => h.later ht hm
    case value_stored => exact fun hm => hm
    case value_combine => exact fun ha hb => h.combine ha hb
    case stored_combine => exact fun ha hb => h.combine ha hb
    case clean => exact fun hw => h.clean hw.1
    case label => exact fun hw hx => h.stores hw.1 (.inl ⟨_, hx⟩)
    case left => exact fun hw hx => h.stores hw.1 (.inr (.inl ⟨_, hx⟩))
    case control => exact fun hw hm => h.stores hw.1 (.inr (.inr hm))
    case source => exact fun hw hx hm => h.source hw.1 hx hm
    case sanitized => exact fun hw hs hm => h.sanitized hw.1 hs hm
    case sanitized_stored => exact fun hw hs hm => h.sanitized hw.1 hs hm
    case discover =>
      exact fun {w x} hw hx _ => hmoves hw rfl (Path.grows_discover hx w.path).patterns fun m hm => .inl hm
    case discoverImplicit =>
      exact fun {w x} hw hx _ => hmoves hw rfl (Path.grows_discoverImplicit hx w.path).patterns fun m hm => .inl hm
    case fill =>
      intro w x hw _ _ _
      refine hmoves hw rfl (hsame _) fun n hn => ?_
      rcases Path.stores_update hn with hn | rfl
      · exact .inl hn
      · exact .inr (h.clean hw.1)
    case flag =>
      intro w x spot m kind hkind hx hm hw
      have hpath := Eval.path_flag c.edition x spot m kind w
      refine ⟨⟨?_, h.flag hkind hw.1 hw.2 hx hm⟩, ?_, fun _ _ => trivial⟩
      · show c.Kept ((Eval.flag c.edition x spot m kind).run w).2.path
        rw [hpath]
        exact hw.1
      · show c.Later w.path ((Eval.flag c.edition x spot m kind).run w).2.path
        rw [hpath]
        exact c.refl w.path

end Custody

end TaintFlow
