import TaintFlow.Proofs.Bridge
import TaintFlow.Proofs.Completeness

/-
Two analyses of the plain edition, of which the second may know more sources. A `Tilt` names the flows that
only the second may have, by pattern name and source, and the names that tests may make sources of. What
conditions leave behind is not compared: the right side has the explicit flows of the left one and, up to the
flows that are spared, no others.

Of several patterns of a name, the last one that a value violates is reported, so that one more violation hides
another. A pattern that is spared flows is therefore the only one of its name, or what is reported under this
name is not compared.
-/
namespace TaintFlow

open Listing

/-- What the first report records, the second records too. -/
def Report.Kept (r r' : Report) : Prop := ∀ s kind marks, r.Recorded s kind marks → r'.Recorded s kind marks

theorem Report.Kept.refl (r : Report) : r.Kept r := fun _ _ _ h => h

theorem Report.Kept.trans {r r' r'' : Report} (h : r.Kept r') (h' : r'.Kept r'') : r.Kept r'' :=
  fun s kind marks hr => h' s kind marks (h s kind marks hr)

/-- How far the right one of two analyses may go beyond the left one. -/
structure Tilt where
  policy : List Pattern
  policy' : List Pattern
  /-- The flows that only the right side may have, by pattern name and source. -/
  spared : String → String → Prop
  /-- The names of patterns under which the reports are not compared. -/
  hidden : String → Prop
  /-- The names of patterns that may mind implicit flows on the right side only. -/
  raised : String → Prop
  /-- The names that tests may make sources of. -/
  taught : String → Prop

namespace Tilt

variable (t : Tilt)

/-- What may occur on the left side. -/
abbrev left : Accord := .sound t.policy False False

/-- What may occur on the right side. -/
abbrev right : Accord := .sound t.policy' False False

/-- The patterns ask for the same, up to sources that are spared. If only the second minds implicit flows, all
that a test may teach it is known to the first or spared. -/
structure Matches (a a' : Pattern) : Prop where
  name : a.name = a'.name
  sinks : ∀ s, a.isSink s = a'.isSink s
  sanitizers : ∀ s, a.isSanitizer s = a'.isSanitizer s
  sources : ∀ s, a.isSource s = true → a'.isSource s = true
  spared : ∀ s, a'.isSource s = true → a.isSource s = true ∨ t.spared a.name s
  implicit : a.implicit = true → a'.implicit = true
  taught : a'.implicit = true → a.implicit = true ∨
    t.raised a.name ∧ ∀ x, t.taught x → a.isSource x = true ∨ t.spared a.name x

/-- The right multilabel has the flows of the left one, and else only flows that are spared. -/
structure Image (m m' : Taint) : Prop where
  has : ∀ name s f, m.Has name s f → m'.Has name s f
  only : ∀ name s f, m'.Has name s f → m.Has name s f ∨ t.spared name s

/-- The paths of both sides, compared in their explicit labels. -/
structure Beside (p q : Path) : Prop where
  left : t.left.Tamed p
  right : t.right.Tamed q
  initialized : ∀ x, x ∈ p.initialized ↔ x ∈ q.initialized
  patterns : List.Forall₂ t.Matches p.patterns q.patterns
  labels : ∀ x, Option.Rel t.Image (p.labels.get? x) (q.labels.get? x)

/-- Only the right side may report what the finding is about. -/
def Exempt (s : Subject) : Prop := t.spared s.pattern s.source ∨ t.hidden s.pattern

/-- From the first reports to the second, the right side has come to record the explicit flows of the left one,
and else only flows that are spared, hidden names apart. -/
structure Told (ρ ρ' : Report × Report) : Prop where
  keeps : ρ.1.Kept ρ'.1
  keeps' : ρ.2.Kept ρ'.2
  told : ∀ s marks, ρ'.1.Recorded s .explicit marks →
    ρ.1.Recorded s .explicit marks ∨ ρ'.2.Recorded s .explicit marks ∨ t.hidden s.pattern
  only : ∀ s marks, ρ'.2.Recorded s .explicit marks →
    ρ.2.Recorded s .explicit marks ∨ ρ'.1.Recorded s .explicit marks ∨ t.Exempt s

/-- A pattern that is spared flows is the only one of its name, unless the name is hidden. -/
def Lawful : Prop := ∀ name s, t.spared name s → ¬ t.hidden name → (t.policy.map (·.name)).count name ≤ 1

variable {t} {p q : Path} {m m' k k' : Taint}

theorem matches_self (a : Pattern) : t.Matches a a :=
  ⟨rfl, fun _ => rfl, fun _ => rfl, fun _ h => h, fun _ h => .inl h, id, .inl⟩

theorem told_refl (ρ : Report × Report) : t.Told ρ ρ where
  keeps := .refl _
  keeps' := .refl _
  told _ _ h := .inl h
  only _ _ h := .inl h

theorem Told.trans {ρ ρ' ρ'' : Report × Report} (h : t.Told ρ ρ') (h' : t.Told ρ' ρ'') : t.Told ρ ρ'' where
  keeps := h.keeps.trans h'.keeps
  keeps' := h.keeps'.trans h'.keeps'
  told s marks hr := by
    rcases h'.told s marks hr with hr | hr
    · exact (h.told s marks hr).imp_right (Or.imp_left (h'.keeps' s .explicit marks))
    · exact .inr hr
  only s marks hr := by
    rcases h'.only s marks hr with hr | hr
    · exact (h.only s marks hr).imp_right (Or.imp_left (h'.keeps s .explicit marks))
    · exact .inr hr

/-- The coupling of two runs of the evaluator. -/
def coupling (t : Tilt) : Coupling where
  edition := .plain
  edition' := .plain
  Linked σ := t.Beside σ.1.path σ.2.path
  Later σ τ := t.Told (σ.1.report, σ.2.report) (τ.1.report, τ.2.report)
  Value _ m m' := t.left.Computed m ∧ t.right.Computed m' ∧ t.Image m m'
  Stored _ m m' := t.left.Tame m ∧ t.right.Tame m' ∧ t.Image m m'
  Pending _ m m' := t.left.Computed m ∧ t.right.Computed m'
  Control _ m m' := t.left.Tame m ∧ t.right.Tame m'
  refl _ := told_refl _
  trans := .trans

/-! ## Flows of both sides -/

theorem lawful_left : t.left.Lawful := Accord.lawful_sound False.elim

theorem lawful_right : t.right.Lawful := Accord.lawful_sound False.elim

theorem open_left [SetOrder] : t.left.Open := Accord.open_sound

theorem open_right [SetOrder] : t.right.Open := Accord.open_sound

theorem Image.combine [SetOrder] (hm : t.Image m m') (hk : t.Image k k') : t.Image (m.combine k) (m'.combine k') where
  has name s f h := by
    rw [MultiLabel.has_combine] at h ⊢
    exact h.imp (hm.has name s f) (hk.has name s f)
  only name s f h := by
    rw [MultiLabel.has_combine] at h ⊢
    rcases h with h | h
    · exact (hm.only name s f h).imp_left .inl
    · exact (hk.only name s f h).imp_left .inr

theorem image_clean (p q : Path) : t.Image p.clean q.clean where
  has name s f h := absurd h (p.not_has_clean name s f)
  only name s f h := absurd h (q.not_has_clean name s f)

theorem Image.keep (h : t.Image m m') (p q : Path) : t.Image (m.mapPatterns p.keep) (m'.mapPatterns q.keep) where
  has name s f hf := by
    rw [MultiLabel.has_mapPatterns] at hf ⊢
    exact h.has name s f hf
  only name s f hf := by
    rw [MultiLabel.has_mapPatterns] at hf ⊢
    exact h.only name s f hf

/-- The patterns of a name on both sides. -/
theorem Beside.named (h : t.Beside p q) (name : String) : List.Forall₂ t.Matches (p.named name) (q.named name) := by
  refine List.rel_filter (fun a a' hmatch => ?_) h.patterns
  dsimp only
  rw [hmatch.name]

theorem Beside.last_left (h : t.Beside p q) {name : String} {a : Pattern} (ha : (p.named name).getLast? = some a) :
    ∃ a', (q.named name).getLast? = some a' ∧ a.name = name ∧ t.Matches a a' := by
  have hrel := Bridge.forall₂_getLast? (h.named name)
  rw [ha] at hrel
  cases hlast : (q.named name).getLast? with
  | none => rw [hlast] at hrel; cases hrel
  | some a' =>
    rw [hlast] at hrel
    cases hrel with
    | some hmatch => exact ⟨a', rfl, (Path.mem_named.1 (List.mem_of_getLast? ha)).2, hmatch⟩

theorem Beside.last_right (h : t.Beside p q) {name : String} {a' : Pattern} (ha : (q.named name).getLast? = some a') :
    ∃ a, (p.named name).getLast? = some a ∧ a.name = name ∧ t.Matches a a' := by
  have hrel := Bridge.forall₂_getLast? (h.named name)
  rw [ha] at hrel
  cases hlast : (p.named name).getLast? with
  | none => rw [hlast] at hrel; cases hrel
  | some a =>
    rw [hlast] at hrel
    cases hrel with
    | some hmatch => exact ⟨a, rfl, (Path.mem_named.1 (List.mem_of_getLast? hlast)).2, hmatch⟩

section

variable [SetOrder] (h : t.Beside p q) (hm : t.left.Computed m) (hm' : t.right.Computed m') (himage : t.Image m m')

include h hm hm' himage

omit [SetOrder] in
theorem Beside.image_addSource (x : String) (position : Position) :
    t.Image (p.addSource m x position) (q.addSource m' x position) := by
  constructor
  · intro name s f hf
    rw [hm.has_addSource id h.left] at hf
    rw [hm'.has_addSource id h.right]
    rcases hf with hf | ⟨rfl, rfl, a, ha, hx⟩
    · exact .inl (himage.has name s f hf)
    · obtain ⟨a', ha', -, hmatch⟩ := h.last_left ha
      exact .inr ⟨rfl, rfl, a', ha', hmatch.sources s hx⟩
  · intro name s f hf
    rw [hm'.has_addSource id h.right] at hf
    rw [hm.has_addSource id h.left]
    rcases hf with hf | ⟨rfl, rfl, a', ha', hx⟩
    · exact (himage.only name s f hf).imp_left .inl
    · obtain ⟨a, ha, rfl, hmatch⟩ := h.last_right ha'
      exact (hmatch.spared s hx).imp_left fun hx => .inr ⟨rfl, rfl, a, ha, hx⟩

omit [SetOrder] in
theorem Beside.image_addKnownSource (x : String) (spot : Spot) :
    t.Image (p.addKnownSource .plain m x spot) (q.addKnownSource .plain m' x spot) := by
  have himage := h.image_addSource hm hm' himage x { line := spot.line }
  constructor
  · intro name s f hf
    exact (hm'.has_addKnownSource id h.right).2 (himage.has name s f ((hm.has_addKnownSource id h.left).1 hf))
  · intro name s f hf
    exact (himage.only name s f ((hm'.has_addKnownSource id h.right).1 hf)).imp_left
      (hm.has_addKnownSource id h.left).2

theorem Beside.image_sanitize (function : String) (line : Int) :
    t.Image (p.sanitize m function line) (q.sanitize m' function line) := by
  constructor
  · intro name s f hf
    obtain ⟨a, ha, g, hg, rfl⟩ := (hm.has_sanitize id h.left).1 hf
    obtain ⟨a', ha', -, hmatch⟩ := h.last_left ha
    rw [hm'.has_sanitize id h.right, hmatch.sanitizers]
    exact ⟨a', ha', g, himage.has name s g hg, rfl⟩
  · intro name s f hf
    obtain ⟨a', ha', g, hg, rfl⟩ := (hm'.has_sanitize id h.right).1 hf
    obtain ⟨a, ha, -, hmatch⟩ := h.last_right ha'
    rw [hm.has_sanitize id h.left, ← hmatch.sanitizers]
    exact (himage.only name s g hg).imp_left fun hg => ⟨a, ha, g, hg, rfl⟩

end

/-! ## What both sides report -/

/-- Flows that violate the left pattern violate the right one. -/
theorem Matches.offence {a a' : Pattern} (hmatch : t.Matches a a') (himage : t.Image m m') {sink : String} {l : Label}
    (hl : Policy.offence m sink a = some l) :
    ∃ l', Policy.offence m' sink a' = some l' ∧ ∀ s f, l.Holds s f → l'.Holds s f := by
  have hsome : (Policy.offence m sink a).isSome = true := by rw [hl]; rfl
  obtain ⟨hsink, s, f, hs, hf⟩ := Policy.offence_isSome.1 hsome
  have hf := himage.has a.name s f hf
  rw [hmatch.name] at hf
  rw [hmatch.sinks] at hsink
  obtain ⟨l', hl'⟩ := Option.isSome_iff_exists.1 (Policy.offence_isSome.2 ⟨hsink, s, f, hmatch.sources s hs, hf⟩)
  refine ⟨l', hl', fun s f hf => ?_⟩
  obtain ⟨hs, hf⟩ := (Policy.holds_offence hl).1 hf
  exact (Policy.holds_offence hl').2 ⟨hmatch.sources s hs, hmatch.name ▸ himage.has a.name s f hf⟩

/-- Flows that violate the right pattern violate the left one, unless they are spared. -/
theorem Matches.offence_only {a a' : Pattern} (hmatch : t.Matches a a') (himage : t.Image m m') {sink : String}
    {l' : Label} (hl' : Policy.offence m' sink a' = some l') {s : String} {f : Flow} (hf : l'.Holds s f)
    (hs : ¬ t.spared a.name s) : ∃ l, Policy.offence m sink a = some l ∧ l.Holds s f := by
  have hsome : (Policy.offence m' sink a').isSome = true := by rw [hl']; rfl
  obtain ⟨hsink, -⟩ := Policy.offence_isSome.1 hsome
  obtain ⟨hsrc, hf⟩ := (Policy.holds_offence hl').1 hf
  rw [← hmatch.name] at hf
  have hsrc := (hmatch.spared s hsrc).resolve_right hs
  have hf := (himage.only a.name s f hf).resolve_right hs
  rw [← hmatch.sinks] at hsink
  obtain ⟨l, hl⟩ := Option.isSome_iff_exists.1 (Policy.offence_isSome.2 ⟨hsink, s, f, hsrc, hf⟩)
  exact ⟨l, hl, (Policy.holds_offence hl).2 ⟨hsrc, hf⟩⟩

/-- On a path there are as many patterns of a name as in the policy. -/
theorem length_named {policy : List Pattern} (hp : (Accord.sound policy False False).Tamed p) (name : String) :
    (p.named name).length = (policy.map (·.name)).count name := by
  have hnames : p.patterns.map (·.name) = policy.map (·.name) := by
    have hmap := congrArg (List.map Pattern.name) hp.patterns
    rw [List.map_map, List.map_map] at hmap
    exact hmap
  rw [← hnames, List.count, List.countP_map, List.countP_eq_length_filter]
  rfl

/-- Where nothing is spared, the patterns of a name are violated by the same flows on both sides. -/
theorem Beside.accused (h : t.Beside p q) (himage : t.Image m m') (sink : String) {name : String}
    (hname : ∀ s, ¬ t.spared name s) :
    List.Forall₂ (fun x y => ∀ s f, x.2.Holds s f ↔ y.2.Holds s f) (p.accused sink m name)
      (q.accused sink m' name) := by
  have hnamed : List.Forall₂ (fun a a' => a.name = name ∧ t.Matches a a') (p.named name) (q.named name) :=
    (List.forall₂_and_left _ _).2 ⟨fun a ha => (Path.mem_named.1 ha).2, h.named name⟩
  refine List.rel_filterMap ?_ hnamed
  rintro a a' ⟨rfl, hmatch⟩
  dsimp only
  cases hl : Policy.offence m sink a with
  | some l =>
    obtain ⟨l', hl', hholds⟩ := hmatch.offence himage hl
    rw [hl']
    refine .some fun s f => ⟨hholds s f, fun hf => ?_⟩
    obtain ⟨_, hl₁, hf⟩ := hmatch.offence_only himage hl' hf (hname s)
    cases hl.symm.trans hl₁
    exact hf
  | none =>
    cases hl' : Policy.offence m' sink a' with
    | none => exact .none
    | some l' =>
      have hsome : (Policy.offence m' sink a').isSome = true := by rw [hl']; rfl
      obtain ⟨-, s, f, hf⟩ := Policy.offence_isSome.1 hsome
      obtain ⟨_, hl₁, -⟩ := hmatch.offence_only himage hl' ((Policy.holds_offence hl').2 hf) (hname s)
      cases hl.symm.trans hl₁

/-- A pattern that is the only one of its name is reported if it is violated. -/
theorem getLast?_accused {a : Pattern} {name : String} (ha : p.named name = [a]) (sink : String) (m : Taint) :
    (p.accused sink m name).getLast? = (Policy.offence m sink a).map (a, ·) := by
  unfold Path.accused
  rw [ha]
  cases hl : Policy.offence m sink a <;> simp [hl]

/-- What is reported for a name on the left is reported on the right, and the other way round unless it is
spared. -/
theorem Beside.reported (hb : t.Lawful) (h : t.Beside p q) (himage : t.Image m m') (sink : String) {name : String}
    (hshown : ¬ t.hidden name) :
    (∀ x, (p.accused sink m name).getLast? = some x →
      ∃ y, (q.accused sink m' name).getLast? = some y ∧ ∀ s f, x.2.Holds s f → y.2.Holds s f) ∧
    (∀ y, (q.accused sink m' name).getLast? = some y → ∀ s f, y.2.Holds s f → ¬ t.spared name s →
      ∃ x, (p.accused sink m name).getLast? = some x ∧ x.2.Holds s f) := by
  by_cases hname : ∀ s, ¬ t.spared name s
  · have hrel := Bridge.forall₂_getLast? (h.accused himage sink hname)
    generalize (p.accused sink m name).getLast? = o at hrel ⊢
    generalize (q.accused sink m' name).getLast? = o' at hrel ⊢
    cases hrel with
    | none => exact ⟨fun x hx => (by cases hx), fun y hy => (by cases hy)⟩
    | @some x y hxy =>
      refine ⟨fun _ hx => ?_, fun _ hy s f hf _ => ?_⟩
      · cases hx
        exact ⟨y, rfl, fun s f => (hxy s f).1⟩
      · cases hy
        exact ⟨x, rfl, (hxy s f).2 hf⟩
  · -- the pattern is the only one of its name
    push Not at hname
    obtain ⟨s₀, hs₀⟩ := hname
    have hlength := hb name s₀ hs₀ hshown
    rw [← length_named h.left] at hlength
    have hrel := h.named name
    generalize hp : p.named name = l at hrel hlength
    generalize hq : q.named name = l' at hrel
    cases hrel with
    | nil =>
      unfold Path.accused
      rw [hp, hq]
      exact ⟨fun x hx => (by cases hx), fun y hy => (by cases hy)⟩
    | @cons a a' rest rest' hmatch hrest =>
      obtain rfl : rest = [] := List.length_eq_zero_iff.1 (by simpa using hlength)
      cases hrest
      obtain rfl : a.name = name := (Path.mem_named.1 (hp ▸ List.mem_singleton_self a)).2
      rw [getLast?_accused hp, getLast?_accused hq]
      refine ⟨fun x hx => ?_, fun y hy s f hf hs => ?_⟩
      · obtain ⟨l, hl, rfl⟩ := Option.map_eq_some_iff.1 hx
        obtain ⟨l', hl', hholds⟩ := hmatch.offence himage hl
        exact ⟨(a', l'), by rw [hl']; rfl, hholds⟩
      · obtain ⟨l', hl', rfl⟩ := Option.map_eq_some_iff.1 hy
        obtain ⟨l, hl, hf⟩ := hmatch.offence_only himage hl' hf hs
        exact ⟨(a, l), by rw [hl]; rfl, hf⟩

/-- What is flagged on the left as explicit is flagged on the right, and the other way round unless it is spared. -/
theorem Beside.flagged [SetOrder] (hb : t.Lawful) (h : t.Beside p q) {kind : FlowKind}
    (himage : kind = .explicit → t.Image m m') (sink : String) (spot : Spot) (s : Subject) (marks : List Mark) :
    (t.left.Flagged p sink spot m kind s .explicit marks →
      t.right.Flagged q sink spot m' kind s .explicit marks ∨ t.hidden s.pattern) ∧
    (t.right.Flagged q sink spot m' kind s .explicit marks →
      t.left.Flagged p sink spot m kind s .explicit marks ∨ t.Exempt s) := by
  by_cases hshown : t.hidden s.pattern
  · exact ⟨fun _ => .inr hshown, fun _ => .inr (.inr hshown)⟩
  rw [Accord.flagged_iff, Accord.flagged_iff]
  constructor
  · rintro ⟨rfl, hsink, hat, x, hx, -, f, hf, hpos, hd⟩
    obtain ⟨y, hy, hholds⟩ := (h.reported hb (himage rfl) sink hshown).1 x hx
    exact .inl ⟨rfl, hsink, hat, y, hy, (by simp), f, hholds s.source f hf, hpos, hd⟩
  · rintro ⟨rfl, hsink, hat, y, hy, -, f, hf, hpos, hd⟩
    by_cases hs : t.spared s.pattern s.source
    · exact .inr (.inl hs)
    · obtain ⟨x, hx, hf⟩ := (h.reported hb (himage rfl) sink hshown).2 y hy s.source f hf hs
      exact .inl ⟨rfl, hsink, hat, x, hx, (by simp), f, hf, hpos, hd⟩

/-- Flagging goes on in step. -/
theorem Beside.runs_flag [SetOrder] (hb : t.Lawful) {σ : Worlds} (hm : t.left.Tame m) (hm' : t.right.Tame m')
    {kind : FlowKind} (himage : kind = .explicit → t.Image m m') (sink : String) (spot : Spot) :
    t.coupling.Runs σ Coupling.Any (Eval.flag .plain sink spot m kind) (Eval.flag .plain sink spot m' kind) := by
  intro hσ
  have hσ : t.Beside σ.1.path σ.2.path := hσ
  obtain ⟨r, hr, hrec⟩ := Accord.flag_run lawful_left hσ.left hm sink spot kind
  obtain ⟨r', hr', hrec'⟩ := Accord.flag_run lawful_right hσ.right hm' sink spot kind
  have hflagged := hσ.flagged hb himage sink spot
  have hr : (Eval.flag .plain sink spot m kind).run σ.1 = _ := hr
  have hr' : (Eval.flag .plain sink spot m' kind).run σ.2 = _ := hr'
  rw [hr, hr']
  refine .ok trivial hσ ⟨fun s kind marks h => ?_, fun s kind marks h => ?_, fun s marks h => ?_, fun s marks h => ?_⟩
  · exact (hrec s kind marks).2 (.inl h)
  · exact (hrec' s kind marks).2 (.inl h)
  · exact ((hrec s .explicit marks).1 h).imp_right fun h =>
      ((hflagged s marks).1 h).imp_left fun h => (hrec' s .explicit marks).2 (.inr h)
  · exact ((hrec' s .explicit marks).1 h).imp_right fun h =>
      ((hflagged s marks).2 h).imp_left fun h => (hrec s .explicit marks).2 (.inr h)

/-! ## Paths of both sides -/

theorem Matches.addSource {a a' : Pattern} (h : t.Matches a a') (x : String) :
    t.Matches (a.addSource x) (a'.addSource x) :=
  { h with
    sources := fun s hs => by
      rw [Pattern.isSource_addSource] at hs ⊢
      exact hs.imp_left (h.sources s)
    spared := fun s hs => by
      rw [Pattern.isSource_addSource] at hs ⊢
      rcases hs with hs | rfl
      · exact (h.spared s hs).imp_left .inl
      · exact .inl (.inr rfl)
    taught := fun hi => (h.taught hi).imp_right fun ⟨hraised, ht⟩ => ⟨hraised, fun y hy => by
      rw [Pattern.isSource_addSource]
      exact (ht y hy).imp_left .inl⟩ }

/-- A name that only the right pattern takes for a source is spared. -/
theorem Matches.learn {a a' : Pattern} (h : t.Matches a a') (hi : a.implicit = false) (hi' : a'.implicit = true)
    {x : String} (hx : t.taught x) : t.Matches a (a'.addSource x) :=
  { h with
    sources := fun s hs => (Pattern.isSource_addSource a' x s).2 (.inl (h.sources s hs))
    spared := fun s hs => by
      rcases (Pattern.isSource_addSource a' x s).1 hs with hs | rfl
      · exact h.spared s hs
      · exact ((h.taught hi').resolve_left (by simp [hi])).2 s hx }

theorem Beside.discover (h : t.Beside p q) (x : String) : t.Beside (p.discover x) (q.discover x) :=
  { h with
    left := h.left.discover trivial
    right := h.right.discover trivial
    patterns := List.forall₂_map_left_iff.2 (List.forall₂_map_right_iff.2
      (h.patterns.imp fun _ _ hmatch => hmatch.addSource x)) }

theorem Beside.discoverImplicit (h : t.Beside p q) {x : String} (hx : t.taught x) :
    t.Beside (p.discoverImplicit x) (q.discoverImplicit x) := by
  refine { h with
    left := h.left.discoverImplicit trivial
    right := h.right.discoverImplicit trivial
    patterns := List.forall₂_map_left_iff.2 (List.forall₂_map_right_iff.2
      (h.patterns.imp fun a a' hmatch => ?_)) }
  cases hi : a.implicit with
  | true =>
    rw [hmatch.implicit hi]
    exact hmatch.addSource x
  | false => cases hi' : a'.implicit with
    | true => exact hmatch.learn hi hi' hx
    | false => exact hmatch

theorem Beside.markInitialized (h : t.Beside p q) (x : String) :
    t.Beside (p.markInitialized x) (q.markInitialized x) := by
  refine { h with
    left := h.left.markInitialized trivial
    right := h.right.markInitialized trivial
    initialized := fun y => ?_ }
  show y ∈ adjoin p.initialized x ↔ y ∈ adjoin q.initialized x
  rw [mem_adjoin, mem_adjoin, h.initialized y]

theorem Beside.setLabel (h : t.Beside p q) (x : String) (hm : t.left.Tame m) (hm' : t.right.Tame m')
    (himage : t.Image m m') :
    t.Beside { p with labels := p.labels.update x m } { q with labels := q.labels.update x m' } :=
  { h with
    left := h.left.setLabel trivial hm
    right := h.right.setLabel trivial hm'
    labels := Accord.rel_update h.labels x himage }

theorem Beside.setControlLabel (h : t.Beside p q) (x : String) (hm : t.left.Tame m) (hm' : t.right.Tame m') :
    t.Beside { p with controlLabels := p.controlLabels.update x m }
      { q with controlLabels := q.controlLabels.update x m' } :=
  { h with
    left := h.left.setControlLabel trivial hm
    right := h.right.setControlLabel trivial hm' }

theorem Beside.push (h : t.Beside p q) (hm : t.left.Tame m) (hm' : t.right.Tame m') :
    t.Beside (p.push m) (q.push m') :=
  { h with left := h.left.push hm, right := h.right.push hm' }

theorem Beside.fork (h : t.Beside p q) : t.Beside p.fork q.fork :=
  { h with
    left := h.left.fork lawful_left
    right := h.right.fork lawful_right
    labels := fun x => by
      rw [Path.fork, Path.fork, Labelling.get?_mapPatterns, Labelling.get?_mapPatterns]
      exact rel_map (fun himage => himage.keep p q) (h.labels x) }

/-! ## Evaluation on both sides -/

theorem tame_before [SetOrder] {policy : List Pattern} (h : (Accord.sound policy False False).Tamed p) (x : String) :
    (Accord.sound policy False False).Tame (p.before x) := by
  have hcurrent := (h.computed_current (Accord.lawful_sound False.elim)).tame
  unfold Path.before
  cases hl : p.controlLabels.get? x with
  | none => exact hcurrent
  | some l => exact (h.controlLabels x l hl).combine hcurrent

/-- The steps of both analyses correspond, those of tests apart. -/
theorem Lawful.stores [SetOrder] (hb : t.Lawful) (allowed : Site → Prop) : t.coupling.Stores allowed where
  value_later _ hm := hm
  pending_later _ hm := hm
  control_later _ hm := hm
  value_stored hm := ⟨hm.1.tame, hm.2.1.tame, hm.2.2⟩
  value_pending hm := ⟨hm.1, hm.2.1⟩
  pending_control hm := ⟨hm.1.tame, hm.2.tame⟩
  value_combine hm hk := ⟨hm.1.combine hk.1, hm.2.1.combine hk.2.1, hm.2.2.combine hk.2.2⟩
  pending_combine hm hk := ⟨hm.1.combine hk.1, hm.2.combine hk.2⟩
  control_combine hm hk := ⟨hm.1.combine hk.1, hm.2.combine hk.2⟩
  initialized hσ := Beside.initialized hσ
  clean hσ := ⟨(Beside.left hσ).computed_clean lawful_left, (Beside.right hσ).computed_clean lawful_right,
    image_clean _ _⟩
  label hσ x := Bridge.rel_with (Beside.labels hσ x) ((Beside.left hσ).labels x) ((Beside.right hσ).labels x)
  left hσ x := ⟨(Beside.left hσ).left_on lawful_left x, (Beside.right hσ).left_on lawful_right x⟩
  current hσ := ⟨(Beside.left hσ).computed_current lawful_left, (Beside.right hσ).computed_current lawful_right⟩
  source hσ _ hm := ⟨hm.1.addSource open_left _ _ _, hm.2.1.addSource open_right _ _ _,
    Beside.image_addSource hσ hm.1 hm.2.1 hm.2.2 _ _⟩
  known hσ _ hm := ⟨hm.1.addKnownSource open_left _ _ _, hm.2.1.addKnownSource open_right _ _ _,
    Beside.image_addKnownSource hσ hm.1 hm.2.1 hm.2.2 _ _⟩
  sanitized hσ _ hm := ⟨hm.1.sanitize open_left (Beside.left hσ) _ _, hm.2.1.sanitize open_right (Beside.right hσ) _ _,
    Beside.image_sanitize hσ hm.1 hm.2.1 hm.2.2 _ _⟩
  sanitized_pending hσ _ hm := ⟨hm.1.sanitize open_left (Beside.left hσ) _ _,
    hm.2.sanitize open_right (Beside.right hσ) _ _⟩
  discover hσ _ _ := ⟨(Beside.discover hσ _).markInitialized _, told_refl _⟩
  fill hσ _ _ _ _ := ⟨Beside.setLabel hσ _ (Accord.Tamed.computed_clean lawful_left (Beside.left hσ)).tame
    (Accord.Tamed.computed_clean lawful_right (Beside.right hσ)).tame (image_clean _ _), told_refl _⟩
  flag _ hm := Beside.runs_flag hb hm.1.tame hm.2.1.tame (fun _ => hm.2.2) _ _
  flag_control _ hm := Beside.runs_flag hb hm.1 hm.2 (by simp) _ _
  mark hσ _ := ⟨Beside.markInitialized hσ _, told_refl _⟩
  assign hσ _ hm hk := ⟨(Beside.setLabel hσ _ hm.1.tame hm.2.1.tame hm.2.2).setControlLabel _ hk.1 hk.2, told_refl _⟩
  before hσ x := ⟨tame_before (Beside.left hσ) x, tame_before (Beside.right hσ) x⟩
  push hσ hk := ⟨Beside.push hσ hk.1 hk.2, told_refl _⟩

/-- A test may make a source of a name that is taught. -/
theorem learns {x : String} (hx : t.taught x) : t.coupling.Learns x :=
  fun hσ _ => ⟨Beside.discoverImplicit hσ hx, told_refl _⟩

/-! ## Tilts that spare nothing -/

/-- Both sides are under one policy, and nothing is spared. -/
def even (policy : List Pattern) : Tilt where
  policy := policy
  policy' := policy
  spared := fun _ _ => False
  hidden := fun _ => False
  raised := fun _ => False
  taught := fun _ => True

theorem lawful_even (policy : List Pattern) : (even policy).Lawful := fun _ _ h => h.elim

section Even

variable {policy : List Pattern} {a b c : Pattern} {n : Path}

theorem image_even : (even policy).Image m m' ↔ ∀ name s f, m.Has name s f ↔ m'.Has name s f :=
  ⟨fun h name s f => ⟨h.has name s f, fun hf => (h.only name s f hf).resolve_right id⟩,
    fun h => ⟨fun name s f => (h name s f).1, fun name s f hf => .inl ((h name s f).2 hf)⟩⟩

theorem matches_of_alike (h : a.Alike b) : (even policy).Matches a b where
  name := Pattern.name_of_bare h.bare
  sinks := Pattern.isSink_of_bare h.bare
  sanitizers := Pattern.isSanitizer_of_bare h.bare
  sources s hs := h.isSource s ▸ hs
  spared s hs := .inl ((h.isSource s).trans hs)
  implicit hi := (Pattern.implicit_of_bare h.bare).symm.trans hi
  taught hi := .inl ((Pattern.implicit_of_bare h.bare).trans hi)

theorem Beside.refl (h : (even policy).left.Tamed p) : (even policy).Beside p p where
  left := h
  right := h
  initialized _ := Iff.rfl
  patterns := List.forall₂_same.2 fun a _ => matches_self a
  labels x := by
    cases p.labels.get? x with
    | none => exact .none
    | some m => exact .some (image_even.2 fun _ _ _ => Iff.rfl)

/-- States that a search does not tell apart have the same explicit labels. -/
theorem beside_of_same (hp : (even policy).left.Tamed p) (hq : (even policy).left.Tamed q) (h : p.same q = true) :
    (even policy).Beside p q := by
  have hkin := Accord.kin_of_same rfl id hp hq False.elim h
  refine ⟨hp, hq, hkin.initialized, hkin.patterns.imp fun a a' => matches_of_alike, fun x => ?_⟩
  exact rel_imp (fun hsame => image_even.2 hsame.has) (hkin.labels x)

end Even

/-! ## Other paths in place of both -/

theorem Matches.transfer {a b a' b' : Pattern} (h : t.Matches a b) (ha : (even t.policy).Matches a a')
    (hb : (even t.policy').Matches b b') : t.Matches a' b' where
  name := (ha.name.symm.trans h.name).trans hb.name
  sinks s := ((ha.sinks s).symm.trans (h.sinks s)).trans (hb.sinks s)
  sanitizers s := ((ha.sanitizers s).symm.trans (h.sanitizers s)).trans (hb.sanitizers s)
  sources s hs := hb.sources s (h.sources s ((ha.spared s hs).resolve_right id))
  spared s hs := by
    rw [← ha.name]
    exact (h.spared s ((hb.spared s hs).resolve_right id)).imp_left (ha.sources s)
  implicit hi := hb.implicit (h.implicit ((ha.taught hi).resolve_right fun hr => hr.1))
  taught hi := by
    rw [← ha.name]
    refine (h.taught ((hb.taught hi).resolve_right fun hr => hr.1)).imp ha.implicit fun ⟨hraised, ht⟩ => ?_
    exact ⟨hraised, fun x hx => (ht x hx).imp_left (ha.sources x)⟩

theorem Image.transfer {n n' : Taint} (h : t.Image m m') (hn : (even t.policy).Image m n)
    (hn' : (even t.policy').Image m' n') : t.Image n n' where
  has name s f hf := (image_even.1 hn' name s f).1 (h.has name s f ((image_even.1 hn name s f).2 hf))
  only name s f hf := (h.only name s f ((image_even.1 hn' name s f).2 hf)).imp_left (image_even.1 hn name s f).1

/-- Either path may be replaced by one with the same explicit labels. -/
theorem Beside.transfer {p' q' : Path} (h : t.Beside p q) (hp : (even t.policy).Beside p p')
    (hq : (even t.policy').Beside q q') : t.Beside p' q' where
  left := hp.right
  right := hq.right
  initialized x := (hp.initialized x).symm.trans ((h.initialized x).trans (hq.initialized x))
  patterns := forall₂_transfer (fun h ha hb => h.transfer ha hb) h.patterns hp.patterns hq.patterns
  labels x := rel_transfer (fun h hn hn' => h.transfer hn hn') (h.labels x) (hp.labels x) (hq.labels x)

theorem Beside.symm {policy : List Pattern} (h : (even policy).Beside p q) : (even policy).Beside q p :=
  (Beside.refl h.left).transfer h (.refl h.left)

end Tilt

end TaintFlow
