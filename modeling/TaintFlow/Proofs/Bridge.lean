import TaintFlow.Proofs.Coupling
import TaintFlow.Proofs.Detection
import TaintFlow.Proofs.Lockstep

/-
Two analyses that see the same flows. They may be of different editions, which record positions with
different precision, and under different policies, of which only some patterns are compared. A `Bridge`
relates their labels through the set of flows of each compared pattern: the flows on the right are those
on the left, with their positions projected. Control labels are compared only if the bridge is full. What is
displayed of a flow is compared as the bridge looks at it: mark by mark, or as a set of marks.

Labels refer to patterns in different ways on both sides, so references are not compared. That is sound
because a label that is computed tracks the last pattern of each name, which both paths have.
-/
namespace TaintFlow

open Listing

/-! ## Labels that are computed -/

/-- The label is allowed by the accord, and refers to the path's own patterns. -/
structure Accord.Computed (c : Accord) (m : Taint) : Prop where
  tame : c.Tame m
  fresh : c.Fresh m

namespace Accord

variable {c : Accord} {p : Path} {m k : Taint}

theorem Computed.combine [SetOrder] (hm : c.Computed m) (hk : c.Tame k) : c.Computed (m.combine k) :=
  ⟨hm.tame.combine hk, hm.fresh.combine k⟩

theorem Tamed.computed_clean (hc : c.Lawful) (hp : c.Tamed p) : c.Computed p.clean := by
  rw [hp.clean]
  exact ⟨tame_blank hc, fresh_blank⟩

theorem Tamed.computed_current [SetOrder] (hc : c.Lawful) (hp : c.Tamed p) : c.Computed p.currentControl := by
  have hfold : ∀ (l : List Taint) {a : Taint}, (∀ m ∈ l, c.Tame m) → c.Computed a →
      c.Computed (l.foldl MultiLabel.combine a) := by
    intro l
    induction l with
    | nil => exact fun _ ha => ha
    | cons m l ih =>
      intro a hl ha
      rw [List.forall_mem_cons] at hl
      exact ih hl.2 (ha.combine hl.1)
  exact hfold p.control hp.control (hp.computed_clean hc)

theorem Computed.addSource [SetOrder] (ho : c.Open) (hm : c.Computed m) (p : Path) (x : String) (position : Position) :
    c.Computed (p.addSource m x position) :=
  ⟨hm.tame.addSource p (ho.names x) fun name => ho.raw name x position, hm.fresh.addSource p x position⟩

theorem Computed.addKnownSource [SetOrder] (ho : c.Open) (hm : c.Computed m) (p : Path) (x : String) (spot : Spot) :
    c.Computed (p.addKnownSource c.edition m x spot) := by
  unfold Path.addKnownSource
  split
  · exact hm.addSource ho p x _
  · exact hm

theorem Computed.sanitize [SetOrder] (ho : c.Open) (hp : c.Tamed p) (hm : c.Computed m) (function : String)
    (line : Int) :
    c.Computed (p.sanitize m function line) := by
  unfold Path.sanitize
  split
  · exact ⟨hm.tame.addSanitizer hm.fresh hp.patterns (ho.sanitizes function line), hm.fresh.addSanitizer _ _ _⟩
  · exact hm

section

variable [SetOrder] (hloose : ¬ c.strict) (hp : c.Tamed p) (hm : c.Computed m) {name s : String} {f : Flow}

include hloose hp hm

omit [SetOrder] in
/-- The label is for the last pattern of each name. -/
theorem Computed.last {t : Tracked PatternRef} (ht : m.entries.get? name = some t) :
    (p.named name).getLast? = some (p.view t.pattern) := by
  obtain ⟨a, ha⟩ := hm.tame.tracks hloose hp.patterns ht
  obtain ⟨u, hu, rfl⟩ := hm.fresh.tracks hp.patterns ha
  rw [ht] at hu
  cases hu
  exact ha

omit [SetOrder] in
/-- A raw flow is added for each name whose last pattern has the source. -/
theorem Computed.has_addSource {x : String} {position : Position} : (p.addSource m x position).Has name s f ↔
    m.Has name s f ∨ (s = x ∧ f = { position } ∧ ∃ a, (p.named name).getLast? = some a ∧ a.isSource x = true) := by
  refine MultiLabel.has_addSource.trans (or_congr_right (and_congr_right fun _ => and_congr_right fun _ => ?_))
  constructor
  · rintro ⟨t, ht, hs⟩
    exact ⟨_, hm.last hloose hp ht, hs⟩
  · rintro ⟨a, ha, hs⟩
    obtain ⟨t, ht, rfl⟩ := hm.fresh.tracks hp.patterns ha
    exact ⟨t, ht, hs⟩

omit [SetOrder] in
theorem Computed.has_addKnownSource {x : String} {spot : Spot} :
    (p.addKnownSource c.edition m x spot).Has name s f ↔
      (p.addSource m x (c.edition.place spot p.scope)).Has name s f := by
  unfold Path.addKnownSource
  split
  · exact Iff.rfl
  · rename_i hknown
    rw [hm.has_addSource hloose hp]
    refine ⟨.inl, fun h => h.resolve_right ?_⟩
    rintro ⟨-, -, a, ha, hs⟩
    exact hknown (List.any_eq_true.2 ⟨a, (Path.mem_named.1 (List.mem_of_getLast? ha)).1, hs⟩)

/-- The flows for each name whose last pattern has the sanitizer pass it. -/
theorem Computed.has_sanitize {function : String} {line : Int} : (p.sanitize m function line).Has name s f ↔
    ∃ a, (p.named name).getLast? = some a ∧ ∃ g, m.Has name s g ∧
      f = if a.isSanitizer function then g.sanitize (.sanitizer function line) else g := by
  have hsame : (m.addSanitizer p.view function line).Has name s f ↔
      ∃ a, (p.named name).getLast? = some a ∧ ∃ g, m.Has name s g ∧
        f = if a.isSanitizer function then g.sanitize (.sanitizer function line) else g := by
    rw [MultiLabel.has_addSanitizer]
    constructor
    · rintro ⟨t, ht, g, hg, rfl⟩
      exact ⟨_, hm.last hloose hp ht, g, ⟨t, ht, hg⟩, rfl⟩
    · rintro ⟨a, ha, g, ⟨t, ht, hg⟩, rfl⟩
      rw [hm.last hloose hp ht] at ha
      cases ha
      exact ⟨t, ht, g, hg, rfl⟩
  unfold Path.sanitize
  split
  · exact hsame
  · rename_i hknown
    have hno : ∀ {a}, (p.named name).getLast? = some a → ¬ a.isSanitizer function = true := fun ha hs =>
      hknown (List.any_eq_true.2 ⟨_, (Path.mem_named.1 (List.mem_of_getLast? ha)).1, hs⟩)
    constructor
    · rintro ⟨t, ht, hg⟩
      have ha := hm.last hloose hp ht
      exact ⟨_, ha, f, ⟨t, ht, hg⟩, by rw [if_neg (hno ha)]⟩
    · rintro ⟨a, ha, g, hg, rfl⟩
      rw [if_neg (hno ha)]
      exact hg

end

end Accord

/-! ## What is flagged -/

/-- The patterns of a name that a value violates at a sink, with the flows that do. -/
def Path.accused (p : Path) (sink : String) (m : Taint) (name : String) : List (Pattern × Label) :=
  (p.named name).filterMap fun a => (Policy.offence m sink a).map (a, ·)

theorem Path.name_of_accused {p : Path} {sink : String} {m : Taint} {name : String} {x : Pattern × Label}
    (h : (p.accused sink m name).getLast? = some x) : x.1.name = name := by
  obtain ⟨a, ha, hx⟩ := List.mem_filterMap.1 (List.mem_of_getLast? h)
  obtain ⟨l, -, rfl⟩ := Option.map_eq_some_iff.1 hx
  exact (mem_named.1 ha).2

/-- What is flagged is for the last pattern of its name that the value violates. -/
theorem Accord.flagged_iff [SetOrder] {c : Accord} {p : Path} {sink : String} {spot : Spot} {m : Taint}
    {kind kind' : FlowKind} {s : Subject} {marks : List Mark} :
    c.Flagged p sink spot m kind s kind' marks ↔
      kind' = kind ∧ s.sink = sink ∧ s.sinkAt = c.edition.place spot p.scope ∧
        ∃ x, (p.accused sink m s.pattern).getLast? = some x ∧ (kind = .implicit → x.1.implicit = true) ∧
          ∃ f, x.2.Holds s.source f ∧ f.position = s.sourceAt ∧ x.1.display c.edition f.marks = some marks := by
  constructor
  · rintro ⟨name, t, ht, hk, hi, hn, hs, ha, hf⟩
    have hfound := p.view_get?_detect sink m name
    rw [ht] at hfound
    rw [← Path.name_of_accused hfound.symm, ← hn] at hfound
    exact ⟨hk, hs, ha, _, hfound.symm, hi, hf⟩
  · rintro ⟨hk, hs, ha, x, hx, hi, hf⟩
    have hfound := p.view_get?_detect sink m s.pattern
    have hn := Path.name_of_accused hx
    unfold Path.accused at hx
    rw [hx] at hfound
    obtain ⟨t, ht, rfl⟩ := Option.map_eq_some_iff.1 hfound
    exact ⟨s.pattern, t, ht, hk, hi, hn.symm, hs, ha, hf⟩

/-! ## Bridges -/

/-- The flow, at another place. -/
def Flow.moved (proj : Position → Position) (f : Flow) : Flow := { f with position := proj f.position }

/-- The subject, at other places. -/
def Subject.moved (proj : Position → Position) (s : Subject) : Subject :=
  { s with sourceAt := proj s.sourceAt, sinkAt := proj s.sinkAt }

/-- How two analyses correspond. -/
structure Bridge where
  left : Accord
  right : Accord
  /-- What the right side records of a position of the left side. -/
  proj : Position → Position
  /-- The names of the patterns that are compared. -/
  shared : String → Prop
  /-- Control labels and implicit flows are compared. -/
  full : Prop
  /-- The nesting levels that correspond. -/
  level : Int → Int → Prop
  /-- What is compared of the marks that are displayed. -/
  Sight : Type
  sight : List Mark → Sight

namespace Bridge

variable (b : Bridge)

/-- The patterns ask for the same, and show the same of each flow that may occur. -/
structure Matches [SetOrder] (a a' : Pattern) : Prop where
  name : a.name = a'.name
  sources : ∀ s, a.isSource s = a'.isSource s
  sinks : ∀ s, a.isSink s = a'.isSink s
  sanitizers : ∀ s, a.isSanitizer s = a'.isSanitizer s
  implicit : a.implicit = a'.implicit
  display : ∀ s f, b.left.flow a.name s f →
    (a.display b.left.edition f.marks).map b.sight = (a'.display b.right.edition f.marks).map b.sight

/-- The right multilabel has the flows of the left one. -/
def Image (m m' : Taint) : Prop :=
  ∀ name, b.shared name → ∀ s g, m'.Has name s g ↔ ∃ f, m.Has name s f ∧ f.moved b.proj = g

/-- The paths of both sides correspond. -/
structure Twin [SetOrder] (p q : Path) : Prop where
  left : b.left.Tamed p
  right : b.right.Tamed q
  initialized : ∀ x, x ∈ p.initialized ↔ x ∈ q.initialized
  patterns : ∀ name, b.shared name → List.Forall₂ b.Matches (p.named name) (q.named name)
  labels : ∀ x, Option.Rel b.Image (p.labels.get? x) (q.labels.get? x)
  control : b.full → List.Forall₂ b.Image p.control q.control
  controlLabels : ∀ x, Option.Rel (fun m m' => b.full → b.Image m m') (p.controlLabels.get? x) (q.controlLabels.get? x)
  scope : b.level p.scope q.scope

/-- The sightings that are compared. -/
def Watches (s : Subject) (kind : FlowKind) : Prop := b.shared s.pattern ∧ (kind = .explicit ∨ b.full)

/-- A flow is on record of which this is seen. -/
def Sees (r : Report) (s : Subject) (kind : FlowKind) (seen : b.Sight) : Prop :=
  ∃ marks, r.Recorded s kind marks ∧ b.sight marks = seen

/-- Since the first reports, both sides have come to record the same. -/
def Added (ρ ρ' : Report × Report) : Prop :=
  ∃ New : Subject → FlowKind → b.Sight → Prop, ∀ s kind seen, b.Watches s kind →
    (b.Sees ρ'.1 s kind seen ↔ b.Sees ρ.1 s kind seen ∨ New s kind seen) ∧
    (b.Sees ρ'.2 s kind seen ↔ b.Sees ρ.2 s kind seen ∨ ∃ t, New t kind seen ∧ t.moved b.proj = s)

/-- What the two sides have to respect. -/
structure Lawful [SetOrder] : Prop where
  left : b.left.Lawful
  right : b.right.Lawful
  free : b.left.Open
  free' : b.right.Open
  loose : ¬ b.left.strict
  loose' : ¬ b.right.strict
  place : ∀ {k k'} spot, b.level k k' → b.proj (b.left.edition.place spot k) = b.right.edition.place spot k'
  shift : ∀ {k k'} d, b.level k k' → b.level (k + d) (k' + d)

variable {b}

theorem added_refl (ρ : Report × Report) : b.Added ρ ρ :=
  ⟨fun _ _ _ => False, fun _ _ _ _ => ⟨by simp, by simp⟩⟩

theorem Added.trans {ρ ρ' ρ'' : Report × Report} (h : b.Added ρ ρ') (h' : b.Added ρ' ρ'') : b.Added ρ ρ'' := by
  obtain ⟨New, h⟩ := h
  obtain ⟨New', h'⟩ := h'
  refine ⟨fun s kind seen => New s kind seen ∨ New' s kind seen, fun s kind seen hs => ⟨?_, ?_⟩⟩
  · rw [(h' s kind seen hs).1, (h s kind seen hs).1, or_assoc]
  · rw [(h' s kind seen hs).2, (h s kind seen hs).2, or_assoc, ← exists_or]
    simp only [or_and_right]

theorem not_sees_empty (s : Subject) (kind : FlowKind) (seen : b.Sight) : ¬ b.Sees {} s kind seen := by
  rintro ⟨marks, hr, -⟩
  exact Report.not_recorded_empty s kind marks hr

/-- What is seen after flows were added is what was seen before, or is seen of one of them. -/
theorem sees_of_added {r r' : Report} {s : Subject} {kind : FlowKind} {New : List Mark → Prop}
    (h : ∀ marks, r'.Recorded s kind marks ↔ r.Recorded s kind marks ∨ New marks) (seen : b.Sight) :
    b.Sees r' s kind seen ↔ b.Sees r s kind seen ∨ ∃ marks, New marks ∧ b.sight marks = seen := by
  simp only [Sees, h, or_and_right, exists_or]

/-- The coupling of two runs of the evaluator. -/
def coupling [SetOrder] (b : Bridge) : Coupling where
  edition := b.left.edition
  edition' := b.right.edition
  Linked σ := b.Twin σ.1.path σ.2.path
  Later σ τ := b.Added (σ.1.report, σ.2.report) (τ.1.report, τ.2.report)
  Value _ m m' := b.left.Computed m ∧ b.right.Computed m' ∧ b.Image m m'
  Stored _ m m' := b.left.Tame m ∧ b.right.Tame m' ∧ b.Image m m'
  Pending _ m m' := b.left.Computed m ∧ b.right.Computed m' ∧ (b.full → b.Image m m')
  Control _ m m' := b.left.Tame m ∧ b.right.Tame m' ∧ (b.full → b.Image m m')
  refl _ := added_refl _
  trans := .trans

/-! ## Flows of both sides -/

theorem Image.combine [SetOrder] {m m' k k' : Taint} (hm : b.Image m m') (hk : b.Image k k') :
    b.Image (m.combine k) (m'.combine k') := by
  intro name hs s g
  simp only [MultiLabel.has_combine, hm name hs s g, hk name hs s g, or_and_right, exists_or]

theorem Image.keep_left {m m' : Taint} (h : b.Image m m') (p : Path) : b.Image (m.mapPatterns p.keep) m' := by
  intro name hs s g
  simp only [MultiLabel.has_mapPatterns, h name hs s g]

theorem Image.keep_right {m m' : Taint} (h : b.Image m m') (q : Path) : b.Image m (m'.mapPatterns q.keep) := by
  intro name hs s g
  rw [MultiLabel.has_mapPatterns, h name hs s g]

theorem image_clean (p q : Path) : b.Image p.clean q.clean := by
  intro name _ s g
  simp only [Path.not_has_clean, false_and, exists_false]

theorem forall₂_getLast? {α β : Type} {R : α → β → Prop} {l : List α} {m : List β} (h : List.Forall₂ R l m) :
    Option.Rel R l.getLast? m.getLast? := by
  induction h with
  | nil => exact .none
  | @cons x y l m hxy _ ih =>
    rw [List.getLast?_cons, List.getLast?_cons]
    generalize l.getLast? = o at ih
    generalize m.getLast? = o' at ih
    cases ih with
    | none => exact .some hxy
    | some h => exact .some h

variable {p q : Path} {m m' : Taint}

section

variable [SetOrder] (hb : b.Lawful) (h : b.Twin p q) (hm : b.left.Computed m) (hm' : b.right.Computed m')
  (himage : b.Image m m')

include hb h hm hm' himage

theorem Twin.image_addSource (x : String) (spot : Spot) :
    b.Image (p.addSource m x (b.left.edition.place spot p.scope))
      (q.addSource m' x (b.right.edition.place spot q.scope)) := by
  intro name hs s g
  have hlast : (∃ a, (p.named name).getLast? = some a ∧ a.isSource x = true) ↔
      ∃ a, (q.named name).getLast? = some a ∧ a.isSource x = true := by
    have hrel := forall₂_getLast? (h.patterns name hs)
    generalize (p.named name).getLast? = o at hrel ⊢
    generalize (q.named name).getLast? = o' at hrel ⊢
    cases hrel with
    | none => simp
    | some hmatch => simp [hmatch.sources]
  rw [hm'.has_addSource hb.loose' h.right, himage name hs s g, ← hlast]
  simp only [hm.has_addSource hb.loose h.left]
  constructor
  · rintro (⟨f, hf, rfl⟩ | ⟨rfl, rfl, ha⟩)
    · exact ⟨f, .inl hf, rfl⟩
    · exact ⟨_, .inr ⟨rfl, rfl, ha⟩, by rw [← hb.place spot h.scope]; rfl⟩
  · rintro ⟨f, hf | ⟨rfl, rfl, ha⟩, rfl⟩
    · exact .inl ⟨f, hf, rfl⟩
    · exact .inr ⟨rfl, by rw [← hb.place spot h.scope]; rfl, ha⟩

theorem Twin.image_addKnownSource (x : String) (spot : Spot) :
    b.Image (p.addKnownSource b.left.edition m x spot) (q.addKnownSource b.right.edition m' x spot) := by
  intro name hs s g
  rw [hm'.has_addKnownSource hb.loose' h.right, h.image_addSource hb hm hm' himage x spot name hs s g]
  simp only [hm.has_addKnownSource hb.loose h.left]

theorem Twin.image_sanitize (function : String) (line : Int) :
    b.Image (p.sanitize m function line) (q.sanitize m' function line) := by
  intro name hs s g
  rw [hm'.has_sanitize hb.loose' h.right]
  simp only [hm.has_sanitize hb.loose h.left, himage name hs]
  have hrel := forall₂_getLast? (h.patterns name hs)
  generalize (p.named name).getLast? = o at hrel ⊢
  generalize (q.named name).getLast? = o' at hrel ⊢
  cases hrel with
  | none => simp
  | @some a a' hmatch =>
    have hpass : ∀ f : Flow,
        (if a.isSanitizer function then f.sanitize (.sanitizer function line) else f).moved b.proj =
        if a'.isSanitizer function then (f.moved b.proj).sanitize (.sanitizer function line) else f.moved b.proj := by
      intro f
      rw [hmatch.sanitizers]
      split <;> rfl
    constructor
    · rintro ⟨_, ha, _, ⟨f, hf, rfl⟩, rfl⟩
      cases ha
      exact ⟨_, ⟨a, rfl, f, hf, rfl⟩, hpass f⟩
    · rintro ⟨_, ⟨_, ha, f, hf, rfl⟩, rfl⟩
      cases ha
      exact ⟨a', rfl, _, ⟨f, hf, rfl⟩, hpass f⟩

end

/-! ## What both sides report -/

/-- The patterns of both paths that a value violates, with the flows that do. -/
theorem Twin.accused [SetOrder] (h : b.Twin p q) (himage : b.Image m m') (sink : String) {name : String}
    (hs : b.shared name) :
    List.Forall₂ (fun x y => b.Matches x.1 y.1 ∧ (∀ s f, x.2.Holds s f → m.Has name s f) ∧
        ∀ s g, y.2.Holds s g ↔ ∃ f, x.2.Holds s f ∧ f.moved b.proj = g)
      (p.accused sink m name) (q.accused sink m' name) := by
  have hnamed : List.Forall₂ (fun a a' => a.name = name ∧ b.Matches a a') (p.named name) (q.named name) :=
    (List.forall₂_and_left _ _).2 ⟨fun a ha => (Path.mem_named.1 ha).2, h.patterns name hs⟩
  refine List.rel_filterMap ?_ hnamed
  rintro a a' ⟨rfl, hmatch⟩
  have himage := himage a.name hs
  have hsome : (Policy.offence m sink a).isSome = true ↔ (Policy.offence m' sink a').isSome = true := by
    rw [Policy.offence_isSome, Policy.offence_isSome, hmatch.sinks, ← hmatch.name]
    simp only [hmatch.sources, himage]
    constructor
    · rintro ⟨hsink, s, f, hsrc, hf⟩
      exact ⟨hsink, s, _, hsrc, f, hf, rfl⟩
    · rintro ⟨hsink, s, _, hsrc, f, hf, rfl⟩
      exact ⟨hsink, s, f, hsrc, hf⟩
  dsimp only
  cases ho : Policy.offence m sink a with
  | none => cases ho' : Policy.offence m' sink a' with
    | none => exact .none
    | some l' =>
      rw [ho, ho'] at hsome
      cases hsome.2 rfl
  | some l => cases ho' : Policy.offence m' sink a' with
    | none =>
      rw [ho, ho'] at hsome
      cases hsome.1 rfl
    | some l' =>
      refine .some ⟨hmatch, fun s f hf => ((Policy.holds_offence ho).1 hf).2, fun s g => ?_⟩
      rw [Policy.holds_offence ho', ← hmatch.sources, ← hmatch.name, himage]
      simp only [Policy.holds_offence ho]
      constructor
      · rintro ⟨hsrc, f, hf, rfl⟩
        exact ⟨f, ⟨hsrc, hf⟩, rfl⟩
      · rintro ⟨f, ⟨hsrc, hf⟩, rfl⟩
        exact ⟨hsrc, f, hf, rfl⟩

/-- Both sides flag the same, as far as it is seen. -/
theorem Twin.flagged [SetOrder] (hb : b.Lawful) (h : b.Twin p q) (hm : b.left.Tame m) {kind : FlowKind}
    (himage : kind = .explicit ∨ b.full → b.Image m m') (sink : String) (spot : Spot) {s : Subject} {kind' : FlowKind}
    (hs : b.Watches s kind') (seen : b.Sight) :
    (∃ marks, b.right.Flagged q sink spot m' kind s kind' marks ∧ b.sight marks = seen) ↔
      ∃ t, (∃ marks, b.left.Flagged p sink spot m kind t kind' marks ∧ b.sight marks = seen) ∧ t.moved b.proj = s := by
  simp only [Accord.flagged_iff]
  constructor
  · rintro ⟨marks, ⟨rfl, hsink, hat, y, hy, hi, g, hg, hpos, hd⟩, rfl⟩
    have hrel := forall₂_getLast? (h.accused (himage hs.2) sink hs.1)
    rw [hy] at hrel
    cases hx : (p.accused sink m s.pattern).getLast? with
    | none => rw [hx] at hrel; cases hrel
    | some x =>
      rw [hx] at hrel
      cases hrel with
      | some hrel =>
        obtain ⟨hmatch, hhas, hholds⟩ := hrel
        obtain ⟨f, hf, rfl⟩ := (hholds s.source g).1 hg
        have hflow := hm.flows _ _ _ (hhas s.source f hf)
        rw [← Path.name_of_accused hx] at hflow
        have hdisplay : (x.1.display b.left.edition f.marks).map b.sight = some (b.sight marks) :=
          (hmatch.display s.source f hflow).trans (congrArg _ hd)
        obtain ⟨marks', hd', hsight⟩ := Option.map_eq_some_iff.1 hdisplay
        refine ⟨{ s with sourceAt := f.position, sinkAt := b.left.edition.place spot p.scope },
          ⟨marks', ⟨rfl, hsink, rfl, x, hx, fun hk => hmatch.implicit.trans (hi hk), f, hf, rfl, hd'⟩, hsight⟩, ?_⟩
        have hpos : b.proj f.position = s.sourceAt := hpos
        unfold Subject.moved
        dsimp only
        rw [hb.place spot h.scope, ← hat, hpos]
  · rintro ⟨t, ⟨marks, ⟨rfl, hsink, hat, x, hx, hi, f, hf, hpos, hd⟩, rfl⟩, rfl⟩
    have hrel := forall₂_getLast? (h.accused (himage hs.2) sink hs.1)
    have hx : (p.accused sink m (t.moved b.proj).pattern).getLast? = some x := hx
    rw [hx] at hrel
    cases hy : (q.accused sink m' (t.moved b.proj).pattern).getLast? with
    | none => rw [hy] at hrel; cases hrel
    | some y =>
      rw [hy] at hrel
      cases hrel with
      | some hrel =>
        obtain ⟨hmatch, hhas, hholds⟩ := hrel
        have hflow := hm.flows _ _ _ (hhas t.source f hf)
        rw [← Path.name_of_accused hx] at hflow
        have hdisplay : (y.1.display b.right.edition f.marks).map b.sight = some (b.sight marks) :=
          (hmatch.display t.source f hflow).symm.trans (congrArg _ hd)
        obtain ⟨marks', hd', hsight⟩ := Option.map_eq_some_iff.1 hdisplay
        refine ⟨marks', ⟨rfl, hsink, ?_, y, rfl, fun hk => hmatch.implicit.symm.trans (hi hk), f.moved b.proj,
          (hholds _ _).2 ⟨f, hf, rfl⟩, ?_, hd'⟩, hsight⟩
        · rw [← hb.place spot h.scope, ← hat]
          rfl
        · show b.proj f.position = b.proj t.sourceAt
          rw [hpos]

/-! ## Paths of both sides -/

theorem Matches.addSource [SetOrder] {a a' : Pattern} (h : b.Matches a a') (x : String) :
    b.Matches (a.addSource x) (a'.addSource x) :=
  { h with
    sources := fun s => by
      rw [Bool.eq_iff_iff, Pattern.isSource_addSource, Pattern.isSource_addSource, h.sources]
    display := h.display }

theorem Twin.mapPatterns [SetOrder] (f : Pattern → Pattern) (hname : ∀ a, (f a).name = a.name)
    (hf : ∀ a a', b.Matches a a' → b.Matches (f a) (f a')) {name : String}
    (h : List.Forall₂ b.Matches (p.named name) (q.named name)) :
    List.Forall₂ b.Matches (Path.named { p with patterns := p.patterns.map f } name)
      (Path.named { q with patterns := q.patterns.map f } name) := by
  have hnamed : ∀ p : Path, Path.named { p with patterns := p.patterns.map f } name = (p.named name).map f := by
    intro p
    unfold Path.named
    rw [List.filter_map]
    congr 2
    funext a
    simp [hname]
  rw [hnamed, hnamed]
  exact List.forall₂_map_left_iff.2 (List.forall₂_map_right_iff.2 (h.imp fun a a' => hf a a'))

theorem Twin.discover [SetOrder] (hb : b.Lawful) (h : b.Twin p q) (x : String) : b.Twin (p.discover x) (q.discover x) :=
  { h with
    left := h.left.discover (hb.free.names x)
    right := h.right.discover (hb.free'.names x)
    patterns := fun name hs => Twin.mapPatterns (·.addSource x) (fun _ => rfl) (fun _ _ ha => ha.addSource x)
      (h.patterns name hs) }

theorem Twin.discoverImplicit [SetOrder] (hb : b.Lawful) (h : b.Twin p q) (x : String) :
    b.Twin (p.discoverImplicit x) (q.discoverImplicit x) := by
  refine { h with
    left := h.left.discoverImplicit (hb.free.names x)
    right := h.right.discoverImplicit (hb.free'.names x)
    patterns := fun name hs => Twin.mapPatterns (fun a => if a.implicit then a.addSource x else a) (fun a => ?_)
      (fun a a' ha => ?_) (h.patterns name hs) }
  · split <;> rfl
  · rw [ha.implicit]
    split
    · exact ha.addSource x
    · exact ha

theorem Twin.markInitialized [SetOrder] (hb : b.Lawful) (h : b.Twin p q) (x : String) :
    b.Twin (p.markInitialized x) (q.markInitialized x) := by
  refine { h with
    left := h.left.markInitialized (hb.free.names x)
    right := h.right.markInitialized (hb.free'.names x)
    initialized := fun y => ?_ }
  show y ∈ adjoin p.initialized x ↔ y ∈ adjoin q.initialized x
  rw [mem_adjoin, mem_adjoin, h.initialized y]

theorem Twin.setLabel [SetOrder] (hb : b.Lawful) (h : b.Twin p q) (x : String) (hm : b.left.Tame m)
    (hm' : b.right.Tame m') (himage : b.Image m m') :
    b.Twin { p with labels := p.labels.update x m } { q with labels := q.labels.update x m' } :=
  { h with
    left := h.left.setLabel (hb.free.names x) hm
    right := h.right.setLabel (hb.free'.names x) hm'
    labels := Accord.rel_update h.labels x himage }

theorem Twin.setControlLabel [SetOrder] (hb : b.Lawful) (h : b.Twin p q) (x : String) (hm : b.left.Tame m)
    (hm' : b.right.Tame m') (himage : b.full → b.Image m m') :
    b.Twin { p with controlLabels := p.controlLabels.update x m }
      { q with controlLabels := q.controlLabels.update x m' } :=
  { h with
    left := h.left.setControlLabel (hb.free.names x) hm
    right := h.right.setControlLabel (hb.free'.names x) hm'
    controlLabels := Accord.rel_update h.controlLabels x himage }

theorem Twin.push [SetOrder] (h : b.Twin p q) (hm : b.left.Tame m) (hm' : b.right.Tame m')
    (himage : b.full → b.Image m m') :
    b.Twin (p.push m) (q.push m') :=
  { h with
    left := h.left.push hm
    right := h.right.push hm'
    control := fun hfull => List.rel_append (h.control hfull) (.cons (himage hfull) .nil) }

theorem Twin.pop [SetOrder] (h : b.Twin p q) : b.Twin p.pop q.pop :=
  { h with
    left := h.left.pop
    right := h.right.pop
    control := fun hfull => Accord.forall₂_dropLast (h.control hfull) }

theorem Twin.shift [SetOrder] (hb : b.Lawful) (h : b.Twin p q) (d : Int) :
    b.Twin { p with scope := p.scope + d } { q with scope := q.scope + d } :=
  { h with
    left := h.left.rescope _
    right := h.right.rescope _
    scope := hb.shift d h.scope }

theorem Twin.fork_left [SetOrder] (hb : b.Lawful) (h : b.Twin p q) : b.Twin p.fork q :=
  { h with
    left := h.left.fork hb.left
    labels := fun x => by
      rw [Path.fork, Labelling.get?_mapPatterns]
      exact rel_map_left (fun hs => hs.keep_left p) (h.labels x)
    control := fun hfull => List.forall₂_map_left_iff.2 ((h.control hfull).imp fun _ _ hs => hs.keep_left p)
    controlLabels := fun x => by
      rw [Path.fork, Labelling.get?_mapPatterns]
      exact rel_map_left (fun hs hfull => (hs hfull).keep_left p) (h.controlLabels x) }

theorem Twin.fork_right [SetOrder] (hb : b.Lawful) (h : b.Twin p q) : b.Twin p q.fork :=
  { h with
    right := h.right.fork hb.right
    labels := fun x => by
      rw [Path.fork, Labelling.get?_mapPatterns]
      exact rel_map_right (fun hs => hs.keep_right q) (h.labels x)
    control := fun hfull => List.forall₂_map_right_iff.2 ((h.control hfull).imp fun _ _ hs => hs.keep_right q)
    controlLabels := fun x => by
      rw [Path.fork, Labelling.get?_mapPatterns]
      exact rel_map_right (fun hs hfull => (hs hfull).keep_right q) (h.controlLabels x) }

theorem Twin.fork [SetOrder] (hb : b.Lawful) (h : b.Twin p q) : b.Twin p.fork q.fork := (h.fork_left hb).fork_right hb

/-! ## Evaluation on both sides -/

theorem rel_with {α β : Type} {R : α → β → Prop} {P : α → Prop} {Q : β → Prop} {o : Option α} {o' : Option β}
    (h : Option.Rel R o o') (hP : ∀ a, o = some a → P a) (hQ : ∀ a, o' = some a → Q a) :
    Option.Rel (fun a a' => P a ∧ Q a' ∧ R a a') o o' := by
  cases h with
  | none => exact .none
  | some h => exact .some ⟨hP _ rfl, hQ _ rfl, h⟩

theorem Twin.image_current [SetOrder] (h : b.Twin p q) (hfull : b.full) : b.Image p.currentControl q.currentControl :=
  List.rel_foldl (fun _ _ ha _ _ hm => ha.combine hm) (image_clean p q) (h.control hfull)

/-- What conditions left on a variable, on both sides. -/
theorem Twin.left_on [SetOrder] (h : b.Twin p q) (x : String) :
    Option.Rel (fun m m' => b.left.Tame m ∧ b.right.Tame m' ∧ (b.full → b.Image m m')) (p.controlLabels.get? x)
      (q.controlLabels.get? x) :=
  rel_with (h.controlLabels x) (h.left.controlLabels x) (h.right.controlLabels x)

/-- Flagging goes on in step. -/
theorem Twin.runs_flag [SetOrder] (hb : b.Lawful) {σ : Worlds} (hm : b.left.Tame m) (hm' : b.right.Tame m')
    {kind : FlowKind} (himage : kind = .explicit ∨ b.full → b.Image m m') (sink : String) (spot : Spot) :
    b.coupling.Runs σ Coupling.Any (Eval.flag b.left.edition sink spot m kind)
      (Eval.flag b.right.edition sink spot m' kind) := by
  intro hσ
  have hσ : b.Twin σ.1.path σ.2.path := hσ
  obtain ⟨r, hr, hrec⟩ := Accord.flag_run hb.left hσ.left hm sink spot kind
  obtain ⟨r', hr', hrec'⟩ := Accord.flag_run hb.right hσ.right hm' sink spot kind
  rw [hr, hr']
  refine .ok trivial hσ ⟨fun s kind' seen => ∃ marks, b.left.Flagged σ.1.path sink spot m kind s kind' marks ∧
    b.sight marks = seen, fun s kind' seen hs => ⟨sees_of_added (hrec s kind') seen, ?_⟩⟩
  exact (sees_of_added (hrec' s kind') seen).trans (or_congr_right (hσ.flagged hb hm himage sink spot hs seen))

/-- The steps of both analyses correspond. -/
theorem Lawful.writes [SetOrder] (hb : b.Lawful) (allowed : Site → Prop) : b.coupling.Writes allowed where
  value_later _ hm := hm
  pending_later _ hm := hm
  control_later _ hm := hm
  value_stored hm := ⟨hm.1.tame, hm.2.1.tame, hm.2.2⟩
  value_pending hm := ⟨hm.1, hm.2.1, fun _ => hm.2.2⟩
  pending_control hm := ⟨hm.1.tame, hm.2.1.tame, hm.2.2⟩
  value_combine hm hk := ⟨hm.1.combine hk.1, hm.2.1.combine hk.2.1, hm.2.2.combine hk.2.2⟩
  pending_combine hm hk := ⟨hm.1.combine hk.1, hm.2.1.combine hk.2.1, fun hf => (hm.2.2 hf).combine (hk.2.2 hf)⟩
  control_combine hm hk := ⟨hm.1.combine hk.1, hm.2.1.combine hk.2.1, fun hf => (hm.2.2 hf).combine (hk.2.2 hf)⟩
  initialized hσ := Twin.initialized hσ
  clean hσ := ⟨(Twin.left hσ).computed_clean hb.left, (Twin.right hσ).computed_clean hb.right, image_clean _ _⟩
  label hσ x := rel_with (Twin.labels hσ x) ((Twin.left hσ).labels x) ((Twin.right hσ).labels x)
  left hσ x := Coupling.rel_getD (Twin.left_on hσ x)
    ⟨(Accord.Tamed.computed_clean hb.left (Twin.left hσ)).tame,
      (Accord.Tamed.computed_clean hb.right (Twin.right hσ)).tame, fun _ => image_clean _ _⟩
  current hσ := ⟨(Twin.left hσ).computed_current hb.left, (Twin.right hσ).computed_current hb.right,
    Twin.image_current hσ⟩
  source hσ _ hm := ⟨hm.1.addSource hb.free _ _ _, hm.2.1.addSource hb.free' _ _ _,
    Twin.image_addSource hb hσ hm.1 hm.2.1 hm.2.2 _ _⟩
  known hσ _ hm := ⟨hm.1.addKnownSource hb.free _ _ _, hm.2.1.addKnownSource hb.free' _ _ _,
    Twin.image_addKnownSource hb hσ hm.1 hm.2.1 hm.2.2 _ _⟩
  sanitized hσ _ hm := ⟨hm.1.sanitize hb.free (Twin.left hσ) _ _, hm.2.1.sanitize hb.free' (Twin.right hσ) _ _,
    Twin.image_sanitize hb hσ hm.1 hm.2.1 hm.2.2 _ _⟩
  sanitized_pending hσ _ hm := ⟨hm.1.sanitize hb.free (Twin.left hσ) _ _,
    hm.2.1.sanitize hb.free' (Twin.right hσ) _ _, fun hf => Twin.image_sanitize hb hσ hm.1 hm.2.1 (hm.2.2 hf) _ _⟩
  discover hσ _ _ := ⟨(Twin.discover hb hσ _).markInitialized hb _, added_refl _⟩
  discoverImplicit hσ _ _ := ⟨Twin.discoverImplicit hb hσ _, added_refl _⟩
  fill hσ _ _ _ _ := ⟨Twin.setLabel hb hσ _ (Accord.Tamed.computed_clean hb.left (Twin.left hσ)).tame
    (Accord.Tamed.computed_clean hb.right (Twin.right hσ)).tame (image_clean _ _), added_refl _⟩
  flag _ hm := Twin.runs_flag hb hm.1.tame hm.2.1.tame (fun _ => hm.2.2) _ _
  flag_control _ hm := Twin.runs_flag hb hm.1 hm.2.1 (fun hk => hm.2.2 (hk.resolve_left (by simp))) _ _
  mark hσ _ := ⟨Twin.markInitialized hb hσ _, added_refl _⟩
  assign hσ _ hm hk := ⟨(Twin.setLabel hb hσ _ hm.1.tame hm.2.1.tame hm.2.2).setControlLabel hb _ hk.1 hk.2.1 hk.2.2,
    added_refl _⟩
  before hσ x := Coupling.rel_before
    (fun hm hk => ⟨hm.1.combine hk.1, hm.2.1.combine hk.2.1, fun hf => (hm.2.2 hf).combine (hk.2.2 hf)⟩)
    (Twin.left_on hσ x) ⟨((Twin.left hσ).computed_current hb.left).tame,
      ((Twin.right hσ).computed_current hb.right).tame, Twin.image_current hσ⟩
  push hσ hk := ⟨Twin.push hσ hk.1 hk.2.1 hk.2.2, added_refl _⟩

end Bridge

end TaintFlow
