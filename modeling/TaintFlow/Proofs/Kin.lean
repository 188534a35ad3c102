import TaintFlow.Proofs.Accord

/-
Paths of two runs. A path is `Tamed` if everything in it is allowed by the accord, and two paths are
`Kin` if they also know the same as far as the accord compares them. Every operation on paths keeps
kinship; the laws are stated for two paths, and a law about one path is the case of a path and itself.
-/
namespace TaintFlow

open Listing

namespace Accord

variable (c : Accord)

/-- Everything on the path is allowed. -/
structure Tamed (p : Path) : Prop where
  patterns : p.patterns.map Pattern.bare = c.policy.map Pattern.bare
  sources : ∀ q ∈ p.patterns, ∀ s ∈ q.sources, c.name s
  initialized : ∀ x ∈ p.initialized, c.name x
  keys : ∀ x m, p.labels.get? x = some m → c.name x
  labels : ∀ x m, p.labels.get? x = some m → c.Tame m
  control : ∀ m ∈ p.control, c.Tame m
  controlKeys : ∀ x m, p.controlLabels.get? x = some m → c.name x
  controlLabels : ∀ x m, p.controlLabels.get? x = some m → c.Tame m

/-- The flow is among those that conditions left on a variable. -/
def LeftOn (g : Labelling PatternRef) (x name s : String) (f : Flow) : Prop :=
  ∃ m, g.get? x = some m ∧ m.Has name s f

/-- The paths know the same, as far as the accord compares them. -/
structure Kin (p q : Path) : Prop where
  left : c.Tamed p
  right : c.Tamed q
  patterns : List.Forall₂ Pattern.Alike p.patterns q.patterns
  initialized : ∀ x, x ∈ p.initialized ↔ x ∈ q.initialized
  labels : ∀ x, Option.Rel c.Same (p.labels.get? x) (q.labels.get? x)
  control : List.Forall₂ c.SameControl p.control q.control
  controlLabels : c.full → ∀ x name s f, LeftOn p.controlLabels x name s f ↔ LeftOn q.controlLabels x name s f
  scope : c.edition = .scoped → p.scope = q.scope

variable {c} {p q r : Path}

/-! ## Kinship is an equivalence on tamed paths -/

theorem Kin.refl (h : c.Tamed p) : c.Kin p p where
  left := h
  right := h
  patterns := List.forall₂_same.2 fun x _ => .refl x
  initialized := fun _ => Iff.rfl
  labels := fun x => by
    cases p.labels.get? x with
    | none => exact .none
    | some m => exact .some (.refl m)
  control := List.forall₂_same.2 fun _ _ _ _ _ _ => Iff.rfl
  controlLabels := fun _ _ _ _ _ => Iff.rfl
  scope := fun _ => rfl

theorem Kin.symm (h : c.Kin p q) : c.Kin q p where
  left := h.right
  right := h.left
  patterns := (h.patterns.imp fun _ _ ha => ha.symm).flip
  initialized := fun x => (h.initialized x).symm
  labels := fun x => rel_symm (fun hs => hs.symm) (h.labels x)
  control := (h.control.imp fun _ _ hs hfull name s f => (hs hfull name s f).symm).flip
  controlLabels := fun hfull x name s f => (h.controlLabels hfull x name s f).symm
  scope := fun he => (h.scope he).symm

theorem forall₂_trans {α : Type} {R : α → α → Prop} (hR : ∀ a b d, R a b → R b d → R a d) :
    ∀ {l m n : List α}, List.Forall₂ R l m → List.Forall₂ R m n → List.Forall₂ R l n
  | _, _, _, .nil, .nil => .nil
  | _, _, _, .cons h hs, .cons h' hs' => .cons (hR _ _ _ h h') (forall₂_trans hR hs hs')

theorem Kin.trans (h : c.Kin p q) (h' : c.Kin q r) : c.Kin p r where
  left := h.left
  right := h'.right
  patterns := forall₂_trans (fun _ _ _ => .trans) h.patterns h'.patterns
  initialized := fun x => (h.initialized x).trans (h'.initialized x)
  labels := fun x => rel_trans (fun hs hs' => hs.trans hs') (h.labels x) (h'.labels x)
  control := forall₂_trans (fun _ _ _ hs hs' hfull name s f =>
    (hs hfull name s f).trans (hs' hfull name s f)) h.control h'.control
  controlLabels := fun hfull x name s f =>
    (h.controlLabels hfull x name s f).trans (h'.controlLabels hfull x name s f)
  scope := fun he => (h.scope he).trans (h'.scope he)

/-! ## What kin paths answer -/

theorem Tamed.clean (h : c.Tamed p) : p.clean = c.blank :=
  Path.clean_eq (q := Path.start c.policy) h.patterns

theorem Kin.knowsSource (h : c.Kin p q) (name : String) : p.knowsSource name = q.knowsSource name := by
  have hany : ∀ {ps qs : List Pattern}, List.Forall₂ Pattern.Alike ps qs →
      ps.any (·.isSource name) = qs.any (·.isSource name) := by
    intro ps qs hs
    induction hs with
    | nil => rfl
    | cons ha _ ih => rw [List.any_cons, List.any_cons, ih, ha.isSource]
  exact hany h.patterns

theorem Kin.knowsSanitizer (h : c.Kin p q) (name : String) : p.knowsSanitizer name = q.knowsSanitizer name := by
  have hany : ∀ {ps qs : List Pattern}, List.Forall₂ Pattern.Alike ps qs →
      ps.any (·.isSanitizer name) = qs.any (·.isSanitizer name) := by
    intro ps qs hs
    induction hs with
    | nil => rfl
    | cons ha _ ih => rw [List.any_cons, List.any_cons, ih, Pattern.isSanitizer_of_bare ha.bare]
  exact hany h.patterns

theorem Kin.place (h : c.Kin p q) (spot : Spot) : c.edition.place spot p.scope = c.edition.place spot q.scope :=
  match he : c.edition with
  | .plain => rfl
  | .scoped => by rw [h.scope he]

/-- The label of a variable in both runs, or in none. -/
theorem Kin.stored (h : c.Kin p q) (x : String) : Option.Rel c.Stored (p.labels.get? x) (q.labels.get? x) := by
  have hr := h.labels x
  cases hp : p.labels.get? x with
  | none =>
    rw [hp] at hr
    generalize q.labels.get? x = o at hr ⊢
    cases hr
    exact .none
  | some m => cases hq : q.labels.get? x with
    | none => rw [hp, hq] at hr; cases hr
    | some m' =>
      rw [hp, hq] at hr
      cases hr with
      | some hs => exact .some ⟨h.left.labels x m hp, h.right.labels x m' hq, hs⟩

theorem Tamed.left_on (h : c.Tamed p) (hc : c.Lawful) (x : String) :
    c.Tame ((p.controlLabels.get? x).getD p.clean) := by
  cases hx : p.controlLabels.get? x with
  | none =>
    rw [Option.getD_none, h.clean]
    exact tame_blank hc
  | some m => exact h.controlLabels x m hx

theorem Tamed.has_left_on (h : c.Tamed p) {x name s : String} {f : Flow} :
    ((p.controlLabels.get? x).getD p.clean).Has name s f ↔ LeftOn p.controlLabels x name s f := by
  unfold LeftOn
  cases p.controlLabels.get? x with
  | none =>
    rw [Option.getD_none, h.clean]
    exact ⟨fun hf => absurd hf (Path.not_has_clean _ name s f), fun ⟨_, hm, _⟩ => nomatch hm⟩
  | some m => simp

/-- What conditions left on a variable. -/
theorem Kin.left_on (h : c.Kin p q) (hc : c.Lawful) (x : String) :
    c.Control ((p.controlLabels.get? x).getD p.clean) ((q.controlLabels.get? x).getD q.clean) := by
  refine ⟨h.left.left_on hc x, h.right.left_on hc x, fun hfull name s f => ?_⟩
  rw [h.left.has_left_on, h.right.has_left_on]
  exact h.controlLabels hfull x name s f

theorem controlWorking_foldl [SetOrder] : ∀ {l l' : List Taint} {a a' : Taint}, List.Forall₂ c.SameControl l l' →
    (∀ m ∈ l, c.Tame m) → (∀ m ∈ l', c.Tame m) → c.ControlWorking a a' →
    c.ControlWorking (l.foldl MultiLabel.combine a) (l'.foldl MultiLabel.combine a')
  | _, _, _, _, .nil, _, _, ha => ha
  | _, _, _, _, .cons hs hrest, hl, hr, ha => by
    rw [List.foldl_cons, List.foldl_cons]
    exact controlWorking_foldl hrest (fun m hm => hl m (List.mem_cons_of_mem _ hm))
      (fun m hm => hr m (List.mem_cons_of_mem _ hm))
      (ha.combine ⟨hl _ (List.mem_cons_self ..), hr _ (List.mem_cons_self ..), hs⟩)

/-- The conditions that enclose the point of the paths. -/
theorem Kin.currentControl [SetOrder] (h : c.Kin p q) (hc : c.Lawful) :
    c.ControlWorking p.currentControl q.currentControl := by
  refine controlWorking_foldl h.control h.left.control h.right.control ?_
  rw [h.left.clean, h.right.clean]
  exact (working_blank hc).control

/-! ## What keeps kinship -/

theorem Tamed.discover (h : c.Tamed p) {x : String} (hx : c.name x) : c.Tamed (p.discover x) := by
  refine { h with patterns := ?_, sources := ?_ }
  · rw [← h.patterns]
    simp only [Path.discover, List.map_map]
    rfl
  · intro q hq s hs
    obtain ⟨q', hq', rfl⟩ := List.mem_map.1 hq
    rcases mem_adjoin.1 hs with hs | rfl
    · exact h.sources q' hq' s hs
    · exact hx

theorem Kin.discover (h : c.Kin p q) {x : String} (hx : c.name x) : c.Kin (p.discover x) (q.discover x) :=
  { h with
    left := h.left.discover hx
    right := h.right.discover hx
    patterns := List.forall₂_map_left_iff.2 (List.forall₂_map_right_iff.2
      (h.patterns.imp fun _ _ ha => ha.addSource x)) }

theorem Tamed.discoverImplicit (h : c.Tamed p) {x : String} (hx : c.name x) : c.Tamed (p.discoverImplicit x) := by
  refine { h with patterns := ?_, sources := ?_ }
  · rw [← h.patterns]
    simp only [Path.discoverImplicit, List.map_map]
    refine List.map_congr_left fun q _ => ?_
    dsimp only [Function.comp_apply]
    split <;> rfl
  · intro q hq s hs
    obtain ⟨q', hq', rfl⟩ := List.mem_map.1 hq
    split at hs
    · rcases mem_adjoin.1 hs with hs | rfl
      · exact h.sources q' hq' s hs
      · exact hx
    · exact h.sources q' hq' s hs

theorem Kin.discoverImplicit (h : c.Kin p q) {x : String} (hx : c.name x) :
    c.Kin (p.discoverImplicit x) (q.discoverImplicit x) := by
  refine { h with left := h.left.discoverImplicit hx, right := h.right.discoverImplicit hx, patterns := ?_ }
  refine List.forall₂_map_left_iff.2 (List.forall₂_map_right_iff.2 (h.patterns.imp fun a b ha => ?_))
  rw [Pattern.implicit_of_bare ha.bare]
  split
  · exact ha.addSource x
  · exact ha

theorem Tamed.markInitialized (h : c.Tamed p) {x : String} (hx : c.name x) : c.Tamed (p.markInitialized x) :=
  { h with
    initialized := fun y hy => (mem_adjoin.1 hy).elim (h.initialized y) fun he => he ▸ hx }

theorem Kin.markInitialized (h : c.Kin p q) {x : String} (hx : c.name x) :
    c.Kin (p.markInitialized x) (q.markInitialized x) := by
  refine { h with left := h.left.markInitialized hx, right := h.right.markInitialized hx, initialized := ?_ }
  intro y
  show y ∈ adjoin p.initialized x ↔ y ∈ adjoin q.initialized x
  rw [mem_adjoin, mem_adjoin, h.initialized y]

theorem Tamed.setLabel (h : c.Tamed p) {x : String} (hx : c.name x) {m : Taint} (hm : c.Tame m) :
    c.Tamed { p with labels := p.labels.update x m } := by
  refine { h with keys := ?_, labels := ?_ } <;> intro y m' hy <;> by_cases he : y = x
  · exact he ▸ hx
  · rw [Labelling.get?_update_of_ne _ he] at hy
    exact h.keys y m' hy
  · subst he
    rw [Labelling.get?_update_self] at hy
    cases hy
    exact hm
  · rw [Labelling.get?_update_of_ne _ he] at hy
    exact h.labels y m' hy

theorem rel_update {R : Taint → Taint → Prop} {g g' : Labelling PatternRef}
    (h : ∀ y, Option.Rel R (g.get? y) (g'.get? y)) (x : String) {m m' : Taint} (hm : R m m') (y : String) :
    Option.Rel R ((g.update x m).get? y) ((g'.update x m').get? y) := by
  by_cases he : y = x
  · subst he
    rw [Labelling.get?_update_self, Labelling.get?_update_self]
    exact .some hm
  · rw [Labelling.get?_update_of_ne _ he, Labelling.get?_update_of_ne _ he]
    exact h y

theorem Kin.setLabel (h : c.Kin p q) {x : String} (hx : c.name x) {m m' : Taint} (hm : c.Stored m m') :
    c.Kin { p with labels := p.labels.update x m } { q with labels := q.labels.update x m' } :=
  { h with
    left := h.left.setLabel hx hm.left
    right := h.right.setLabel hx hm.right
    labels := rel_update h.labels x hm.same }

theorem Tamed.setControlLabel (h : c.Tamed p) {x : String} (hx : c.name x) {m : Taint} (hm : c.Tame m) :
    c.Tamed { p with controlLabels := p.controlLabels.update x m } := by
  refine { h with controlKeys := ?_, controlLabels := ?_ } <;> intro y m' hy <;> by_cases he : y = x
  · exact he ▸ hx
  · rw [Labelling.get?_update_of_ne _ he] at hy
    exact h.controlKeys y m' hy
  · subst he
    rw [Labelling.get?_update_self] at hy
    cases hy
    exact hm
  · rw [Labelling.get?_update_of_ne _ he] at hy
    exact h.controlLabels y m' hy

theorem leftOn_update {g : Labelling PatternRef} {x y name s : String} {f : Flow} {m : Taint} :
    LeftOn (g.update x m) y name s f ↔ if y = x then m.Has name s f else LeftOn g y name s f := by
  unfold LeftOn
  by_cases he : y = x
  · subst he
    rw [Labelling.get?_update_self, if_pos rfl]
    simp
  · rw [Labelling.get?_update_of_ne _ he, if_neg he]

theorem Kin.setControlLabel (h : c.Kin p q) {x : String} (hx : c.name x) {m m' : Taint} (hm : c.Control m m') :
    c.Kin { p with controlLabels := p.controlLabels.update x m }
      { q with controlLabels := q.controlLabels.update x m' } := by
  refine { h with
    left := h.left.setControlLabel hx hm.left
    right := h.right.setControlLabel hx hm.right
    controlLabels := ?_ }
  intro hfull y name s f
  rw [leftOn_update, leftOn_update]
  split
  · exact hm.same hfull name s f
  · exact h.controlLabels hfull y name s f

theorem Tamed.push (h : c.Tamed p) {m : Taint} (hm : c.Tame m) : c.Tamed (p.push m) :=
  { h with control := List.forall_mem_append.2 ⟨h.control, List.forall_mem_singleton.2 hm⟩ }

theorem Kin.push (h : c.Kin p q) {m m' : Taint} (hm : c.Control m m') : c.Kin (p.push m) (q.push m') :=
  { h with
    left := h.left.push hm.left
    right := h.right.push hm.right
    control := List.rel_append h.control (.cons hm.same .nil) }

theorem forall₂_dropLast {α β : Type} {R : α → β → Prop} :
    ∀ {l : List α} {m : List β}, List.Forall₂ R l m → List.Forall₂ R l.dropLast m.dropLast
  | _, _, .nil => .nil
  | _, _, .cons _ .nil => .nil
  | _, _, .cons h (.cons h' hs) => .cons h (forall₂_dropLast (.cons h' hs))

theorem Tamed.pop (h : c.Tamed p) : c.Tamed p.pop :=
  { h with control := fun m hm => h.control m (List.dropLast_subset _ hm) }

theorem Kin.pop (h : c.Kin p q) : c.Kin p.pop q.pop :=
  { h with
    left := h.left.pop
    right := h.right.pop
    control := forall₂_dropLast h.control }

theorem Tamed.rescope (h : c.Tamed p) (k : Int) : c.Tamed { p with scope := k } := { h with }

/-- Both paths go up or down by the same number of regions. -/
theorem Kin.shift (h : c.Kin p q) (d : Int) :
    c.Kin { p with scope := p.scope + d } { q with scope := q.scope + d } :=
  { h with
    left := h.left.rescope _
    right := h.right.rescope _
    scope := fun he => congrArg (· + d) (h.scope he) }

theorem Tamed.fork (h : c.Tamed p) (hc : c.Lawful) : c.Tamed p.fork where
  patterns := h.patterns
  sources := h.sources
  initialized := h.initialized
  keys := fun x m hx => by
    rw [Path.fork, Labelling.get?_mapPatterns] at hx
    obtain ⟨m', hm, -⟩ := Option.map_eq_some_iff.1 hx
    exact h.keys x m' hm
  labels := fun x m hx => by
    rw [Path.fork, Labelling.get?_mapPatterns] at hx
    obtain ⟨m', hm, rfl⟩ := Option.map_eq_some_iff.1 hx
    exact (h.labels x m' hm).keep hc h.patterns h.sources
  control := fun m hm => by
    obtain ⟨m', hm', rfl⟩ := List.mem_map.1 hm
    exact (h.control m' hm').keep hc h.patterns h.sources
  controlKeys := fun x m hx => by
    rw [Path.fork, Labelling.get?_mapPatterns] at hx
    obtain ⟨m', hm, -⟩ := Option.map_eq_some_iff.1 hx
    exact h.controlKeys x m' hm
  controlLabels := fun x m hx => by
    rw [Path.fork, Labelling.get?_mapPatterns] at hx
    obtain ⟨m', hm, rfl⟩ := Option.map_eq_some_iff.1 hx
    exact (h.controlLabels x m' hm).keep hc h.patterns h.sources

theorem leftOn_mapPatterns {g : Labelling PatternRef} {k : PatternRef → PatternRef} {x name s : String} {f : Flow} :
    LeftOn (g.mapPatterns k) x name s f ↔ LeftOn g x name s f := by
  unfold LeftOn
  rw [Labelling.get?_mapPatterns]
  cases g.get? x with
  | none => simp
  | some m => simp [MultiLabel.has_mapPatterns]

theorem Kin.fork (h : c.Kin p q) (hc : c.Lawful) : c.Kin p.fork q.fork where
  left := h.left.fork hc
  right := h.right.fork hc
  patterns := h.patterns
  initialized := h.initialized
  labels := fun x => by
    rw [Path.fork, Path.fork, Labelling.get?_mapPatterns, Labelling.get?_mapPatterns]
    exact rel_map (fun hs => hs.keep h.patterns) (h.labels x)
  control := List.forall₂_map_left_iff.2 (List.forall₂_map_right_iff.2
    (h.control.imp fun _ _ hs => hs.keep p q))
  controlLabels := fun hfull x name s f => by
    rw [Path.fork, Path.fork, leftOn_mapPatterns, leftOn_mapPatterns]
    exact h.controlLabels hfull x name s f
  scope := h.scope

end Accord

/-! ## Paths with the same explicit taint -/

/-- The multilabels track the same patterns, each with the same list of flows for every source. -/
def MultiLabel.SameFlows (m m' : Taint) : Prop :=
  ∀ name, Option.Rel (fun t u => t.label.Alike u.label) (m.entries.get? name) (m'.entries.get? name)

/-- The paths have assigned the same variables, found the same sources for each pattern, and have the
same flows on every variable. -/
structure Path.SameExplicit (p q : Path) : Prop where
  initialized : ∀ x, x ∈ p.initialized ↔ x ∈ q.initialized
  patterns : List.Forall₂ Pattern.Alike p.patterns q.patterns
  labels : ∀ x, Option.Rel MultiLabel.SameFlows (p.labels.get? x) (q.labels.get? x)

theorem Accord.Same.sameFlows {c : Accord} {m m' : Taint} (h : c.Same m m') : m.SameFlows m' := fun name =>
  rel_imp (fun hs => hs.label) (h name)

theorem Accord.Kin.sameExplicit {c : Accord} {p q : Path} (h : c.Kin p q) : p.SameExplicit q :=
  ⟨h.initialized, h.patterns, fun x => rel_imp (fun hs => hs.sameFlows) (h.labels x)⟩

end TaintFlow
