import TaintFlow.Proofs.Ownership
import TaintFlow.Workbench.Evaluation

/-
Paths on a bench as values. A path on the bench refers to its labellings, its policy and the labels of the conditions
around it by number. Followed to the end, these references give a path as the analysis knows it (`Workbench.pathOf`): a
pattern of the policy is the path's own, any other is kept as it is. What is done to a value then is what is done on the
bench, under other names for the patterns.
-/
namespace TaintFlow

/-! ## Other references to the same patterns -/

namespace Table

variable {κ α β : Type} [DecidableEq κ]

theorem map_insert (f : α → β) (t : Table κ α) (k : κ) (a : α) : (t.insert k a).map f = (t.map f).insert k (f a) := by
  refine ext_entries ?_
  show (put k a t.entries).map (fun e => (e.1, f e.2)) = put k (f a) (t.entries.map fun e => (e.1, f e.2))
  generalize t.entries = l
  induction l with
  | nil => rfl
  | cons e l ih =>
    rw [put, List.map_cons, put]
    split
    · rfl
    · rw [List.map_cons, ih]

theorem map_ofList (f : α → β) (l : List (κ × α)) : (ofList l).map f = ofList (l.map fun e => (e.1, f e.2)) := by
  have hfold : ∀ (l : List (κ × α)) (t : Table κ α), (l.foldl (fun t e => t.insert e.1 e.2) t).map f =
      (l.map fun e => (e.1, f e.2)).foldl (fun t e => t.insert e.1 e.2) (t.map f) := by
    intro l
    induction l with
    | nil => exact fun _ => rfl
    | cons e l ih =>
      intro t
      rw [List.foldl_cons, ih, map_insert]
      rfl
  exact hfold l empty

end Table

section References

variable {π ρ : Type} {view : π → Pattern} {view' : ρ → Pattern} {f : π → ρ} {m : MultiLabel π}

theorem MultiLabel.mapPatterns_ofPatterns {l : List π} (h : ∀ p ∈ l, view' (f p) = view p) :
    (ofPatterns view l).mapPatterns f = ofPatterns view' (l.map f) := by
  unfold ofPatterns mapPatterns
  rw [Table.map_ofList, List.map_map, List.map_map]
  refine congrArg (fun l => MultiLabel.mk (Table.ofList l)) (List.map_congr_left fun p hp => ?_)
  dsimp only [Function.comp_apply]
  rw [h p hp]

theorem MultiLabel.mapPatterns_mapLabels {q : π → Bool} {q' : ρ → Bool} (g : Label → Label)
    (h : ∀ p, q' (f p) = q p) : (m.mapLabels q g).mapPatterns f = (m.mapPatterns f).mapLabels q' g := by
  unfold mapLabels mapPatterns
  rw [Table.map_map, Table.map_map]
  refine congrArg MultiLabel.mk (Table.map_congr fun name t _ => ?_)
  dsimp only
  rw [h]
  split <;> rfl

theorem MultiLabel.label?_mapPatterns (name : String) : (m.mapPatterns f).label? name = m.label? name := by
  unfold label? mapPatterns
  rw [Table.get?_map, Option.map_map]
  rfl

theorem Policy.mapPatterns_detect {l : List π} (h : ∀ p ∈ l, view' (f p) = view p) (sink : String) :
    (detect view l sink m).mapPatterns f = detect view' (l.map f) sink (m.mapPatterns f) := by
  unfold detect MultiLabel.mapPatterns
  rw [Table.map_ofList, List.map_filterMap, List.filterMap_map]
  refine congrArg (fun l => MultiLabel.mk (Table.ofList l)) (List.filterMap_congr fun p hp => ?_)
  have hviolation : violation? view' (m.mapPatterns f) sink (f p) = violation? view m sink p := by
    unfold violation?
    rw [h p hp, MultiLabel.label?_mapPatterns]
  dsimp only [Function.comp_apply]
  rw [Option.map_map]
  show _ = (violation? view' (m.mapPatterns f) sink (f p)).map _
  rw [hviolation, h p hp]
  rfl

theorem Report.add_mapPatterns [SetOrder] (h : ∀ p, view' (f p) = view p) (edition : Edition) (sink : String)
    (sinkAt : Position) (kind : FlowKind) (r : Report) :
    r.add edition view' sink sinkAt (m.mapPatterns f) kind = r.add edition view sink sinkAt m kind := by
  have hvalues : (m.mapPatterns f).entries.values.map (fun t => (view' t.pattern, t.label)) =
      m.entries.values.map fun t => (view t.pattern, t.label) := by
    show ((m.entries.entries.map _).map _).map _ = (m.entries.entries.map _).map _
    rw [List.map_map, List.map_map, List.map_map]
    refine List.map_congr_left fun e _ => ?_
    dsimp only [Function.comp_apply]
    rw [h]
  unfold add
  rw [hvalues]

end References

/-! ## A path and its references -/

/-- The labellings of a path: of its variables, and of what conditions left on them. -/
def BenchPath.labellings (p : BenchPath) : List Nat := [p.labels, p.controlLabels]

theorem BenchPath.labels_mem (p : BenchPath) : p.labels ∈ p.labellings := by simp [labellings]

theorem BenchPath.controlLabels_mem (p : BenchPath) : p.controlLabels ∈ p.labellings := by simp [labellings]

namespace Workbench

/-- The patterns of the policy of a path. -/
def own (b : Workbench) (i : Nat) : List Nat := b.policy (b.path i).policy

/-- A pattern on the bench, as a path refers to it. -/
def ref (b : Workbench) (i n : Nat) : PatternRef :=
  if n ∈ b.own i then .own ((b.own i).idxOf n) else .kept (b.pattern n)

/-- A multilabel on the bench, as a path has it. -/
def taintOf (b : Workbench) (i k : Nat) : Taint := (b.multiLabel k).mapPatterns (b.ref i)

/-- What is stored for a variable; a missing multilabel tracks nothing. -/
def taintAt (b : Workbench) (i : Nat) (m : Option Nat) : Taint := m.elim {} (b.taintOf i)

def labellingOf (b : Workbench) (i g : Nat) : Labelling PatternRef := ⟨(b.bindings g).map (b.taintAt i)⟩

/-- A path on the bench as a value. -/
def pathOf (b : Workbench) (i : Nat) : Path where
  labels := b.labellingOf i (b.path i).labels
  initialized := (b.path i).initialized
  patterns := b.policyPatterns (b.path i).policy
  control := (b.path i).control.map (b.taintAt i)
  controlLabels := b.labellingOf i (b.path i).controlLabels
  scope := (b.path i).scope

/-- A path and a report on the bench as values. -/
def world (b : Workbench) (i r : Nat) : World := ⟨b.pathOf i, b.report r⟩

variable {b b' : Workbench} {i : Nat}

/-- Behind the reference of a path is the pattern itself. -/
theorem view_ref (b : Workbench) (i n : Nat) : (b.pathOf i).view (b.ref i n) = b.pattern n := by
  unfold ref
  split
  · next hn =>
    show ((b.own i).map b.pattern).getD ((b.own i).idxOf n) default = b.pattern n
    have hlt := List.idxOf_lt_length_iff.2 hn
    rw [List.getD_eq_getElem _ _ (by rwa [List.length_map]), List.getElem_map, List.getElem_idxOf hlt]
  · rfl

/-- The patterns of the policy are the path's own, in their order. -/
theorem map_ref_own (h : (b.own i).Nodup) : (b.own i).map (b.ref i) = (b.pathOf i).refs := by
  have hlength : (b.pathOf i).patterns.length = (b.own i).length := List.length_map ..
  unfold Path.refs
  rw [hlength]
  refine List.ext_getElem (by simp) fun j hj _ => ?_
  rw [List.length_map] at hj
  rw [List.getElem_map, List.getElem_map, List.getElem_range, ref, if_pos (List.getElem_mem hj),
    h.idxOf_getElem]

theorem get?_labellingOf (b : Workbench) (i g : Nat) (x : String) :
    (b.labellingOf i g).get? x = ((b.bindings g).get? x).map (b.taintAt i) :=
  Table.get?_map ..

/-- The path has the multilabel for a condition or for a variable. -/
def Holds (b : Workbench) (i k : Nat) : Prop :=
  some k ∈ (b.path i).control ∨ ∃ g ∈ (b.path i).labellings, ∃ x, (b.bindings g).get? x = some (some k)

/-- A path as a value changes with what it holds, with its variables, its patterns and its nesting level. -/
theorem pathOf_eq (hlabels : (b'.path i).labels = (b.path i).labels)
    (hcontrolLabels : (b'.path i).controlLabels = (b.path i).controlLabels)
    (hcontrol : (b'.path i).control = (b.path i).control)
    (hbindings : ∀ g ∈ (b.path i).labellings, b'.bindings g = b.bindings g)
    (htaint : ∀ k, b.Holds i k → b'.taintOf i k = b.taintOf i k) :
    b'.pathOf i = { b.pathOf i with
      initialized := (b'.path i).initialized
      patterns := b'.policyPatterns (b'.path i).policy
      scope := (b'.path i).scope } := by
  have hlabelling : ∀ g ∈ (b.path i).labellings, b'.labellingOf i g = b.labellingOf i g := by
    intro g hg
    unfold labellingOf
    rw [hbindings g hg]
    refine congrArg Labelling.mk (Table.map_congr fun x m hx => ?_)
    cases m with
    | none => rfl
    | some k => exact htaint k (.inr ⟨g, hg, x, hx⟩)
  have hstack : (b'.path i).control.map (b'.taintAt i) = (b.path i).control.map (b.taintAt i) := by
    rw [hcontrol]
    refine List.map_congr_left fun m hm => ?_
    cases m with
    | none => rfl
    | some k => exact htaint k (.inl hm)
  unfold pathOf
  rw [hlabels, hcontrolLabels, hstack, hlabelling _ (b.path i).labels_mem, hlabelling _ (b.path i).controlLabels_mem]

/-! ## Benches on which a path can go on -/

/-- No reference leads off the bench, no label and no labelling of the path is shared, and the path has a multilabel
wherever it refers to one. -/
structure Ready (b : Workbench) (edition : Edition) (i r : Nat) : Prop where
  edition_eq : b.edition = edition
  closed : b.Closed
  owned : b.Owned
  nodup : (b.own i).Nodup
  own_lt : ∀ n ∈ b.own i, n < b.patterns.length
  path_lt : i < b.paths.length
  report_lt : r < b.reports.length
  labelling_lt : ∀ g ∈ (b.path i).labellings, g < b.labellings.length
  apart : (b.path i).labels ≠ (b.path i).controlLabels
  filled : ∀ g ∈ (b.path i).labellings, ∀ x, (b.bindings g).get? x ≠ some none
  control : ∀ m ∈ (b.path i).control, ∃ k, m = some k ∧ k < b.multiLabels.length

/-- What is not the path's own stays as it is: multilabels, labellings, patterns, reports and paths. -/
structure Untouched (i r : Nat) (b b' : Workbench) : Prop where
  edition : b'.edition = b.edition
  policies : b'.policies = b.policies
  policy : (b'.path i).policy = (b.path i).policy
  labels : (b'.path i).labels = (b.path i).labels
  controlLabels : (b'.path i).controlLabels = (b.path i).controlLabels
  patterns_length : b'.patterns.length = b.patterns.length
  pattern : ∀ n, n ∉ b.own i → b'.pattern n = b.pattern n
  multiLabels_le : b.multiLabels.length ≤ b'.multiLabels.length
  multiLabel : ∀ k, k < b.multiLabels.length → b'.multiLabel k = b.multiLabel k
  bindings : ∀ g, g ∉ (b.path i).labellings → b'.bindings g = b.bindings g
  report : ∀ s, s ≠ r → b'.report s = b.report s
  path : ∀ j, j ≠ i → b'.path j = b.path j

/-- Besides, the conditions around the path stay, and so does the multilabel of every variable that has one. -/
structure Later (i r : Nat) (b b' : Workbench) : Prop extends Untouched i r b b' where
  control : (b'.path i).control = (b.path i).control
  stored : ∀ g x k, (b.bindings g).get? x = some (some k) → (b'.bindings g).get? x = some (some k)
  new : ∀ g x k, (b'.bindings g).get? x = some (some k) →
    (b.bindings g).get? x = some (some k) ∨ b.multiLabels.length ≤ k

variable {b'' : Workbench} {r k : Nat} {edition : Edition}

theorem Ready.holds_lt (hb : b.Ready edition i r) (h : b.Holds i k) : k < b.multiLabels.length := by
  rcases h with h | ⟨g, -, x, hx⟩
  · obtain ⟨k', heq, hlt⟩ := hb.control _ h
    cases heq
    exact hlt
  · exact hb.closed.binds_bindings g x k hx

/-- A path knows the multilabel that is stored for a variable. -/
theorem Ready.get?_stored (hb : b.Ready edition i r) {g : Nat} (hg : g ∈ (b.path i).labellings) (x : String) :
    (b.labellingOf i g).get? x = (((b.bindings g).get? x).join).map (b.taintOf i) := by
  rw [get?_labellingOf]
  have hfilled := hb.filled g hg x
  cases h : (b.bindings g).get? x with
  | none => rfl
  | some m =>
    cases m with
    | none => exact absurd h hfilled
    | some k => rfl

theorem Ready.stored_lt (hb : b.Ready edition i r) {g : Nat} {x : String} (h : ((b.bindings g).get? x).join = some k) :
    k < b.multiLabels.length :=
  hb.closed.binds_bindings g x k (Option.join_eq_some_iff.1 h)

namespace Untouched

theorem refl (i r : Nat) (b : Workbench) : Untouched i r b b where
  edition := rfl
  policies := rfl
  policy := rfl
  labels := rfl
  controlLabels := rfl
  patterns_length := rfl
  pattern _ _ := rfl
  multiLabels_le := Nat.le_refl _
  multiLabel _ _ := rfl
  bindings _ _ := rfl
  report _ _ := rfl
  path _ _ := rfl

theorem own_eq (h : Untouched i r b b') : b'.own i = b.own i := by
  unfold own Workbench.policy
  rw [h.policy, h.policies]

theorem labellings_eq (h : Untouched i r b b') : (b'.path i).labellings = (b.path i).labellings := by
  unfold BenchPath.labellings
  rw [h.labels, h.controlLabels]

theorem trans (h : Untouched i r b b') (h' : Untouched i r b' b'') : Untouched i r b b'' where
  edition := h'.edition.trans h.edition
  policies := h'.policies.trans h.policies
  policy := h'.policy.trans h.policy
  labels := h'.labels.trans h.labels
  controlLabels := h'.controlLabels.trans h.controlLabels
  patterns_length := h'.patterns_length.trans h.patterns_length
  pattern n hn := (h'.pattern n (h.own_eq ▸ hn)).trans (h.pattern n hn)
  multiLabels_le := h.multiLabels_le.trans h'.multiLabels_le
  multiLabel k hk := (h'.multiLabel k (hk.trans_le h.multiLabels_le)).trans (h.multiLabel k hk)
  bindings g hg := (h'.bindings g (h.labellings_eq ▸ hg)).trans (h.bindings g hg)
  report s hs := (h'.report s hs).trans (h.report s hs)
  path j hj := (h'.path j hj).trans (h.path j hj)

theorem ref_eq (h : Untouched i r b b') : b'.ref i = b.ref i := by
  funext n
  unfold ref
  rw [h.own_eq]
  split
  · rfl
  · next hn => rw [h.pattern n hn]

/-- A multilabel that is there stays the same to the path. -/
theorem taintOf_eq (h : Untouched i r b b') (hk : k < b.multiLabels.length) : b'.taintOf i k = b.taintOf i k := by
  unfold taintOf
  rw [h.multiLabel k hk, h.ref_eq]

end Untouched

namespace Later

theorem refl (i r : Nat) (b : Workbench) : Later i r b b where
  toUntouched := .refl i r b
  control := rfl
  stored _ _ _ h := h
  new _ _ _ h := .inl h

theorem trans (h : Later i r b b') (h' : Later i r b' b'') : Later i r b b'' where
  toUntouched := h.toUntouched.trans h'.toUntouched
  control := h'.control.trans h.control
  stored g x k hx := h'.stored g x k (h.stored g x k hx)
  new g x k hx := by
    rcases h'.new g x k hx with hx | hk
    · exact h.new g x k hx
    · exact .inr (h.multiLabels_le.trans hk)

/-- A multilabel that the path comes to hold is new. -/
theorem holds (h : Later i r b b') (hk : b'.Holds i k) : b.Holds i k ∨ b.multiLabels.length ≤ k := by
  rcases hk with hk | ⟨g, hg, x, hx⟩
  · exact .inl (.inl (h.control ▸ hk))
  · exact (h.new g x k hx).imp_left fun hx => .inr ⟨g, h.labellings_eq ▸ hg, x, hx⟩

end Later

/-! ## Moves on the bench -/

section Adding

variable {m : MultiLabel Nat} (hb : b.Ready edition i r)
  (hm : ∀ name t, m.entries.get? name = some t → t.pattern < b.patterns.length)

include hb hm

theorem Ready.adding : (b.adding m).Ready edition i r where
  edition_eq := hb.edition_eq
  closed := (grows_adding hm).closed hb.closed
  owned := hb.owned.adding hb.closed m
  nodup := hb.nodup
  own_lt := hb.own_lt
  path_lt := hb.path_lt
  report_lt := hb.report_lt
  labelling_lt := hb.labelling_lt
  apart := hb.apart
  filled := hb.filled
  control m hm' := by
    obtain ⟨k, heq, hk⟩ := hb.control m hm'
    exact ⟨k, heq, hk.trans_le (grows_adding hm).ext.multiLabels.length_le⟩

theorem later_adding : Later i r b (b.adding m) :=
  { Later.refl i r b with
    multiLabels_le := (grows_adding hm).ext.multiLabels.length_le
    multiLabel := fun _ hk => (grows_adding hm).ext.multiLabel hb.closed hk
    new := fun _ _ _ hx => .inl hx }

theorem world_adding : (b.adding m).world i r = b.world i r := by
  have hpath : (b.adding m).pathOf i = b.pathOf i :=
    pathOf_eq rfl rfl rfl (fun _ _ => rfl) fun k hk => (later_adding hb hm).taintOf_eq (hb.holds_lt hk)
  unfold world
  rw [hpath]
  rfl

theorem taintOf_adding : (b.adding m).taintOf i b.multiLabels.length = m.mapPatterns (b.ref i) := by
  unfold taintOf
  rw [multiLabel_adding, (later_adding hb hm).ref_eq]

end Adding

section Relabelling

variable {b₀ : Workbench} {labels : List Label}

theorem Ready.relabelled (hb : b.Ready edition i r) (hlength : labels.length = b.labels.length) :
    ({ b with labels } : Workbench).Ready edition i r :=
  { hb with
    closed := hb.closed.relabelled hlength }

variable (hother : ∀ j, j ≠ k → ({ b with labels } : Workbench).multiLabel j = b.multiLabel j)

include hother

theorem Later.relabelled (h : Later i r b₀ b) (hk : b₀.multiLabels.length ≤ k) : Later i r b₀ { b with labels } :=
  { h with
    multiLabel := fun j hj => (hother j (by omega)).trans (h.multiLabel j hj) }

theorem world_relabelled (hfree : ¬ b.Holds i k) : ({ b with labels } : Workbench).world i r = b.world i r := by
  have hpath : ({ b with labels } : Workbench).pathOf i = b.pathOf i := by
    refine pathOf_eq rfl rfl rfl (fun _ _ => rfl) fun j hj => ?_
    have hne : j ≠ k := fun heq => hfree (heq ▸ hj)
    exact congrArg (MultiLabel.mapPatterns (b.ref i)) (hother j hne)
  unfold world
  rw [hpath]
  rfl

end Relabelling

section Patterns

variable {b₀ : Workbench} {patterns : List Pattern} (hlength : patterns.length = b.patterns.length)

include hlength

theorem Ready.repatterned (hb : b.Ready edition i r) : ({ b with patterns } : Workbench).Ready edition i r :=
  { hb with
    closed := hb.closed.of_le hlength.ge (Nat.le_refl _) (Nat.le_refl _) (fun _ ht => .inl ht) fun _ ht => .inl ht
    own_lt := fun n hn => (hb.own_lt n hn).trans_eq hlength.symm }

variable (hother : ∀ n, n ∉ b.own i → patterns.getD n default = b.pattern n)

include hother

theorem Later.repatterned (h : Later i r b₀ b) : Later i r b₀ { b with patterns } :=
  { h with
    patterns_length := hlength.trans h.patterns_length
    pattern := fun n hn => (hother n (h.own_eq ▸ hn)).trans (h.pattern n hn) }

theorem pathOf_repatterned : ({ b with patterns } : Workbench).pathOf i =
    { b.pathOf i with patterns := (b.own i).map fun n => patterns.getD n default } := by
  refine pathOf_eq rfl rfl rfl (fun _ _ => rfl) fun k _ => ?_
  have hframe : Untouched i 0 b { b with patterns } :=
    { Untouched.refl i 0 b with
      patterns_length := hlength
      pattern := hother }
  exact congrArg (b.multiLabel k).mapPatterns hframe.ref_eq

end Patterns

section Variables

variable {b₀ : Workbench} (hb : b.Ready edition i r) (names : List String)

/-- The bench on which the path counts other variables as assigned. -/
def marking (b : Workbench) (i : Nat) (names : List String) : Workbench :=
  { b with paths := b.paths.set i { b.path i with initialized := names } }

include hb

theorem Ready.path_marking : (b.marking i names).path i = { b.path i with initialized := names } :=
  getD_set_self hb.path_lt _

theorem Ready.marking : (b.marking i names).Ready edition i r := by
  have hpath := hb.path_marking names
  have hown : (b.marking i names).own i = b.own i := by
    unfold own
    rw [hpath]
    rfl
  have hlabellings : ((b.marking i names).path i).labellings = (b.path i).labellings := by
    rw [hpath]
    rfl
  exact
    { edition_eq := hb.edition_eq
      closed := ⟨hb.closed.slots, hb.closed.bindings⟩
      owned := hb.owned
      nodup := hown ▸ hb.nodup
      own_lt := hown ▸ hb.own_lt
      path_lt := hb.path_lt.trans_eq List.length_set.symm
      report_lt := hb.report_lt
      labelling_lt := hlabellings ▸ hb.labelling_lt
      apart := by rw [hpath]; exact hb.apart
      filled := hlabellings ▸ hb.filled
      control := by rw [hpath]; exact hb.control }

theorem Ready.later_marking : Later i r b (b.marking i names) := by
  have hpath := hb.path_marking names
  exact
    { Later.refl i r b with
      policy := by rw [hpath]
      labels := by rw [hpath]
      controlLabels := by rw [hpath]
      control := by rw [hpath]
      path := fun _ hj => getD_set_ne _ hj _ }

theorem Ready.pathOf_marking : (b.marking i names).pathOf i = { b.pathOf i with initialized := names } := by
  have hpath := hb.path_marking names
  have hlabels : ((b.marking i names).path i).labels = (b.path i).labels := by rw [hpath]
  refine (pathOf_eq hlabels (by rw [hpath]) (by rw [hpath]) (fun _ _ => rfl) fun k hk => ?_).trans ?_
  · exact (hb.later_marking names).taintOf_eq (hb.holds_lt hk)
  · rw [hpath]
    rfl

end Variables

section Bindings

variable {b₀ : Workbench} {g : Nat} {x : String}

/-- The bench on which a labelling has a multilabel for a variable. -/
def binding (b : Workbench) (g : Nat) (x : String) (k : Nat) : Workbench :=
  { b with labellings := b.labellings.set g ((b.bindings g).insert x (some k)) }

theorem bindings_binding_ne {g' : Nat} (h : g' ≠ g) (k : Nat) : (b.binding g x k).bindings g' = b.bindings g' :=
  getD_set_ne _ h _

variable (hb : b.Ready edition i r) (hg : g ∈ (b.path i).labellings)

include hb hg

theorem Ready.bindings_binding (k : Nat) : (b.binding g x k).bindings g = (b.bindings g).insert x (some k) :=
  getD_set_self (hb.labelling_lt g hg) _

theorem Ready.get?_binding (k : Nat) (g' : Nat) (y : String) : ((b.binding g x k).bindings g').get? y =
    if g' = g ∧ y = x then some (some k) else (b.bindings g').get? y := by
  by_cases h : g' = g
  · subst h
    rw [hb.bindings_binding hg, Table.get?_insert]
    simp
  · rw [bindings_binding_ne h]
    simp [h]

theorem Ready.binding (hk : k < b.multiLabels.length) : (b.binding g x k).Ready edition i r :=
  { hb with
    closed :=
      { slots := hb.closed.slots
        bindings := by
          intro t ht
          rcases List.mem_or_eq_of_mem_set ht with ht | rfl
          · exact hb.closed.bindings t ht
          · intro y j hj
            rw [Table.get?_insert] at hj
            split at hj
            · cases hj
              exact hk
            · exact hb.closed.binds_bindings g y j hj }
    labelling_lt := fun g' hg' => (hb.labelling_lt g' hg').trans_eq List.length_set.symm
    filled := by
      intro g' hg' y
      rw [hb.get?_binding hg]
      split
      · simp
      · exact hb.filled g' hg' y }

omit hb in
theorem untouched_binding (k : Nat) : Untouched i r b (b.binding g x k) :=
  { Untouched.refl i r b with
    bindings := fun g' hg' => bindings_binding_ne (fun heq => hg' (by rw [heq]; exact hg)) k }

/-- A variable that had none gets a new multilabel. -/
theorem Ready.later_binding (h : Later i r b₀ b) (hnone : ((b.bindings g).get? x).join = none)
    (hk : b₀.multiLabels.length ≤ k) : Later i r b₀ (b.binding g x k) :=
  { h.toUntouched.trans (untouched_binding hg k) with
    control := h.control
    stored := by
      intro g' y j hj
      have hold := h.stored g' y j hj
      rw [hb.get?_binding hg, if_neg]
      · exact hold
      · rintro ⟨rfl, rfl⟩
        rw [hold] at hnone
        cases hnone
    new := by
      intro g' y j hj
      rw [hb.get?_binding hg] at hj
      split at hj
      · cases hj
        exact .inr hk
      · exact h.new g' y j hj }

theorem Ready.labellingOf_binding (k : Nat) :
    (b.binding g x k).labellingOf i g = (b.labellingOf i g).update x (b.taintOf i k) := by
  unfold labellingOf Labelling.update
  rw [hb.bindings_binding hg, Table.map_insert]
  rfl

end Bindings

theorem pathOf_binding_labels (hb : b.Ready edition i r) (x : String) (k : Nat) :
    (b.binding (b.path i).labels x k).pathOf i =
      { b.pathOf i with labels := (b.pathOf i).labels.update x (b.taintOf i k) } := by
  have hcontrol : (b.binding (b.path i).labels x k).labellingOf i (b.path i).controlLabels =
      b.labellingOf i (b.path i).controlLabels :=
    congrArg (fun t => Labelling.mk (t.map (b.taintAt i))) (bindings_binding_ne hb.apart.symm k)
  have hlabels := hb.labellingOf_binding (x := x) (b.path i).labels_mem k
  unfold pathOf
  rw [← hlabels, ← hcontrol]
  rfl

theorem pathOf_binding_controlLabels (hb : b.Ready edition i r) (x : String) (k : Nat) :
    (b.binding (b.path i).controlLabels x k).pathOf i =
      { b.pathOf i with controlLabels := (b.pathOf i).controlLabels.update x (b.taintOf i k) } := by
  have hlabels : (b.binding (b.path i).controlLabels x k).labellingOf i (b.path i).labels =
      b.labellingOf i (b.path i).labels :=
    congrArg (fun t => Labelling.mk (t.map (b.taintAt i))) (bindings_binding_ne hb.apart k)
  have hcontrol := hb.labellingOf_binding (x := x) (b.path i).controlLabels_mem k
  unfold pathOf
  rw [← hcontrol, ← hlabels]
  rfl

/-- The bench with another report. -/
def reporting (b : Workbench) (r : Nat) (report : Report) : Workbench := { b with reports := b.reports.set r report }

theorem Ready.reporting (hb : b.Ready edition i r) (report : Report) : (b.reporting r report).Ready edition i r :=
  { hb with
    closed := ⟨hb.closed.slots, hb.closed.bindings⟩
    report_lt := hb.report_lt.trans_eq List.length_set.symm }

theorem later_reporting (i : Nat) (b : Workbench) (r : Nat) (report : Report) : Later i r b (b.reporting r report) :=
  { Later.refl i r b with
    report := fun _ hs => getD_set_ne _ hs _ }

theorem Ready.world_reporting (hb : b.Ready edition i r) (report : Report) :
    (b.reporting r report).world i r = { b.world i r with report } :=
  congrArg (World.mk (b.pathOf i)) (getD_set_self hb.report_lt report)

end Workbench

end TaintFlow
