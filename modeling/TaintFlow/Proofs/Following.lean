import TaintFlow.Proofs.Sight

/-
Work on a bench that follows the steps of the analysis. The work comes to the same fault as the steps, or to a result
that goes with theirs, and the bench then shows the world that the steps lead to. New multilabels do not show in the
world, and neither does a change of one in place, as long as it is new and the path does not hold it.
-/
namespace TaintFlow

open Workbench

/-! ## Work that follows steps of the analysis -/

namespace Work

variable {α β γ δ : Type} {i r : Nat} {R R' : Workbench → Prop} {b b' : Workbench} {a : α} {c : β}
  {Q Q' : α → β → Workbench → Prop} {S : γ → δ → Workbench → Prop} {x : Work α} {y y' : Eval β}

theorem Yields.place (i : Nat) (spot : Spot) (b : Workbench) :
    Yields (place i spot) b (b.edition.place spot (b.path i).scope) b := rfl

theorem Yields.stored? (g : Nat) (x : String) (b : Workbench) :
    Yields (stored? g x) b ((b.bindings g).get? x).join b := rfl

theorem run_bind_error {f : α → Work γ} {fault : Fault} (h : x.run.run b = (.error fault, b')) :
    (x >>= f).run.run b = (.error fault, b') := by
  rw [ExceptT.run_bind, StateT.run_bind, h]
  rfl

theorem run_bind_ok {f : α → Work γ} (h : x.Yields b a b') : (x >>= f).run.run b = (f a).run.run b' := by
  rw [ExceptT.run_bind, StateT.run_bind, show x.run.run b = (.ok a, b') from h]
  rfl

/-- The work comes to the same fault as the steps, or to a result that goes with theirs, and leaves a bench with the
world that the steps lead to. -/
structure Follows (i r : Nat) (R : Workbench → Prop) (x : Work α) (y : Eval β) (b : Workbench)
    (Q : α → β → Workbench → Prop) : Prop where
  ok : ∀ a b', x.Yields b a b' → R b' ∧ ∃ c, y.run (b.world i r) = (.ok c, b'.world i r) ∧ Q a c b'
  error : ∀ fault b', x.run.run b = (.error fault, b') → R b' ∧ y.run (b.world i r) = (.error fault, b'.world i r)

namespace Follows

/-- Work and steps with one outcome each. -/
theorem of_yields (hx : x.Yields b a b') (hy : y.run (b.world i r) = (.ok c, b'.world i r)) (hR : R b')
    (hq : Q a c b') : Follows i r R x y b Q where
  ok a' b'' h := by
    obtain ⟨rfl, rfl⟩ := hx.unique h
    exact ⟨hR, c, hy, hq⟩
  error _ _ h := by cases hx.symm.trans h

theorem of_error {fault : Fault} (hx : x.run.run b = (.error fault, b'))
    (hy : y.run (b.world i r) = (.error fault, b'.world i r)) (hR : R b') : Follows i r R x y b Q where
  ok _ _ h := by cases hx.symm.trans h
  error _ _ h := by
    cases hx.symm.trans h
    exact ⟨hR, hy⟩

theorem pure (hR : R b) (hq : Q a c b) : Follows i r R (pure a) (pure c) b Q := of_yields (.pure a b) rfl hR hq

theorem throw (fault : Fault) (hR : R b) : Follows i r R (throw fault) (throw fault) b Q := of_error rfl rfl hR

theorem bind {f : α → Work γ} {g : β → Eval δ} (hx : Follows i r R x y b Q)
    (hf : ∀ a c b', R b' → Q a c b' → Follows i r R (f a) (g c) b' S) : Follows i r R (x >>= f) (y >>= g) b S := by
  obtain ⟨o, b₁, hrun⟩ : ∃ o b₁, x.run.run b = (o, b₁) := ⟨_, _, rfl⟩
  cases o with
  | ok a =>
    obtain ⟨hR, c, hy, hq⟩ := hx.ok a b₁ hrun
    have hrest := hf a c b₁ hR hq
    refine ⟨fun a' b' h => ?_, fun fault b' h => ?_⟩
    · rw [Eval.run_bind, hy]
      exact hrest.ok a' b' ((run_bind_ok hrun).symm.trans h)
    · rw [Eval.run_bind, hy]
      exact hrest.error fault b' ((run_bind_ok hrun).symm.trans h)
  | error fault =>
    obtain ⟨hR, hy⟩ := hx.error fault b₁ hrun
    exact of_error (run_bind_error hrun) (by rw [Eval.run_bind, hy]) hR

/-- Work with one outcome, after which steps remain. -/
theorem step {f : α → Work γ} {y y' : Eval δ} (hx : x.Yields b a b')
    (hy : y.run (b.world i r) = y'.run (b'.world i r)) (h : Follows i r R (f a) y' b' S) :
    Follows i r R (x >>= f) y b S where
  ok a' b'' hrun := hy ▸ h.ok a' b'' ((run_bind_ok hx).symm.trans hrun)
  error fault b'' hrun := hy ▸ h.error fault b'' ((run_bind_ok hx).symm.trans hrun)

/-- Work that leaves the world as it is. -/
theorem left {f : α → Work γ} {y : Eval δ} (hx : x.Yields b a b') (hworld : b'.world i r = b.world i r)
    (h : Follows i r R (f a) y b' S) : Follows i r R (x >>= f) y b S :=
  step hx (by rw [hworld]) h

theorem congr (hy : y.run (b.world i r) = y'.run (b.world i r)) (h : Follows i r R x y' b Q) :
    Follows i r R x y b Q where
  ok a b' hrun := hy ▸ h.ok a b' hrun
  error fault b' hrun := hy ▸ h.error fault b' hrun

/-- Steps that leave the world as it is. -/
theorem right {x : Work γ} {g : β → Eval δ} (hy : y.run (b.world i r) = (.ok c, b.world i r))
    (h : Follows i r R x (g c) b S) : Follows i r R x (y >>= g) b S :=
  h.congr (by rw [Eval.run_bind, hy])

theorem imp (h : Follows i r R x y b Q) (hR : ∀ b', R b' → R' b') (hq : ∀ a c b', R b' → Q a c b' → Q' a c b') :
    Follows i r R' x y b Q' where
  ok a b' hrun := by
    obtain ⟨hb', c, hy, hac⟩ := h.ok a b' hrun
    exact ⟨hR b' hb', c, hy, hq a c b' hb' hac⟩
  error fault b' hrun := (h.error fault b' hrun).imp_left (hR b')

theorem weaken (h : Follows i r R x y b Q) (hq : ∀ a c b', Q a c b' → Q' a c b') : Follows i r R x y b Q' :=
  h.imp (fun _ hb' => hb') fun a c b' _ => hq a c b'

/-- The outcome of the steps, read off from that of the work. -/
theorem run_eq {g : Workbench → α → β} (h : Follows i r R x y b fun a c b' => g b' a = c) :
    y.run (b.world i r) = ((x.run.run b).1.map (g (x.run.run b).2), (x.run.run b).2.world i r) ∧
      R (x.run.run b).2 := by
  obtain ⟨o, b', hrun⟩ : ∃ o b', x.run.run b = (o, b') := ⟨_, _, rfl⟩
  rw [hrun]
  cases o with
  | ok a =>
    obtain ⟨hR, c, hy, rfl⟩ := h.ok a b' hrun
    exact ⟨hy, hR⟩
  | error fault => exact (h.error fault b' hrun).symm

end Follows

end Work

/-! ## Multilabels at hand -/

namespace Workbench

variable {b b' b₀ : Workbench} {edition : Edition} {i r k : Nat} {m : Taint}

/-- The multilabel is on the bench, and is this taint to the path. -/
structure Stands (b : Workbench) (i k : Nat) (m : Taint) : Prop where
  lt : k < b.multiLabels.length
  taintOf_eq : b.taintOf i k = m

theorem Stands.mono (h : b.Stands i k m) (hb : Untouched i r b b') : b'.Stands i k m :=
  ⟨h.lt.trans_le hb.multiLabels_le, (hb.taintOf_eq h.lt).trans h.taintOf_eq⟩

/-- The multilabel was not on the bench before, and the path does not hold it. -/
structure Fresh (i : Nat) (b₀ b : Workbench) (k : Nat) : Prop where
  le : b₀.multiLabels.length ≤ k
  free : ¬ b.Holds i k

theorem Fresh.mono (h : Fresh i b₀ b k) (hk : k < b.multiLabels.length) (hb : Later i r b b') : Fresh i b₀ b' k :=
  ⟨h.le, fun hheld => (hb.holds hheld).elim h.free fun hle => Nat.lt_irrefl _ (hk.trans_le hle)⟩

/-- The path has gone on from one bench to another, and can go on. -/
structure Reaches (edition : Edition) (i r : Nat) (b b' : Workbench) : Prop where
  later : Later i r b b'
  ready : b'.Ready edition i r

theorem Reaches.trans {b'' : Workbench} (h : Reaches edition i r b b') (h' : Reaches edition i r b' b'') :
    Reaches edition i r b b'' :=
  ⟨h.later.trans h'.later, h'.ready⟩

theorem Fresh.since (h : Fresh i b b' k) (h₀ : Reaches edition i r b₀ b) : Fresh i b₀ b' k :=
  ⟨h₀.later.multiLabels_le.trans h.le, h.free⟩

/-- A new multilabel was changed in place. -/
structure Changed (edition : Edition) (i r : Nat) (b₀ b b' : Workbench) (k : Nat) (m : Taint) : Prop where
  world : b'.world i r = b.world i r
  reaches : Reaches edition i r b₀ b'
  stands : b'.Stands i k m
  others : ∀ j n, j ≠ k → b.Stands i j n → b'.Stands i j n
  fresh : ∀ j, Fresh i b₀ b j → Fresh i b₀ b' j

theorem Changed.refl (h : Reaches edition i r b₀ b) (hm : b.Stands i k m) : Changed edition i r b₀ b b k m :=
  ⟨rfl, h, hm, fun _ _ _ hn => hn, fun _ hj => hj⟩

theorem Changed.pathOf_eq (h : Changed edition i r b₀ b b' k m) : b'.pathOf i = b.pathOf i :=
  congrArg World.path h.world

end Workbench

namespace Work

variable {b b' b₀ : Workbench} {edition : Edition} {i r k l : Nat} {m n : Taint}

/-- What follows from one bench on follows from an earlier one. -/
theorem Follows.since {α β : Type} {x : Work α} {y : Eval β} {Q : α → β → Workbench → Prop}
    (h : Follows i r (Reaches edition i r b) x y b Q) (h₀ : Reaches edition i r b₀ b) :
    Follows i r (Reaches edition i r b₀) x y b fun a c b' => Later i r b b' ∧ Q a c b' :=
  h.imp (fun _ hb' => h₀.trans hb') fun _ _ _ hb' hq => ⟨hb'.later, hq⟩

/-- Work that makes a new multilabel for a taint, and leaves the world as it is. -/
def Makes (edition : Edition) (i r : Nat) (x : Work Nat) (b : Workbench) (m : Taint) : Prop :=
  ∃ k b', x.Yields b k b' ∧ b'.world i r = b.world i r ∧ Reaches edition i r b b' ∧ b'.Stands i k m ∧ Fresh i b b' k

theorem makes_addMultiLabel (hb : b.Ready edition i r) {m : MultiLabel Nat}
    (hm : ∀ name t, m.entries.get? name = some t → t.pattern < b.patterns.length) :
    Makes edition i r (addMultiLabel m) b (m.mapPatterns (b.ref i)) := by
  refine ⟨_, _, addMultiLabel_yields b m, world_adding hb hm, ⟨later_adding hb hm, hb.adding hm⟩,
    ⟨by simp [adding], taintOf_adding hb hm⟩, Nat.le_refl _, fun hheld => ?_⟩
  exact Nat.lt_irrefl _ (hb.holds_lt (b := b) hheld)

theorem makes_newMultiLabel (hb : b.Ready edition i r) :
    Makes edition i r (newMultiLabel (b.own i)) b (b.pathOf i).clean := by
  have hm : ∀ name t, (MultiLabel.ofPatterns b.pattern (b.own i)).entries.get? name = some t →
      t.pattern < b.patterns.length := by
    intro name t ht
    obtain ⟨n, hn, he⟩ := List.mem_map.1 (Table.mem_of_get?_ofList ht)
    cases he
    exact hb.own_lt n hn
  obtain ⟨k, b', hyield, hmade⟩ := makes_addMultiLabel hb hm
  have hview : ∀ n ∈ b.own i, (b.pathOf i).view (b.ref i n) = b.pattern n := fun n _ => view_ref b i n
  rw [MultiLabel.mapPatterns_ofPatterns hview, map_ref_own hb.nodup] at hmade
  exact ⟨k, b', (Yields.bench b).bind hyield, hmade⟩

theorem makes_clean (hb : b.Ready edition i r) : Makes edition i r (clean i) b (b.pathOf i).clean := by
  obtain ⟨k, b', hyield, hmade⟩ := makes_newMultiLabel hb
  exact ⟨k, b', (Yields.bench b).bind hyield, hmade⟩

theorem makes_detect (hb : b.Ready edition i r) (hk : b.Stands i k m) (sink : String) :
    Makes edition i r (detect (b.path i).policy sink k) b ((b.pathOf i).detect sink m) := by
  have hpattern : ∀ name t, (Policy.detect b.pattern (b.own i) sink (b.multiLabel k)).entries.get? name = some t →
      t.pattern < b.patterns.length := by
    intro name t ht
    obtain ⟨n, hn, he⟩ := List.mem_filterMap.1 (Table.mem_of_get?_ofList ht)
    obtain ⟨_, -, he⟩ := Option.map_eq_some_iff.1 he
    cases he
    exact hb.own_lt n hn
  obtain ⟨j, b', hyield, hmade⟩ := makes_addMultiLabel hb hpattern
  have hview : ∀ n ∈ b.own i, (b.pathOf i).view (b.ref i n) = b.pattern n := fun n _ => view_ref b i n
  rw [Policy.mapPatterns_detect hview, map_ref_own hb.nodup] at hmade
  rw [← hk.taintOf_eq]
  exact ⟨j, b', (Yields.bench b).bind hyield, hmade⟩

/-! ## Changes in place -/

/-- The labels of a new multilabel are changed, and nothing else. -/
theorem relabel_changes (h : Reaches edition i r b₀ b) (hk : Fresh i b₀ b k) (hm : b.Stands i k m) {q : Nat → Bool}
    {p : PatternRef → Bool} (hq : ∀ n, p (b.ref i n) = q n) (f : Label → Label) :
    ∃ b', Yields ((b.slots k).values.forM fun s => if q s.pattern then changeLabel s.label f else pure ()) b () b' ∧
      Changed edition i r b₀ b b' k (m.mapLabels p f) := by
  obtain ⟨labels, hyield, hlength, hnew, hother⟩ := relabel_yields h.ready.closed h.ready.owned k q f
  refine ⟨_, hyield, world_relabelled hother hk.free, ⟨h.later.relabelled hother hk.le, h.ready.relabelled hlength⟩,
    ⟨hm.lt, ?_⟩, fun j n hj hn => ⟨hn.lt, ?_⟩, fun j hj => ⟨hj.le, hj.free⟩⟩
  · rw [← hm.taintOf_eq]
    refine (congrArg (MultiLabel.mapPatterns (b.ref i)) hnew).trans ?_
    exact MultiLabel.mapPatterns_mapLabels f hq
  · rw [← hn.taintOf_eq]
    exact congrArg (MultiLabel.mapPatterns (b.ref i)) (hother j hj)

theorem addSourceAt_changes (h : Reaches edition i r b₀ b) (hk : Fresh i b₀ b k) (hm : b.Stands i k m) (name : String)
    (spot : Spot) :
    ∃ b', (addSourceAt i k name spot).Yields b () b' ∧ Changed edition i r b₀ b b' k
      ((b.pathOf i).addSource m name (edition.place spot (b.pathOf i).scope)) := by
  obtain ⟨b', hyield, hchanged⟩ := relabel_changes h hk hm (q := fun n => (b.pattern n).isSource name)
    (p := fun p => ((b.pathOf i).view p).isSource name) (fun n => by rw [view_ref])
    (·.addSource name (edition.place spot (b.pathOf i).scope))
  refine ⟨b', ?_, hchanged⟩
  rw [← h.ready.edition_eq] at hyield
  exact (Yields.place i spot b).bind ((Yields.bench b).bind hyield)

theorem addKnownSource_changes (h : Reaches edition i r b₀ b) (hk : Fresh i b₀ b k) (hm : b.Stands i k m)
    (name : String) (spot : Spot) :
    ∃ b', (addKnownSource i k name spot).Yields b () b' ∧ Changed edition i r b₀ b b' k
      ((b.pathOf i).addKnownSource edition m name spot) := by
  unfold addKnownSource Path.addKnownSource
  have hknows : (b.policyPatterns (b.path i).policy).any (·.isSource name) = (b.pathOf i).knowsSource name := rfl
  by_cases hname : (b.pathOf i).knowsSource name = true
  · obtain ⟨b', hyield, hchanged⟩ := addSourceAt_changes h hk hm name spot
    refine ⟨b', (Yields.bench b).bind ?_, by rwa [if_pos hname]⟩
    rw [hknows, if_pos hname]
    exact hyield
  · refine ⟨b, (Yields.bench b).bind ?_, by rw [if_neg hname]; exact .refl h hm⟩
    rw [hknows, if_neg hname]
    exact .pure _ _

/-! ## Steps that move the path on -/

/-- The patterns of the path are changed, and no others. -/
theorem changePatterns_reaches (hb : b.Ready edition i r) (f : Pattern → Pattern) :
    ∃ b', Yields ((b.own i).forM fun n => changePattern n f) b () b' ∧ Reaches edition i r b b' ∧
      b'.world i r = { b.world i r with path := { b.pathOf i with patterns := (b.pathOf i).patterns.map f } } := by
  have hother : ∀ n, n ∉ b.own i → (setEach id (fun _ => f) b.patterns (b.own i)).getD n default = b.pattern n :=
    fun n hn => getD_setEach_of_notMem _ (by rwa [List.map_id])
  refine ⟨_, forM_changePattern f (b.own i) b, ⟨(Later.refl i r b).repatterned (length_setEach ..) hother,
    hb.repatterned (length_setEach ..)⟩, ?_⟩
  have hpatterns : (b.own i).map (fun n => (setEach id (fun _ => f) b.patterns (b.own i)).getD n default) =
      (b.pathOf i).patterns.map f := by
    show _ = ((b.own i).map b.pattern).map f
    rw [List.map_map]
    refine List.map_congr_left fun n hn => ?_
    exact getD_setEach _ (by rw [List.map_id]; exact hb.nodup) hn (hb.own_lt n hn)
  refine congrArg (World.mk · (b.report r)) ((pathOf_repatterned (length_setEach ..) hother).trans ?_)
  rw [hpatterns]

theorem discover_reaches (hb : b.Ready edition i r) (name : String) :
    ∃ b', (discover (b.path i).policy name).Yields b () b' ∧ Reaches edition i r b b' ∧
      b'.world i r = { b.world i r with path := (b.pathOf i).discover name } := by
  obtain ⟨b', hyield, hb', hworld⟩ := changePatterns_reaches hb (·.addSource name)
  exact ⟨b', (Yields.bench b).bind hyield, hb', hworld⟩

theorem discoverImplicit_reaches (hb : b.Ready edition i r) (name : String) :
    ∃ b', (discoverImplicit (b.path i).policy name).Yields b () b' ∧ Reaches edition i r b b' ∧
      b'.world i r = { b.world i r with path := (b.pathOf i).discoverImplicit name } := by
  obtain ⟨b', hyield, hb', hworld⟩ :=
    changePatterns_reaches hb fun q => if q.implicit then q.addSource name else q
  exact ⟨b', (Yields.bench b).bind hyield, hb', hworld⟩

theorem markInitialized_reaches (hb : b.Ready edition i r) (name : String) :
    ∃ b', (markInitialized i name).Yields b () b' ∧ Reaches edition i r b b' ∧
      b'.world i r = { b.world i r with path := (b.pathOf i).markInitialized name } := by
  refine ⟨b.marking i (Listing.adjoin (b.path i).initialized name), rfl, ⟨hb.later_marking _, hb.marking _⟩, ?_⟩
  exact congrArg (World.mk · (b.report r)) (hb.pathOf_marking _)

/-- A name becomes a source before its flow is put on the new multilabel. -/
theorem notice_reaches (hb : b.Ready edition i r) (id : String) (spot : Spot) (context : Context) :
    ∃ b', (notice i id context).Yields b () b' ∧ Reaches edition i r b b' ∧ (b'.pathOf i).clean = (b.pathOf i).clean ∧
      (Eval.readUnassigned edition id spot context).run (b.world i r) =
        (.ok ((b'.pathOf i).addSource (b'.pathOf i).clean id (edition.place spot (b'.pathOf i).scope)),
          b'.world i r) := by
  cases context with
  | value =>
    obtain ⟨b₁, hyield₁, hb₁, hworld₁⟩ := discover_reaches hb id
    obtain ⟨b₂, hyield₂, hb₂, hworld₂⟩ := markInitialized_reaches hb₁.ready id
    have hpath₁ : b₁.pathOf i = (b.pathOf i).discover id := congrArg World.path hworld₁
    have hpath₂ : b₂.pathOf i = ((b.pathOf i).discover id).markInitialized id :=
      (congrArg World.path hworld₂).trans (congrArg (Path.markInitialized · id) hpath₁)
    refine ⟨b₂, (Yields.bench b).bind (hyield₁.bind hyield₂), hb₁.trans hb₂, ?_, ?_⟩
    · rw [hpath₂]
      exact (Path.grows_discover (N := fun _ => True) trivial (b.pathOf i)).clean
    · rw [hworld₂, hworld₁, hpath₂, hpath₁]
      rfl
  | condition =>
    obtain ⟨b₁, hyield₁, hb₁, hworld₁⟩ := discoverImplicit_reaches hb id
    have hpath₁ : b₁.pathOf i = (b.pathOf i).discoverImplicit id := congrArg World.path hworld₁
    refine ⟨b₁, (Yields.bench b).bind hyield₁, hb₁, ?_, ?_⟩
    · rw [hpath₁]
      exact (Path.grows_discoverImplicit (N := fun _ => True) trivial (b.pathOf i)).clean
    · rw [hworld₁, hpath₁]
      rfl
  | control => exact ⟨b, (Yields.bench b).bind (.pure _ _), ⟨.refl i r b, hb⟩, rfl, rfl⟩
  | other => exact ⟨b, (Yields.bench b).bind (.pure _ _), ⟨.refl i r b, hb⟩, rfl, rfl⟩

theorem follows_readUnassigned (hb : b.Ready edition i r) (id : String) (spot : Spot) (context : Context) :
    Follows i r (Reaches edition i r b) (readUnassigned i id spot context)
      (Eval.readUnassigned edition id spot context) b fun k m b' => b'.Stands i k m := by
  obtain ⟨k, b₁, hclean, hworld₁, hb₁, hk, hfresh⟩ := makes_clean hb
  obtain ⟨b₂, hnotice, hb₂, hsame, hread⟩ := notice_reaches hb₁.ready id spot context
  have hpath₁ : b₁.pathOf i = b.pathOf i := congrArg World.path hworld₁
  have hk₂ : b₂.Stands i k (b₂.pathOf i).clean := by
    rw [hsame, hpath₁]
    exact hk.mono hb₂.later.toUntouched
  obtain ⟨b₃, hsource, hchanged⟩ :=
    addSourceAt_changes (hb₁.trans hb₂) (hfresh.mono hk.lt hb₂.later) hk₂ id spot
  refine .of_yields (hclean.bind (hnotice.bind (hsource.bind (.pure _ _)))) ?_ hchanged.reaches hchanged.stands
  rw [← hworld₁, hread, hchanged.world]

/-- A variable that has no multilabel gets a new one. -/
theorem bindLabel_reaches (hb : Reaches edition i r b₀ b) (hk : b.Stands i k m) (hle : b₀.multiLabels.length ≤ k)
    {x : String} (hx : (b.pathOf i).labels.get? x = none) :
    ∃ b', (changeVariables (b.path i).labels (·.insert x (some k))).Yields b () b' ∧ Reaches edition i r b₀ b' ∧
      Untouched i r b b' ∧
      b'.world i r = { b.world i r with path := { b.pathOf i with labels := (b.pathOf i).labels.update x m } } := by
  have hmem := (b.path i).labels_mem
  have hnone : ((b.bindings (b.path i).labels).get? x).join = none :=
    Option.map_eq_none_iff.1 ((hb.ready.get?_stored hmem x).symm.trans hx)
  refine ⟨b.binding (b.path i).labels x k, rfl,
    ⟨hb.ready.later_binding hmem hb.later hnone hle, hb.ready.binding hmem hk.lt⟩, untouched_binding hmem k, ?_⟩
  refine congrArg (World.mk · (b.report r)) ((pathOf_binding_labels hb.ready x k).trans ?_)
  rw [hk.taintOf_eq]

/-- The receiver of a method puts its flow on a new multilabel. -/
theorem follows_readReceiver (hb : b.Ready edition i r) (receiver : String) (spot : Spot) :
    Follows i r (Reaches edition i r b) (readReceiver i receiver spot) (Eval.readReceiver edition receiver spot) b
      fun k m b' => b'.Stands i k m ∧ Fresh i b b' k := by
  obtain ⟨k, b₁, hclean, hworld₁, hb₁, hk, hfresh⟩ := makes_clean hb
  have hpath₁ : b₁.pathOf i = b.pathOf i := congrArg World.path hworld₁
  refine .left hclean hworld₁ (.left (.bench b₁) rfl (.right rfl ?_))
  have hinitialized : (b₁.world i r).path.initialized = (b₁.path i).initialized := rfl
  dsimp only
  rw [hinitialized]
  by_cases hreceiver : (receiver ≠ "" && receiver ∉ (b₁.path i).initialized) = true
  · rw [if_pos hreceiver, if_pos hreceiver]
    obtain ⟨b₂, hdiscover, hb₂, hworld₂⟩ := discover_reaches hb₁.ready receiver
    have hpath₂ : b₂.pathOf i = (b₁.pathOf i).discover receiver := congrArg World.path hworld₂
    have hk₂ : b₂.Stands i k (b₂.pathOf i).clean := by
      rw [hpath₂, hpath₁]
      have hsame : ((b.pathOf i).discover receiver).clean = (b.pathOf i).clean :=
        (Path.grows_discover (N := fun _ => True) (x := receiver) trivial (b.pathOf i)).clean
      rw [hsame]
      exact hk.mono hb₂.later.toUntouched
    have hfresh₂ := hfresh.mono hk.lt hb₂.later
    obtain ⟨b₃, hsource, hchanged⟩ := addSourceAt_changes (hb₁.trans hb₂) hfresh₂ hk₂ receiver spot
    obtain ⟨b₄, hmark, hb₄, hworld₄⟩ := markInitialized_reaches hchanged.reaches.ready receiver
    refine .of_yields (hdiscover.bind (hsource.bind (hmark.bind (.pure _ _)))) ?_ (hchanged.reaches.trans hb₄)
      ⟨hchanged.stands.mono hb₄.later.toUntouched, (hchanged.fresh k hfresh₂).mono hchanged.stands.lt hb₄.later⟩
    rw [hworld₄, hchanged.world, hchanged.pathOf_eq, hworld₂, hpath₂]
    rfl
  · rw [if_neg hreceiver, if_neg hreceiver]
    rw [hpath₁.symm] at hk
    exact .of_yields (.pure _ _) rfl hb₁ ⟨hk, hfresh⟩

variable [SetOrder]

theorem run_report {sink : String} {sinkAt : Position} {kind : FlowKind} {new : Report} {fault? : Option Fault}
    (h : (b.report r).add b.edition b.pattern sink sinkAt (b.multiLabel k) kind = (new, fault?)) :
    (report r sink sinkAt k kind).run.run b = (fault?.elim (.ok ()) .error, b.reporting r new) := by
  unfold report
  refine (run_bind_ok (.bench b)).trans ?_
  dsimp only
  rw [h]
  cases fault? <;> rfl

/-- What reaches a sink is reported. -/
theorem follows_flag (hb : b.Ready edition i r) (hk : b.Stands i k m) (sink : String) (spot : Spot) (kind : FlowKind) :
    Follows i r (Reaches edition i r b) (flag i r sink spot k kind) (Eval.flag edition sink spot m kind) b
      fun _ _ _ => True := by
  obtain ⟨found, b₁, hyield, hworld, hb₁, hfound, -⟩ := makes_detect hb hk sink
  refine .left (.bench b) rfl (.left hyield hworld (.left (.bench b₁) rfl ?_))
  have hpath : b₁.pathOf i = b.pathOf i := congrArg World.path hworld
  have hdetect : (b₁.pathOf i).detect sink m = b₁.taintOf i found := (hpath ▸ hfound.taintOf_eq).symm
  have hempty : (b₁.taintOf i found).isEmpty = (b₁.slots found).isEmpty := by
    show (((b₁.slots found).entries.map _).map _).isEmpty = _
    rw [List.isEmpty_map, List.isEmpty_map]
    rfl
  have hflag := Eval.run_flag edition sink spot m kind (b₁.world i r)
  rw [show (b₁.world i r).path.detect sink m = b₁.taintOf i found from hdetect, hempty] at hflag
  by_cases h : (b₁.slots found).isEmpty = true
  · rw [if_pos h] at hflag ⊢
    exact .of_yields (.pure _ _) hflag hb₁ trivial
  · rw [if_neg h] at hflag ⊢
    obtain ⟨⟨new, fault?⟩, hnew⟩ : ∃ added, (b₁.report r).add b₁.edition b₁.pattern sink
        (b₁.edition.place spot (b₁.path i).scope) (b₁.multiLabel found) kind = added := ⟨_, rfl⟩
    -- the report takes what was found in the same way under the path's references
    have hadd : (b₁.world i r).report.add edition (b₁.world i r).path.view sink
        (edition.place spot (b₁.world i r).path.scope) (b₁.taintOf i found) kind = (new, fault?) := by
      rw [← hnew, hb₁.ready.edition_eq]
      exact Report.add_mapPatterns (fun n => view_ref b₁ i n) edition sink _ kind _
    dsimp only at hflag
    rw [hadd] at hflag
    have hreached : Reaches edition i r b (b₁.reporting r new) :=
      ⟨hb₁.later.trans (later_reporting i b₁ r new), hb₁.ready.reporting new⟩
    have hworld' := hb₁.ready.world_reporting new
    refine .left (.place i spot b₁) rfl ?_
    cases fault? with
    | none => exact .of_yields (run_report hnew) (by rw [hflag, hworld']) hreached trivial
    | some fault => exact .of_error (run_report hnew) (by rw [hflag, hworld']) hreached

theorem makes_combineMultiLabels (hb : b.Ready edition i r) (hk : b.Stands i k m) (hl : b.Stands i l n) :
    Makes edition i r (combineMultiLabels k l) b (m.combine n) := by
  have hpattern : ∀ name t, ((b.multiLabel k).combine (b.multiLabel l)).entries.get? name = some t →
      t.pattern < b.patterns.length := by
    intro name t ht
    rcases MultiLabel.get?_combine_some ht with ⟨u, hu, htu⟩ | ⟨-, hu⟩
    · rw [htu]
      exact hb.closed.pattern_lt hu
    · exact hb.closed.pattern_lt hu
  obtain ⟨j, b', hyield, hmade⟩ := makes_addMultiLabel hb hpattern
  rw [MultiLabel.mapPatterns_combine] at hmade
  rw [← hk.taintOf_eq, ← hl.taintOf_eq]
  exact ⟨j, b', (Yields.bench b).bind hyield, hmade⟩

/-- The multilabels of a stack are combined one after the other. -/
theorem makes_stack (hb : b.Ready edition i r) {f : Nat → Option Nat → Work Nat}
    (hf : ∀ k l, f k (some l) = combineMultiLabels k l) : ∀ {stack : List (Option Nat)} {b₁ : Workbench} {k : Nat}
      {m : Taint}, (∀ e ∈ stack, ∃ l, e = some l ∧ l < b.multiLabels.length) → Reaches edition i r b b₁ →
      b₁.world i r = b.world i r → b₁.Stands i k m → Fresh i b b₁ k →
      ∃ k' b', Yields (stack.foldlM f k) b₁ k' b' ∧ b'.world i r = b.world i r ∧ Reaches edition i r b b' ∧
        b'.Stands i k' ((stack.map (b.taintAt i)).foldl MultiLabel.combine m) ∧ Fresh i b b' k'
  | [], b₁, _, _, _, hb₁, hworld, hk, hfresh => ⟨_, b₁, .pure _ _, hworld, hb₁, hk, hfresh⟩
  | e :: stack, b₁, _, _, hstack, hb₁, hworld, hk, hfresh => by
    rw [List.forall_mem_cons] at hstack
    obtain ⟨l, rfl, hl⟩ := hstack.1
    have hstands : b₁.Stands i l (b.taintOf i l) := Stands.mono ⟨hl, rfl⟩ hb₁.later.toUntouched
    obtain ⟨k₂, b₂, hyield₂, hworld₂, hb₂, hk₂, hfresh₂⟩ := makes_combineMultiLabels hb₁.ready hk hstands
    obtain ⟨k', b', hyield, hmade⟩ :=
      makes_stack hb hf hstack.2 (hb₁.trans hb₂) (hworld₂.trans hworld) hk₂ (hfresh₂.since hb₁)
    refine ⟨k', b', ?_, hmade⟩
    rw [List.foldlM_cons, hf]
    exact hyield₂.bind hyield

theorem makes_currentControl (hb : b.Ready edition i r) :
    Makes edition i r (currentControl i) b (b.pathOf i).currentControl := by
  obtain ⟨f, hf, hwork⟩ : ∃ f : Nat → Option Nat → Work Nat, (∀ k l, f k (some l) = combineMultiLabels k l) ∧
      currentControl i = (do
        let p := (← bench).path i
        p.control.foldlM f (← newMultiLabel ((← bench).policy p.policy))) := by
    refine ⟨_, ?_, rfl⟩
    exact fun _ _ => rfl
  obtain ⟨k, b₁, hyield₁, hworld₁, hb₁, hk, hfresh⟩ := makes_newMultiLabel hb
  obtain ⟨k', b', hyield, hmade⟩ := makes_stack hb hf hb.control hb₁ hworld₁ hk hfresh
  refine ⟨k', b', ?_, hmade⟩
  rw [hwork]
  exact (Yields.bench b).bind ((Yields.bench b).bind (hyield₁.bind hyield))

theorem addSanitizer_changes (h : Reaches edition i r b₀ b) (hk : Fresh i b₀ b k) (hm : b.Stands i k m) (name : String)
    (line : Int) :
    ∃ b', (addSanitizer k name line).Yields b () b' ∧ Changed edition i r b₀ b b' k
      (m.addSanitizer (b.pathOf i).view name line) := by
  obtain ⟨b', hyield, hchanged⟩ := relabel_changes h hk hm (q := fun n => (b.pattern n).isSanitizer name)
    (p := fun p => ((b.pathOf i).view p).isSanitizer name) (fun n => by rw [view_ref]) (·.addSanitizer name line)
  exact ⟨b', (Yields.bench b).bind hyield, hchanged⟩

theorem sanitize_changes (h : Reaches edition i r b₀ b) (hk : Fresh i b₀ b k) (hm : b.Stands i k m) (name : String)
    (line : Int) :
    ∃ b', (sanitize i k name line).Yields b () b' ∧ Changed edition i r b₀ b b' k
      ((b.pathOf i).sanitize m name line) := by
  unfold sanitize Path.sanitize
  have hknows : (b.policyPatterns (b.path i).policy).any (·.isSanitizer name) = (b.pathOf i).knowsSanitizer name := rfl
  by_cases hname : (b.pathOf i).knowsSanitizer name = true
  · obtain ⟨b', hyield, hchanged⟩ := addSanitizer_changes h hk hm name line
    refine ⟨b', (Yields.bench b).bind ?_, by rwa [if_pos hname]⟩
    rw [hknows, if_pos hname]
    exact hyield
  · refine ⟨b, (Yields.bench b).bind ?_, by rw [if_neg hname]; exact .refl h hm⟩
    rw [hknows, if_neg hname]
    exact .pure _ _

/-! ## Reading -/

/-- The taint of an assigned variable is combined from the stored multilabel, or from an empty one that is stored
now. -/
theorem follows_readAssigned (hb : b.Ready edition i r) (id : String) (spot : Spot) :
    Follows i r (Reaches edition i r b) (readAssigned i id spot) (Eval.readAssigned edition id spot) b
      fun k m b' => b'.Stands i k m := by
  obtain ⟨k, b₁, hclean, hworld₁, hb₁, hk, hfresh⟩ := makes_clean hb
  obtain ⟨b₂, hsource, hchanged⟩ := addKnownSource_changes hb₁ hfresh hk id spot
  have hb₂ := hchanged.reaches
  have hworld₂ : b₂.world i r = b.world i r := hchanged.world.trans hworld₁
  have hpath₂ : b₂.pathOf i = b.pathOf i := congrArg World.path hworld₂
  have hk₂ := hchanged.stands
  rw [← hchanged.pathOf_eq, ← hpath₂] at hk₂
  have hget := hb₂.ready.get?_stored (b₂.path i).labels_mem id
  refine .left hclean hworld₁ (.left hsource hchanged.world (.left (.bench b₂) rfl (.left (.stored? _ id b₂) rfl ?_)))
  have hrun := Eval.run_readAssigned edition id spot (b₂.world i r)
  rw [show (b₂.world i r).path.labels.get? id = _ from hget] at hrun
  cases hstored : ((b₂.bindings (b₂.path i).labels).get? id).join with
  | some l =>
    obtain ⟨k', b', hyield, hworld', hb', hk', -⟩ :=
      makes_combineMultiLabels hb₂.ready hk₂ ⟨hb₂.ready.stored_lt hstored, rfl⟩
    rw [hstored] at hrun
    exact .of_yields hyield (hrun.trans (by rw [hworld']; rfl)) (hb₂.trans hb') hk'
  | none =>
    rw [hstored] at hrun hget
    obtain ⟨l, b₃, hclean₃, hworld₃, hb₃, hl, hfresh₃⟩ := makes_clean hb₂.ready
    have hpath₃ : b₃.pathOf i = b₂.pathOf i := congrArg World.path hworld₃
    obtain ⟨b₄, hbind, hb₄, hframe, hworld₄⟩ := bindLabel_reaches (hb₂.trans hb₃) hl
      (hb₂.later.multiLabels_le.trans hfresh₃.le) (x := id) (hpath₃ ▸ hget)
    obtain ⟨k', b', hyield, hworld', hb', hk', -⟩ := makes_combineMultiLabels hb₄.ready
      ((hk₂.mono hb₃.later.toUntouched).mono hframe) (hl.mono hframe)
    rw [hb₃.later.labels] at hbind
    refine .of_yields (hclean₃.bind (hbind.bind hyield)) (hrun.trans ?_) (hb₄.trans hb') hk'
    rw [hworld', hworld₄, hworld₃, hpath₃]
    rfl

/-- In the control context the stored multilabel itself is handed on. -/
theorem follows_readName (hb : b.Ready edition i r) (id : String) (spot : Spot) (context : Context) :
    Follows i r (Reaches edition i r b) (readName i id spot context) (Eval.readName edition id spot context) b
      fun k m b' => b'.Stands i k m := by
  have hinitialized : (b.world i r).path.initialized = (b.path i).initialized := rfl
  refine .left (.bench b) rfl (.right rfl ?_)
  dsimp only
  rw [hinitialized]
  by_cases hid : id ∉ (b.path i).initialized
  · rw [if_pos hid, if_pos hid]
    exact follows_readUnassigned hb id spot context
  rw [if_neg hid, if_neg hid]
  by_cases hcontext : context = .control
  · rw [if_pos hcontext, if_pos hcontext]
    refine .left (.stored? _ id b) rfl ?_
    rw [show (b.world i r).path.controlLabels.get? id = _ from hb.get?_stored (b.path i).controlLabels_mem id]
    cases hstored : ((b.bindings (b.path i).controlLabels).get? id).join with
    | some l => exact .pure ⟨.refl i r b, hb⟩ ⟨hb.stored_lt hstored, rfl⟩
    | none =>
      obtain ⟨k, b', hyield, hworld, hb', hk, -⟩ := makes_clean hb
      exact .of_yields hyield (by rw [hworld]; rfl) hb' hk
  · rw [if_neg hcontext, if_neg hcontext]
    exact follows_readAssigned hb id spot

/-- An attribute changes the new multilabel of its base in place. -/
theorem follows_readAttribute (h : Reaches edition i r b₀ b) (hk : b.Stands i k m) (hfresh : Fresh i b₀ b k)
    (attr : String) (spot : Spot) :
    Follows i r (Reaches edition i r b₀) (readAttribute i k attr spot) (Eval.readAttribute edition m attr spot) b
      fun k m b' => b'.Stands i k m := by
  obtain ⟨b₁, hsource, hchanged⟩ := addKnownSource_changes h hfresh hk attr spot
  have hb₁ := hchanged.reaches
  have hk₁ := hchanged.stands
  rw [← hchanged.pathOf_eq] at hk₁
  refine .left hsource hchanged.world (.left (.bench b₁) rfl (.left (.stored? _ attr b₁) rfl ?_))
  have hrun := Eval.run_readAttribute edition m attr spot (b₁.world i r)
  rw [show (b₁.world i r).path.labels.get? attr = _ from hb₁.ready.get?_stored (b₁.path i).labels_mem attr] at hrun
  cases hstored : ((b₁.bindings (b₁.path i).labels).get? attr).join with
  | some l =>
    obtain ⟨k', b', hyield, hworld, hb', hk', -⟩ :=
      makes_combineMultiLabels hb₁.ready hk₁ ⟨hb₁.ready.stored_lt hstored, rfl⟩
    rw [hstored] at hrun
    exact .of_yields hyield (hrun.trans (by rw [hworld]; rfl)) (hb₁.trans hb') hk'
  | none =>
    rw [hstored] at hrun
    exact .of_yields (.pure _ _) hrun hb₁ hk₁

theorem follows_flagContainer (hb : b.Ready edition i r) (hk : b.Stands i k m) (container : Expr) (spot : Spot) :
    Follows i r (Reaches edition i r b) (flagContainer i r container spot k)
      (Eval.flagContainer edition container spot m) b fun _ _ _ => True := by
  have hrefl : Reaches edition i r b b := ⟨.refl i r b, hb⟩
  cases container with
  | name id _ => exact follows_flag hb hk id spot .explicit
  | missing => exact .throw .noFields hrefl
  | _ => exact .pure hrefl trivial

/-- A called function changes two multilabels in place: that of the value, and a new one for what conditions left. -/
theorem follows_applyFunction (h : Reaches edition i r b₀ b) (hk : b.Stands i k m) (hfresh : Fresh i b₀ b k)
    (hl : b.Stands i l n) (function : String) (spot : Spot) :
    Follows i r (Reaches edition i r b₀) (applyFunction i r function spot k l)
      (Eval.applyFunction edition function spot m n) b
      fun out out' b' => b'.Stands i out.1 out'.1 ∧ b'.Stands i out.2 out'.2 := by
  obtain ⟨c, b₁, hcontrol, hworld₁, hb₁, hc, -⟩ := makes_currentControl h.ready
  obtain ⟨l', b₂, hcombine, hworld₂, hb₂, hl', hfresh'⟩ :=
    makes_combineMultiLabels hb₁.ready (hl.mono hb₁.later.toUntouched) hc
  have hlater : Later i r b b₂ := hb₁.later.trans hb₂.later
  have hreach : Reaches edition i r b₀ b₂ := h.trans (hb₁.trans hb₂)
  have hk₂ := hk.mono hlater.toUntouched
  have hfresh₂ := hfresh.mono hk.lt hlater
  have hfresh₂' := hfresh'.since (h.trans hb₁)
  -- the second multilabel is made when the first is there
  have hne : l' ≠ k := by
    have hle := hb₁.later.multiLabels_le.trans hfresh'.le
    have hlt := hk.lt
    omega
  obtain ⟨b₃, hsource, hchanged₃⟩ := addKnownSource_changes hreach hfresh₂ hk₂ function spot
  obtain ⟨b₄, hsanitize, hchanged₄⟩ := sanitize_changes hchanged₃.reaches (hchanged₃.fresh k hfresh₂) hchanged₃.stands
    function spot.line
  have hl₄ := hchanged₄.others l' _ hne (hchanged₃.others l' _ hne hl')
  obtain ⟨b₅, hsanitize', hchanged₅⟩ := sanitize_changes hchanged₄.reaches
    (hchanged₄.fresh l' (hchanged₃.fresh l' hfresh₂')) hl₄ function spot.line
  have hk₅ := hchanged₅.others k _ hne.symm hchanged₄.stands
  have hl₅ := hchanged₅.stands
  have hpath₂ : b₂.pathOf i = b.pathOf i := congrArg World.path (hworld₂.trans hworld₁)
  have hpath₃ : b₃.pathOf i = b.pathOf i := hchanged₃.pathOf_eq.trans hpath₂
  have hpath₄ : b₄.pathOf i = b.pathOf i := hchanged₄.pathOf_eq.trans hpath₃
  rw [hpath₃, hpath₂] at hk₅
  rw [hpath₄] at hl₅
  refine .congr (Eval.run_applyFunction edition function spot m n _) ?_
  refine .left hcontrol hworld₁ (.left hcombine hworld₂ (.left hsource hchanged₃.world
    (.left hsanitize hchanged₄.world (.left hsanitize' hchanged₅.world ?_))))
  refine ((follows_flag hchanged₅.reaches.ready hk₅ function spot .explicit).since hchanged₅.reaches).bind
    fun _ _ b₆ hb₆ hflag => ?_
  have hk₆ := hk₅.mono hflag.1.toUntouched
  have hl₆ := hl₅.mono hflag.1.toUntouched
  refine ((follows_flag hb₆.ready hl₆ function spot .implicit).since hb₆).bind fun _ _ b₇ hb₇ hflag' => ?_
  exact .pure hb₇ ⟨hk₆.mono hflag'.1.toUntouched, hl₆.mono hflag'.1.toUntouched⟩

end Work

end TaintFlow
