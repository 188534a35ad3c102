import TaintFlow.Proofs.Repeats
import TaintFlow.Proofs.Unsanitized

/-
Labels in which no flow is repeated, in the plain edition. Two flows of a label become the same where one of them has
passed a sanitizer at a line and the other passes it there now. So the invariant is indexed by the calls that were
passed: the flows of a label are pairwise different, and passed only these, in the order of the program. Expressions and
assignments keep it and add their own calls, if none of them was passed before.

A flow keeps the set of what it passed as a list, and each call may list it in another order. Flows that pass the same
calls one after the other have the same list nevertheless, so that the lists of a report are different as sets.
-/
namespace TaintFlow

open Listing

/-! ## Calls of sanitizers -/

/-- What a call at the site leaves on flows, where the name is one of a sanitizer. -/
def Site.mark? (sanitizes : String → Bool) : Site → Option Mark
  | .call _ function spot => if sanitizes function then some (.sanitizer function spot.line) else none
  | .name _ _ | .attribute _ _ | .item _ _ | .assigned _ _ => none

/-- What the calls of sanitizers at the sites leave on flows. -/
def Site.marks (sanitizes : String → Bool) (sites : List Site) : List Mark := sites.filterMap (mark? sanitizes)

/-- The calls of sanitizers at the sites are passed after those that were passed before, both in the order of the
program, which has none of them twice. -/
structure Site.Unseen (sanitizes : String → Bool) (order done more : List Mark) (sites : List Site) : Prop where
  passed : (done ++ Site.marks sanitizes sites).Sublist more
  within : more.Sublist order
  once : order.Nodup

namespace Site

variable {sanitizes : String → Bool} {order done more : List Mark} {sites sites' : List Site}

theorem marks_append (sites sites' : List Site) :
    marks sanitizes (sites ++ sites') = marks sanitizes sites ++ marks sanitizes sites' :=
  List.filterMap_append ..

theorem Unseen.kept (h : Unseen sanitizes order done more sites) : done.Sublist more :=
  (List.sublist_append_left ..).trans h.passed

theorem Unseen.sublist (h : Unseen sanitizes order done more sites) (hs : sites'.Sublist sites) :
    Unseen sanitizes order done more sites' :=
  { h with passed := ((hs.filterMap _).append_left done).trans h.passed }

theorem Unseen.left (h : Unseen sanitizes order done more (sites ++ sites')) : Unseen sanitizes order done more sites :=
  h.sublist (List.sublist_append_left ..)

theorem Unseen.right (h : Unseen sanitizes order done more (sites ++ sites')) :
    Unseen sanitizes order done more sites' :=
  h.sublist (List.sublist_append_right ..)

/-- Between sites one after the other, the calls at the first have been passed. -/
theorem Unseen.split (h : Unseen sanitizes order done more (sites ++ sites')) :
    ∃ mid, Unseen sanitizes order done mid sites ∧ Unseen sanitizes order mid more sites' := by
  refine ⟨done ++ marks sanitizes sites, ⟨List.Sublist.refl _, h.left.passed.trans h.within, h.once⟩,
    { h with passed := ?_ }⟩
  rw [List.append_assoc, ← marks_append]
  exact h.passed

end Site

/-! ## Steps with a result -/

namespace Eval

variable {α β : Type} {I J : World → Prop}

/-- The step keeps the invariant, and its result has the property. -/
def Gives (I : World → Prop) (x : Eval α) (R : α → Prop) : Prop := Secures I (fun _ => True) x fun a _ => R a

theorem Gives.bind {x : Eval α} {f : α → Eval β} {R : α → Prop} {T : β → Prop} (hx : Gives I x R)
    (hf : ∀ a, R a → Gives I (f a) T) : Gives I (x >>= f) T :=
  Secures.bind hx fun a w hw ha => hf a ha w hw trivial

theorem gives_pure {a : α} {R : α → Prop} (h : R a) : Gives I (pure a) R := Secures.pure fun _ _ _ => h

theorem Gives.secures {x : Eval α} {R : α → Prop} {P : World → Prop} (hx : Gives I x R) :
    Secures I P x fun a _ => R a :=
  fun w hw _ => hx w hw trivial

/-- A step that keeps an invariant keeps a weaker one, too. -/
theorem Gives.weaken {x : Eval α} {R : α → Prop} (hx : Gives I x R) (h : ∀ w, I w → J w) :
    Secures J I x fun a w => I w ∧ R a := by
  intro w _ hw
  obtain ⟨hv, ha⟩ := hx w hw trivial
  exact ⟨h _ hv, fun a hr => ⟨hv, ha a hr⟩⟩

end Eval

/-! ## Trails -/

variable [SetOrder]

/-- What a flow has on it that passed these calls one after the other. -/
def Mark.route (trail : List Mark) : List Mark := trail.foldl extend []

/-- The marks are those of a flow that passed some of the calls `done`, in their order. -/
def Mark.Along (done marks : List Mark) : Prop :=
  ∃ trail, trail.Sublist done ∧ (∀ k ∈ trail, k.IsCall) ∧ marks = route trail

namespace Mark

theorem mem_route {trail : List Mark} {k : Mark} : k ∈ route trail ↔ k ∈ trail := by
  have key : ∀ (trail acc : List Mark), k ∈ trail.foldl extend acc ↔ k ∈ acc ∨ k ∈ trail := by
    intro trail
    induction trail with
    | nil => simp
    | cons m trail ih =>
      intro acc
      rw [List.foldl_cons, ih, mem_extend, List.mem_cons, or_assoc]
  exact (key trail []).trans (or_iff_right List.not_mem_nil)

theorem route_concat (trail : List Mark) (k : Mark) : route (trail ++ [k]) = extend (route trail) k :=
  List.foldl_concat ..

theorem nodup_route (trail : List Mark) : (route trail).Nodup := by
  induction trail using List.reverseRecOn with
  | nil => exact List.nodup_nil
  | append_singleton trail k _ =>
    rw [route_concat]
    exact nodup_extend _ _

variable {done more marks marks' : List Mark}

/-- What passes a call that it had not passed tells what it had passed before. -/
theorem mem_iff_of_extend_eq {k : Mark} (hk : k ∉ marks) (hk' : k ∉ marks') (h : extend marks k = extend marks' k)
    (x : Mark) : x ∈ marks ↔ x ∈ marks' := by
  have hx : x ∈ extend marks k ↔ x ∈ extend marks' k := by rw [h]
  rw [mem_extend, mem_extend] at hx
  by_cases heq : x = k
  · rw [heq]
    exact iff_of_false hk hk'
  · simpa [heq] using hx

theorem along_nil (done : List Mark) : Along done [] := ⟨[], List.nil_sublist done, List.forall_mem_nil _, rfl⟩

theorem Along.mono (h : Along done marks) (hle : done.Sublist more) : Along more marks := by
  obtain ⟨trail, htrail, hmarks⟩ := h
  exact ⟨trail, htrail.trans hle, hmarks⟩

theorem Along.subset (h : Along done marks) : marks ⊆ done := by
  obtain ⟨trail, htrail, -, rfl⟩ := h
  exact fun k hk => htrail.subset (mem_route.1 hk)

theorem Along.isCall (h : Along done marks) : ∀ k ∈ marks, k.IsCall := by
  obtain ⟨trail, -, hcalls, rfl⟩ := h
  exact fun k hk => hcalls k (mem_route.1 hk)

theorem Along.extend (h : Along done marks) {k : Mark} (hk : k.IsCall) : Along (done ++ [k]) (extend marks k) := by
  obtain ⟨trail, htrail, hcalls, rfl⟩ := h
  refine ⟨trail ++ [k], htrail.append_right [k], ?_, (route_concat trail k).symm⟩
  exact List.forall_mem_append.2 ⟨hcalls, List.forall_mem_singleton.2 hk⟩

/-- Flows that passed the same calls in one order have the same list of them, in whatever order sets are listed. -/
theorem Along.ext (hdone : done.Nodup) (h : Along done marks) (h' : Along done marks')
    (hmem : ∀ k, k ∈ marks ↔ k ∈ marks') :
    marks = marks' := by
  obtain ⟨trail, htrail, -, rfl⟩ := h
  obtain ⟨trail', htrail', -, rfl⟩ := h'
  rw [sublist_ext hdone htrail htrail' fun k => mem_route.symm.trans ((hmem k).trans mem_route)]

/-- What is recorded of such a flow is all that it has. -/
theorem Along.distinct_eq (h : Along done marks) : distinct marks = marks := by
  obtain ⟨trail, -, -, rfl⟩ := h
  exact union_of_nodup _ [] (nodup_route trail)

theorem Along.spread_eq (h : Along done marks) : marks.mapM spread = .ok marks := by
  rw [mapM_ok fun k hk => (h.isCall k hk).spread, List.map_id']

end Mark

/-! ## Labels -/

/-- The flows of the label are not repeated, and have passed some of the calls `done` in their order. -/
def Label.Diverse (done : List Mark) (l : Label) : Prop := l.Each fun f => Mark.Along done f.marks

/-- All labels are diverse. -/
def MultiLabel.Diverse {π : Type} (done : List Mark) (m : MultiLabel π) : Prop :=
  ∀ name t, m.entries.get? name = some t → t.label.Diverse done

section Labels

variable {done more : List Mark}

namespace Label

theorem Diverse.mono {l : Label} (h : l.Diverse done) (hle : done.Sublist more) : l.Diverse more := by
  intro s flows hs
  obtain ⟨hnodup, hflows⟩ := h s flows hs
  exact ⟨hnodup, fun f hf => (hflows f hf).mono hle⟩

/-- Flows that pass a call for the first time stay different. -/
theorem Diverse.addSanitizer {l : Label} (h : l.Diverse done) {function : String} {line : Int}
    (hnew : (done ++ [Mark.sanitizer function line]).Nodup) :
    (l.addSanitizer function line).Diverse (done ++ [Mark.sanitizer function line]) := by
  obtain ⟨hdone, -, hnew⟩ := List.nodup_append.1 hnew
  intro s flows hs
  rw [get?_addSanitizer] at hs
  obtain ⟨own, hown, rfl⟩ := Option.map_eq_some_iff.1 hs
  obtain ⟨hnodup, hflows⟩ := h s own hown
  have hfresh : ∀ f ∈ own, .sanitizer function line ∉ f.marks := fun f hf hk =>
    hnew _ ((hflows f hf).subset hk) _ (List.mem_singleton_self _) rfl
  refine ⟨hnodup.map_on fun f hf g hg heq => ?_, fun f hf => ?_⟩
  · obtain ⟨hposition, hmarks⟩ := Flow.mk.inj heq
    have hsame : f.marks = g.marks :=
      (hflows f hf).ext hdone (hflows g hg) (Mark.mem_iff_of_extend_eq (hfresh f hf) (hfresh g hg) hmarks)
    cases f
    cases g
    simp_all
  · obtain ⟨g, hg, rfl⟩ := List.mem_map.1 hf
    exact (hflows g hg).extend ⟨function, line, rfl⟩

theorem Diverse.illegal {l : Label} (h : l.Diverse done) (p : Pattern) : (Policy.illegal p l).Diverse done := by
  intro s flows hs
  unfold Policy.illegal at hs
  rw [Table.get?_filter] at hs
  exact h s flows (Option.filter_eq_some_iff.1 hs).1

end Label

namespace MultiLabel

variable {π ρ : Type}

theorem Diverse.mono {m : MultiLabel π} (h : m.Diverse done) (hle : done.Sublist more) : m.Diverse more :=
  fun name t ht => (h name t ht).mono hle

theorem Diverse.combine {a b : MultiLabel π} (ha : a.Diverse done) (hb : b.Diverse done) :
    (a.combine b).Diverse done := by
  intro name t ht
  rw [get?_combine] at ht
  refine forall_merge (ha name) (hb name) (fun u hu v hv => ?_) t ht
  exact Label.Each.combine (ha name u hu) (hb name v hv)

theorem diverse_clean (p : Path) : p.clean.Diverse done := by
  intro name t ht
  obtain ⟨i, -, rfl, -⟩ := Path.get?_clean ht
  exact Label.each_empty _

theorem Diverse.addSource {m : Taint} (h : m.Diverse done) (p : Path) (x : String) (position : Position) :
    (p.addSource m x position).Diverse done := by
  intro name t ht
  have ht : (m.addSource p.view x position).entries.get? name = some t := ht
  rw [get?_addSource] at ht
  obtain ⟨u, hu, rfl⟩ := Option.map_eq_some_iff.1 ht
  split
  · exact Label.Each.addSource (h name u hu) x (Mark.along_nil done)
  · exact h name u hu

theorem Diverse.mapPatterns {m : MultiLabel π} (h : m.Diverse done) (f : π → ρ) : (m.mapPatterns f).Diverse done := by
  intro name t ht
  rw [get?_mapPatterns] at ht
  obtain ⟨u, hu, rfl⟩ := Option.map_eq_some_iff.1 ht
  exact h name u hu

theorem Diverse.addKnownSource {m : Taint} (h : m.Diverse done) (p : Path) (x : String) (spot : Spot) :
    (p.addKnownSource .plain m x spot).Diverse done := by
  unfold Path.addKnownSource
  split
  · exact h.addSource p x _
  · exact h

/-- A call of a function leaves labels diverse, if it is no sanitizer of the path or is passed for the first time. -/
theorem Diverse.sanitize {m : Taint} (h : m.Diverse done) {p : Path} {function : String} {line : Int}
    (hmore : more.Nodup) (hle : done.Sublist more)
    (hnew : p.knowsSanitizer function = true → (done ++ [Mark.sanitizer function line]).Sublist more) :
    (p.sanitize m function line).Diverse more := by
  unfold Path.sanitize
  split
  · rename_i hknown
    intro name t ht
    rw [get?_addSanitizer] at ht
    obtain ⟨u, hu, rfl⟩ := Option.map_eq_some_iff.1 ht
    split
    · exact ((h name u hu).addSanitizer (hmore.sublist (hnew hknown))).mono (hnew hknown)
    · exact (h name u hu).mono hle
  · exact h.mono hle

theorem Diverse.detect {m : Taint} (h : m.Diverse done) (p : Path) (sink : String) :
    (p.detect sink m).Diverse done := by
  intro name t ht
  obtain ⟨i, u, -, -, -, -, hu, hlabel⟩ := Path.get?_detect ht
  rw [hlabel]
  exact (h _ u hu).illegal _

end MultiLabel

end Labels

/-! ## Reports -/

/-- No finding has the same flow twice, and the flows have passed some of the calls `order` in their order. -/
def Report.Unrepeated (order : List Mark) (r : Report) : Prop :=
  ∀ s flows, r.noted s = some flows → flows.Nodup ∧ ∀ x ∈ flows, Mark.Along order x.marks

theorem Report.unrepeated_empty (order : List Mark) : Report.Unrepeated order {} := by
  intro s flows h
  cases h

/-- Flows that passed calls in order are sighted as they are. -/
theorem Report.sightingsAt_eq {done : List Mark} {flows : List Flow} (h : ∀ f ∈ flows, Mark.Along done f.marks)
    (kind : FlowKind) (sourceAt : Position) :
    sightingsAt kind sourceAt flows =
      (flows.filter (·.position = sourceAt)).map fun f => { kind, marks := f.marks } := by
  have hfound : ∀ f ∈ flows.filter (·.position = sourceAt), Mark.Along done f.marks := fun f hf =>
    h f (List.mem_filter.1 hf).1
  have hthin : thin ((flows.filter (·.position = sourceAt)).map (·.marks)) =
      (flows.filter (·.position = sourceAt)).map (·.marks) := by
    rw [thin, List.map_map]
    exact List.map_congr_left fun f hf => (hfound f hf).distinct_eq
  unfold sightingsAt sightings
  rw [hthin, mapM_ok (g := fun path => { kind, marks := path }), List.map_map]
  · rfl
  · rw [List.forall_mem_map]
    intro f hf
    rw [(hfound f hf).spread_eq]
    rfl

theorem Submission.diverse_sightings {done : List Mark} {c : Submission} (h : c.flows.Diverse done) (s : Subject) :
    (c.sightings s).Nodup ∧ ∀ x ∈ c.sightings s, Mark.Along done x.marks := by
  have hnil : ([] : List Sighting).Nodup ∧ ∀ x ∈ ([] : List Sighting), Mark.Along done x.marks :=
    ⟨List.nodup_nil, List.forall_mem_nil _⟩
  unfold sightings
  split
  · cases ht : c.flows.entries.get? s.pattern with
    | none => exact hnil
    | some t =>
      rw [Option.elim_some]
      split
      · exact hnil
      · cases hflows : t.label.flows.get? s.source with
        | none => exact hnil
        | some flows =>
          obtain ⟨hnodup, halong⟩ := h s.pattern t ht s.source flows hflows
          rw [Option.elim_some, Report.sightingsAt_eq halong, List.forall_mem_map]
          refine ⟨(hnodup.filter _).map_on fun f hf g hg heq => ?_, fun f hf => halong f (List.mem_filter.1 hf).1⟩
          have hposition : f.position = g.position :=
            (of_decide_eq_true (List.mem_filter.1 hf).2).trans (of_decide_eq_true (List.mem_filter.1 hg).2).symm
          cases f
          cases g
          simp_all
  · exact hnil

theorem Report.Unrepeated.submit {order done : List Mark} {r : Report} (h : r.Unrepeated order) {c : Submission}
    (hnamed : ∀ name t, c.flows.entries.get? name = some t → t.pattern.name = name) (hc : c.flows.Diverse done)
    (hle : done.Sublist order) : (Report.submit .plain c r).1.Unrepeated order := by
  have hlisted : c.Listed .plain := by
    rintro name t ht source f ⟨flows, hflows, hf⟩ k hk
    obtain ⟨function, line, rfl⟩ := ((hc name t ht source flows hflows).2 f hf).isCall k hk
    exact ⟨function, line, rfl, fun h => by cases h⟩
  intro s flows hs
  obtain ⟨hnodup, halong⟩ := c.diverse_sightings hc s
  rw [notes_submit hnamed s r _ (Prod.ext rfl (adds_submit hlisted r).1)] at hs
  cases hold : r.noted s with
  | none =>
    rw [hold, joined] at hs
    split at hs
    · cases hs
    · cases hs
      exact ⟨hnodup, fun x hx => (halong x hx).mono hle⟩
  | some old =>
    rw [hold] at hs
    cases hs
    obtain ⟨hnodup, hold⟩ := h s old hold
    refine ⟨nodup_union _ _ hnodup, fun x hx => ?_⟩
    rcases mem_union.1 hx with hx | hx
    · exact hold x hx
    · exact (halong x hx).mono hle

/-! ## Paths -/

/-- The sanitizers of the path are known, and all its labels are diverse. -/
structure Path.Diverse (sanitizes : String → Bool) (done : List Mark) (p : Path) : Prop where
  known : ∀ f, p.knowsSanitizer f = true → sanitizes f = true
  stores : ∀ m, p.Stores m → m.Diverse done

section Paths

variable {sanitizes : String → Bool} {done more : List Mark} {p : Path}

namespace Path.Diverse

theorem mono (h : p.Diverse sanitizes done) (hle : done.Sublist more) : p.Diverse sanitizes more :=
  ⟨h.known, fun m hm => (h.stores m hm).mono hle⟩

theorem discover (h : p.Diverse sanitizes done) (x : String) : (p.discover x).Diverse sanitizes done := by
  refine ⟨fun f hf => h.known f ?_, h.stores⟩
  unfold knowsSanitizer Path.discover at hf
  rwa [List.any_map] at hf

theorem discoverImplicit (h : p.Diverse sanitizes done) (x : String) :
    (p.discoverImplicit x).Diverse sanitizes done := by
  refine ⟨fun f hf => h.known f ?_, h.stores⟩
  obtain ⟨_, hq, hs⟩ := List.any_eq_true.1 hf
  obtain ⟨q, hq', rfl⟩ := List.mem_map.1 hq
  refine List.any_eq_true.2 ⟨q, hq', ?_⟩
  split at hs
  · exact hs
  · exact hs

theorem markInitialized (h : p.Diverse sanitizes done) (x : String) : (p.markInitialized x).Diverse sanitizes done :=
  ⟨h.known, h.stores⟩

theorem fill (h : p.Diverse sanitizes done) (x : String) :
    Diverse sanitizes done { p with labels := p.labels.update x p.clean } := by
  refine ⟨h.known, fun m hm => ?_⟩
  rcases Path.stores_update hm with hm | rfl
  · exact h.stores m hm
  · exact MultiLabel.diverse_clean p

theorem assign (h : p.Diverse sanitizes done) {m k : Taint} (hm : m.Diverse done) (hk : k.Diverse done) (x : String) :
    Diverse sanitizes done
      { p with labels := p.labels.update x m, controlLabels := p.controlLabels.update x k } := by
  refine ⟨h.known, fun n hn => ?_⟩
  rcases Path.stores_assign hn with hn | rfl | rfl
  · exact h.stores n hn
  · exact hm
  · exact hk

theorem push (h : p.Diverse sanitizes done) {k : Taint} (hk : k.Diverse done) : (p.push k).Diverse sanitizes done := by
  refine ⟨h.known, fun n hn => ?_⟩
  rcases Path.stores_push hn with hn | rfl
  · exact h.stores n hn
  · exact hk

theorem currentControl (h : p.Diverse sanitizes done) : p.currentControl.Diverse done := by
  unfold Path.currentControl
  refine List.foldlRecOn p.control MultiLabel.combine (MultiLabel.diverse_clean p) fun a ha m hm => ?_
  exact ha.combine (h.stores m (.inr (.inr hm)))

theorem before (h : p.Diverse sanitizes done) (x : String) : (p.before x).Diverse done := by
  unfold Path.before
  split
  · rename_i l hl
    exact (h.stores l (.inr (.inl ⟨x, hl⟩))).combine h.currentControl
  · exact h.currentControl

end Path.Diverse

theorem Path.inherited_diverse : Path.Inherited (Path.Diverse sanitizes done) where
  fork p h := by
    refine ⟨h.known, fun m hm => ?_⟩
    obtain ⟨k, hk, rfl⟩ := stores_fork hm
    exact (h.stores k hk).mapPatterns p.keep
  pop p h := ⟨h.known, fun m hm => h.stores m (stores_pop hm)⟩
  scope p k h := ⟨h.known, h.stores⟩

end Paths

/-! ## Expressions -/

namespace Eval

/-- The labels of the path are diverse, and the report repeats no flow. -/
def Varied (sanitizes : String → Bool) (order done : List Mark) (w : World) : Prop :=
  w.path.Diverse sanitizes done ∧ w.report.Unrepeated order

variable {sanitizes : String → Bool} {order done more : List Mark}

theorem Varied.mono {w : World} (h : Varied sanitizes order done w) (hle : done.Sublist more) :
    Varied sanitizes order more w :=
  ⟨h.1.mono hle, h.2⟩

theorem gives_clean (more : List Mark) : Gives (Varied sanitizes order done) clean (MultiLabel.Diverse more) := by
  intro w hw _
  refine ⟨hw, fun a ha => ?_⟩
  cases ha
  exact MultiLabel.diverse_clean _

theorem gives_flag {m : Taint} (hm : m.Diverse more) (hle : more.Sublist order) (sink : String) (spot : Spot)
    (kind : FlowKind) :
    Gives (Varied sanitizes order done) (flag .plain sink spot m kind) fun _ => True := by
  intro w hw _
  refine ⟨⟨?_, ?_⟩, fun _ _ => trivial⟩
  · rw [path_flag]
    exact hw.1
  · have hreport : ((flag .plain sink spot m kind).run w).2.report =
        (Report.submit .plain (submission .plain sink spot m kind w.path) w.report).1 :=
      congrArg Prod.snd (result_flag sink spot m kind w.path w.report)
    rw [hreport]
    exact hw.2.submit (fun _ _ => named_submission) ((hm.detect w.path sink).mapPatterns w.path.view) hle

theorem gives_readUnassigned (id : String) (spot : Spot) (context : Context) :
    Gives (Varied sanitizes order done) (readUnassigned .plain id spot context) (MultiLabel.Diverse more) := by
  intro w hw _
  cases context with
  | value =>
    refine ⟨⟨(hw.1.discover id).markInitialized id, hw.2⟩, fun a ha => ?_⟩
    cases ha
    exact (MultiLabel.diverse_clean _).addSource _ id _
  | condition =>
    refine ⟨⟨hw.1.discoverImplicit id, hw.2⟩, fun a ha => ?_⟩
    cases ha
    exact (MultiLabel.diverse_clean _).addSource _ id _
  | control | other =>
    refine ⟨hw, fun a ha => ?_⟩
    cases ha
    exact (MultiLabel.diverse_clean _).addSource _ id _

theorem gives_readAssigned (id : String) (spot : Spot) :
    Gives (Varied sanitizes order done) (readAssigned .plain id spot) (MultiLabel.Diverse done) := by
  intro w hw _
  rw [run_readAssigned]
  refine ⟨?_, fun a ha => ?_⟩
  · dsimp only
    split
    · exact hw
    · exact ⟨hw.1.fill id, hw.2⟩
  · cases ha
    refine ((MultiLabel.diverse_clean _).addKnownSource _ id spot).combine ?_
    cases hl : w.path.labels.get? id with
    | none => exact MultiLabel.diverse_clean _
    | some l => exact hw.1.stores l (.inl ⟨id, hl⟩)

theorem gives_readName (id : String) (spot : Spot) (context : Context) :
    Gives (Varied sanitizes order done) (readName .plain id spot context) (MultiLabel.Diverse done) := by
  intro w hw _
  unfold readName
  rw [run_path_bind]
  split
  · exact gives_readUnassigned id spot context w hw trivial
  · split
    · refine ⟨hw, fun a ha => ?_⟩
      cases ha
      cases hl : w.path.controlLabels.get? id with
      | none => exact MultiLabel.diverse_clean _
      | some l => exact hw.1.stores l (.inr (.inl ⟨id, hl⟩))
    · exact gives_readAssigned id spot w hw trivial

theorem gives_readAttribute {m : Taint} (hle : done.Sublist more) (hm : m.Diverse more) (attr : String) (spot : Spot) :
    Gives (Varied sanitizes order done) (readAttribute .plain m attr spot) (MultiLabel.Diverse more) := by
  intro w hw _
  rw [run_readAttribute]
  refine ⟨hw, fun a ha => ?_⟩
  cases ha
  have hm := hm.addKnownSource w.path attr spot
  cases hl : w.path.labels.get? attr with
  | none => exact hm
  | some l => exact hm.combine ((hw.1.stores l (.inl ⟨attr, hl⟩)).mono hle)

theorem gives_flagContainer {m : Taint} (hm : m.Diverse more) (hle : more.Sublist order) (container : Expr)
    (spot : Spot) :
    Gives (Varied sanitizes order done) (flagContainer .plain container spot m) fun _ => True := by
  unfold flagContainer
  split
  · exact gives_flag hm hle _ spot .explicit
  · exact Secures.throw _
  · exact gives_pure trivial

theorem gives_readReceiver (more : List Mark) (receiver : String) (spot : Spot) :
    Gives (Varied sanitizes order done) (readReceiver .plain receiver spot) (MultiLabel.Diverse more) := by
  intro w hw _
  unfold readReceiver
  rw [run_path_bind]
  split
  · refine ⟨⟨(hw.1.discover receiver).markInitialized receiver, hw.2⟩, fun a ha => ?_⟩
    cases ha
    exact (MultiLabel.diverse_clean _).addSource _ receiver _
  · exact gives_clean more w hw trivial

/-- What the function sanitizes comes to it for the first time. -/
theorem gives_applyFunction {mid : List Mark} {receiver function : String} {spot : Spot} (hle : done.Sublist mid)
    (h : Site.Unseen sanitizes order mid more [.call receiver function spot]) {m k : Taint} (hm : m.Diverse mid)
    (hk : k.Diverse mid) :
    Gives (Varied sanitizes order done) (applyFunction .plain function spot m k)
      fun r => r.1.Diverse more ∧ r.2.Diverse more := by
  intro w hw _
  rw [run_applyFunction]
  have hnew : w.path.knowsSanitizer function = true → (mid ++ [Mark.sanitizer function spot.line]).Sublist more := by
    intro hknown
    have hmarks : Site.marks sanitizes [.call receiver function spot] = [.sanitizer function spot.line] := by
      simp [Site.marks, Site.mark?, hw.1.known function hknown]
    rw [← hmarks]
    exact h.passed
  have hmore := h.once.sublist h.within
  have hm := (hm.addKnownSource w.path function spot).sanitize hmore h.kept hnew
  have hk := (hk.combine (hw.1.currentControl.mono hle)).sanitize hmore h.kept hnew
  generalize w.path.sanitize (w.path.addKnownSource .plain m function spot) function spot.line = m' at hm
  generalize w.path.sanitize (k.combine w.path.currentControl) function spot.line = k' at hk
  have hflags : Gives (Varied sanitizes order done)
      (do flag .plain function spot m' .explicit; flag .plain function spot k' .implicit; return (m', k'))
      fun r => r.1.Diverse more ∧ r.2.Diverse more :=
    (gives_flag hm h.within function spot .explicit).bind fun _ _ =>
      (gives_flag hk h.within function spot .implicit).bind fun _ _ => gives_pure ⟨hm, hk⟩
  exact hflags w hw trivial

end Eval

section Expressions

variable {sanitizes : String → Bool} {order : List Mark}

open Eval

mutual

/-- The label of an expression is diverse, if the sanitizers that it calls were not passed before. -/
theorem Expr.gives_evaluate : ∀ (e : Expr) {done more : List Mark}, Site.Unseen sanitizes order done more e.sites →
    ∀ context : Context, Gives (Varied sanitizes order done) (e.evaluate .plain context) (MultiLabel.Diverse more)
  | .name id spot, done, more, h, context => by
    rw [Expr.evaluate.eq_def]
    exact Secures.imp (gives_readName id spot context) fun _ _ hm => hm.mono h.kept
  | .attribute base attr spot, done, more, h, context => by
    rw [Expr.sites] at h
    rw [Expr.evaluate.eq_def]
    refine (gives_clean more).bind fun c hc => (base.gives_evaluate h.left context).bind fun m hm => ?_
    dsimp only
    split
    · exact gives_readAttribute h.kept (hc.combine hm) attr spot
    · exact gives_pure (hc.combine hm)
  | .subscript container index spot, done, more, h, context => by
    rw [Expr.sites] at h
    rw [Expr.evaluate.eq_def]
    refine (gives_clean more).bind fun c hc => (container.gives_evaluate h.left.left context).bind fun m hm => ?_
    refine (index.gives_evaluate h.left.right context).bind fun n hn => ?_
    have hm := (hc.combine hm).combine hn
    dsimp only
    split
    · exact (gives_flagContainer hm h.within container spot).bind fun _ _ => gives_pure hm
    · exact gives_pure hm
  | .binary left right, done, more, h, context => by
    rw [Expr.sites] at h
    rw [Expr.evaluate.eq_def]
    refine (gives_clean more).bind fun c hc => (left.gives_evaluate h.left context).bind fun m hm => ?_
    exact (right.gives_evaluate h.right context).bind fun n hn => gives_pure ((hc.combine hm).combine hn)
  | .call receiver function args spot, done, more, h, context => by
    rw [Expr.sites] at h
    rw [Expr.evaluate.eq_def]
    obtain ⟨mid, hargs, hcall⟩ := h.split
    refine (gives_readReceiver mid receiver spot).bind fun m hm => (gives_clean mid).bind fun c hc => ?_
    refine (Expr.gives_evaluateArgs args hargs hm hc).bind fun r hr => ?_
    refine (gives_applyFunction hargs.kept hcall hr.1 hr.2).bind fun r hr => gives_pure ?_
    split
    · exact hr.2
    · exact hr.1
  | .compare left rest, done, more, h, context => by
    rw [Expr.sites] at h
    rw [Expr.evaluate.eq_def]
    exact (left.gives_evaluate h.left context).bind fun m hm => Expr.gives_evaluateAll rest h.right context hm
  | .unary operand, done, more, h, context => by
    rw [Expr.sites] at h
    rw [Expr.evaluate.eq_def]
    exact operand.gives_evaluate h context
  | .boolean values, done, more, h, context => by
    rw [Expr.sites] at h
    rw [Expr.evaluate.eq_def]
    exact (gives_clean more).bind fun c hc => Expr.gives_evaluateAll values h context hc
  | .inert, done, more, _, context | .missing, done, more, _, context => by
    rw [Expr.evaluate.eq_def]
    exact gives_clean more
  | .fails fault, done, more, _, context => by
    rw [Expr.evaluate.eq_def]
    exact Secures.throw fault

theorem Expr.gives_evaluateArgs : ∀ (args : List Expr) {done more : List Mark},
    Site.Unseen sanitizes order done more (Expr.allSites args) → ∀ {m k : Taint}, m.Diverse more → k.Diverse more →
      Gives (Varied sanitizes order done) (Expr.evaluateArgs .plain args m k)
        fun r => r.1.Diverse more ∧ r.2.Diverse more
  | [], done, more, _, m, k, hm, hk => by
    rw [Expr.evaluateArgs.eq_def]
    exact gives_pure ⟨hm, hk⟩
  | arg :: rest, done, more, h, m, k, hm, hk => by
    rw [Expr.allSites] at h
    rw [Expr.evaluateArgs.eq_def]
    -- nothing is stored between the two readings, so the second one comes to the same calls for the first time
    refine (arg.gives_evaluate h.left .value).bind fun m' hm' => ?_
    refine (arg.gives_evaluate h.left .control).bind fun k' hk' => ?_
    exact Expr.gives_evaluateArgs rest h.right (hm.combine hm') (hk.combine hk')

theorem Expr.gives_evaluateAll : ∀ (operands : List Expr) {done more : List Mark},
    Site.Unseen sanitizes order done more (Expr.allSites operands) → ∀ (context : Context) {m : Taint}, m.Diverse more →
      Gives (Varied sanitizes order done) (Expr.evaluateAll .plain context operands m) (MultiLabel.Diverse more)
  | [], done, more, _, context, m, hm => by
    rw [Expr.evaluateAll.eq_def]
    exact gives_pure hm
  | operand :: rest, done, more, h, context, m, hm => by
    rw [Expr.allSites] at h
    rw [Expr.evaluateAll.eq_def]
    exact (operand.gives_evaluate h.left context).bind fun n hn =>
      Expr.gives_evaluateAll rest h.right context (hm.combine hn)

end

end Expressions

/-! ## Assignments and regions -/

namespace Eval

variable {sanitizes : String → Bool} {order done more : List Mark}

theorem gives_mark (x : String) {α : Type} {y : Eval α} {R : α → Prop} (hy : Gives (Varied sanitizes order done) y R) :
    Gives (Varied sanitizes order done) (do setPath ((← path).markInitialized x); y) R :=
  fun w hw _ => hy { w with path := w.path.markInitialized x } ⟨hw.1.markInitialized x, hw.2⟩ trivial

theorem gives_takeTarget {spot : Spot} : ∀ t : Target, Site.Unseen sanitizes order done more (t.sites spot) →
    Gives (Varied sanitizes order done) (takeTarget .plain t) fun taken => taken.1.Diverse more
  | .name id, _ => gives_mark id ((gives_clean more).bind fun _ hc => gives_pure hc)
  | .attribute base attr, _ => gives_mark attr ((gives_clean more).bind fun _ hc => gives_pure hc)
  | .subscript container whole, h => by
    refine (gives_clean more).bind fun c hc => (whole.gives_evaluate h.right .value).bind fun m hm => ?_
    cases container with
    | none => exact gives_pure (hc.combine hm)
    | some id => exact gives_mark id (gives_pure (hc.combine hm))
  | .fails fault, _ => Secures.throw fault

theorem gives_takeTargets {spot : Spot} : ∀ (targets : List Target) {m : Taint} (names : List String),
    Site.Unseen sanitizes order done more (targets.flatMap (·.sites spot)) → m.Diverse more →
      Gives (Varied sanitizes order done) (takeTargets .plain targets m names) fun taken => taken.1.Diverse more
  | [], _, _, _, hm => gives_pure hm
  | t :: rest, m, _, h, hm => by
    rw [List.flatMap_cons] at h
    exact (gives_takeTarget t h.left).bind fun taken ht =>
      gives_takeTargets rest taken.2 h.right (hm.combine ht)

theorem gives_assignName {m k : Taint} (hle : done.Sublist order) (hm : m.Diverse done) (hk : k.Diverse done)
    (spot : Spot) (x : String) :
    Gives (Varied sanitizes order done) (assignName .plain spot m k x) (MultiLabel.Diverse done) := by
  refine Secures.path fun w hw _ => ?_
  have hcontrol := (hw.1.before x).combine hk
  refine (gives_flag hm hle x spot .explicit).secures.bind fun _ => ?_
  refine (gives_flag hcontrol hle x spot .implicit).bind fun _ _ => Secures.path fun v hv _ => ?_
  refine Secures.bind (Q := fun _ _ => True)
    (secures_setPath fun u hu _ => ⟨⟨hv.1.assign hm hcontrol x, hu.2⟩, trivial⟩) fun _ => ?_
  exact gives_pure hcontrol

theorem gives_assignNames {m : Taint} (hle : done.Sublist order) (hm : m.Diverse done) (spot : Spot) :
    ∀ (names : List String) {k : Taint}, k.Diverse done →
      Gives (Varied sanitizes order done) (assignNames .plain spot m names k) (MultiLabel.Diverse done)
  | [], _, hk => gives_pure hk
  | x :: rest, _, hk => (gives_assignName hle hm hk spot x).bind fun _ hk => gives_assignNames hle hm spot rest hk

/-- An assignment reads with what was passed before, and stores what has been passed then. -/
theorem secures_assign {targets : List Target} {value : Expr} {spot : Spot}
    (h : Site.Unseen sanitizes order done more (targets.flatMap (·.sites spot) ++ value.sites)) :
    Secures (Varied sanitizes order more) (Varied sanitizes order done) (assign .plain targets value spot) fun r _ =>
      r.1.Diverse more ∧ r.2.Diverse more := by
  have hread : ∀ {α : Type} {x : Eval α} {R : α → Prop}, Gives (Varied sanitizes order done) x R →
      Secures (Varied sanitizes order more) (Varied sanitizes order done) x
        fun a w => Varied sanitizes order done w ∧ R a :=
    fun hx => hx.weaken fun _ hw => hw.mono h.kept
  refine (hread (gives_clean more)).bind fun c => .assume fun hc => ?_
  refine (hread (gives_takeTargets targets [] h.left hc)).bind fun taken => .assume fun ht => ?_
  refine (hread (value.gives_evaluate h.right .value)).bind fun m => .assume fun hm => ?_
  refine (hread (gives_clean more)).bind fun c' => .assume fun hc' => ?_
  refine (hread (value.gives_evaluate h.right .control)).bind fun k => .assume fun hk => ?_
  have hassign : Gives (Varied sanitizes order more)
      (assignNames .plain spot (taken.1.combine m) taken.2 (c'.combine k))
      (MultiLabel.Diverse more) := gives_assignNames h.within (ht.combine hm) spot taken.2 (hc'.combine hk)
  have hresult : ∀ k : Taint, k.Diverse more → Gives (Varied sanitizes order more) (pure (taken.1.combine m, k))
      fun r => r.1.Diverse more ∧ r.2.Diverse more := fun k hk => gives_pure ⟨ht.combine hm, hk⟩
  exact fun w hw _ => (hassign.bind hresult) w hw trivial

theorem secures_enterTest {test : Expr} (h : Site.Unseen sanitizes order done more test.sites) :
    Secures (Varied sanitizes order more) (Varied sanitizes order done) (enterTest .plain test) fun _ _ => True := by
  have hread : ∀ context, Secures (Varied sanitizes order more) (Varied sanitizes order done)
      (test.evaluate .plain context) fun m w => Varied sanitizes order done w ∧ m.Diverse more :=
    fun context => (test.gives_evaluate h context).weaken fun _ hw => hw.mono h.kept
  refine (hread .condition).bind fun m => .assume fun hm => (hread .control).bind fun k => .assume fun hk => ?_
  intro w hw _
  exact ⟨⟨hw.1.push ((hw.1.currentControl.combine hk).combine hm), hw.2⟩, fun _ _ => trivial⟩

theorem secures_enterItem {target : Target} {iter : Expr} {spot : Spot}
    (h : Site.Unseen sanitizes order done more (target.sites spot ++ iter.sites)) :
    Secures (Varied sanitizes order more) (Varied sanitizes order done) (enterItem .plain target iter spot)
      fun _ _ => True := by
  have hassign : Site.Unseen sanitizes order done more ([target].flatMap (·.sites spot) ++ iter.sites) := by
    rwa [List.flatMap_singleton]
  refine (secures_assign hassign).bind fun r => ?_
  intro w hw hr
  exact ⟨⟨hw.1.push ((hw.1.currentControl.combine hr.2).combine hr.1), hw.2⟩, fun _ _ => trivial⟩

end Eval

end TaintFlow
