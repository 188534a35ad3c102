import TaintFlow.Proofs.Recording

/-
What adding flows does to a report, whatever marks the flows carry. A step `Files` a set of sightings
if it keeps what is recorded, records nothing beside that set, and records all of it unless it faults.
A fault may come from a mark that is no call, or from a sanitizer without a mode; what was added before
it stays. Flows whose marks are known to their patterns are all recorded, without a fault.
-/
namespace TaintFlow

open Listing

theorem mem_mapM_ok {α β : Type} {f : α → Except Fault β} : ∀ {l : List α} {m : List β},
    l.mapM f = .ok m → ∀ {b}, b ∈ m ↔ ∃ a ∈ l, f a = .ok b
  | [], _, h, b => by
    cases h
    simp
  | a :: l, m, h, b => by
    rw [List.mapM_cons] at h
    cases ha : f a with
    | error e => rw [ha] at h; cases h
    | ok b' => cases hl : l.mapM f with
      | error e => rw [ha, hl] at h; cases h
      | ok m' =>
        rw [ha, hl] at h
        cases h
        simp [mem_mapM_ok hl, ha, eq_comm]

theorem bind_ok {α β : Type} {x : Except Fault α} {f : α → Except Fault β} {b : β} (h : x >>= f = .ok b) :
    ∃ a, x = .ok a ∧ f a = .ok b := by
  cases x with
  | error e => cases h
  | ok a => exact ⟨a, rfl, h⟩

namespace Report

/-! ## Steps that file sightings -/

/-- The step keeps what is recorded and records nothing but the sightings of `New`, all of them unless it
faults. -/
structure Files (step : Report → Report × Option Fault) (New : Subject → FlowKind → List Mark → Prop) : Prop where
  keeps : ∀ r s kind marks, r.Recorded s kind marks → (step r).1.Recorded s kind marks
  only : ∀ r s kind marks, (step r).1.Recorded s kind marks → r.Recorded s kind marks ∨ New s kind marks
  all : ∀ r, (step r).2 = none → ∀ s kind marks, New s kind marks → (step r).1.Recorded s kind marks

theorem Files.congr {step : Report → Report × Option Fault} {New New' : Subject → FlowKind → List Mark → Prop}
    (h : Files step New) (hn : ∀ s kind marks, New s kind marks ↔ New' s kind marks) : Files step New' where
  keeps := h.keeps
  only := fun r s kind marks hr => (h.only r s kind marks hr).imp id (hn s kind marks).1
  all := fun r hr s kind marks hs => h.all r hr s kind marks ((hn s kind marks).2 hs)

theorem files_each {α : Type} {step : α → Report → Report × Option Fault}
    {New : α → Subject → FlowKind → List Mark → Prop} :
    ∀ {l : List α}, (∀ a ∈ l, Files (step a) (New a)) →
      Files (each step l) fun s kind marks => ∃ a ∈ l, New a s kind marks
  | [], _ => ⟨fun _ _ _ _ h => h, fun _ _ _ _ h => .inl h, fun _ _ _ _ _ ⟨_, ha, _⟩ => absurd ha List.not_mem_nil⟩
  | a :: l, h => by
    have ha := h a (List.mem_cons_self ..)
    have hl := files_each fun b hb => h b (List.mem_cons_of_mem _ hb)
    -- a fault in the first step ends the run, and otherwise the rest goes on from what it added
    have heach : ∀ r, each step (a :: l) r = step a r ∧ (step a r).2 ≠ none ∨
        each step (a :: l) r = each step l (step a r).1 ∧ (step a r).2 = none := by
      intro r
      rw [each]
      obtain ⟨r', fault?⟩ := step a r
      cases fault? with
      | none => exact .inr ⟨rfl, rfl⟩
      | some f => exact .inl ⟨rfl, by simp⟩
    constructor
    · intro r s kind marks hr
      rcases heach r with ⟨he, -⟩ | ⟨he, -⟩ <;> rw [he]
      · exact ha.keeps r s kind marks hr
      · exact hl.keeps _ s kind marks (ha.keeps r s kind marks hr)
    · intro r s kind marks hr
      simp only [List.mem_cons, exists_eq_or_imp]
      rcases heach r with ⟨he, -⟩ | ⟨he, -⟩ <;> rw [he] at hr
      · exact (ha.only r s kind marks hr).imp id .inl
      · rcases hl.only _ s kind marks hr with hr | hr
        · exact (ha.only r s kind marks hr).imp id .inl
        · exact .inr (.inr hr)
    · intro r hnone s kind marks hs
      rcases heach r with ⟨he, hf⟩ | ⟨he, hf⟩ <;> rw [he] at hnone ⊢
      · exact absurd hnone hf
      · simp only [List.mem_cons, exists_eq_or_imp] at hs
        rcases hs with hs | hs
        · exact hl.keeps _ s kind marks (ha.all r hf s kind marks hs)
        · exact hl.all _ hnone s kind marks hs

theorem files_attempt {step : Report → Except Fault Report} {New : Subject → FlowKind → List Mark → Prop}
    (h : ∀ r r', step r = .ok r' →
      ∀ s kind marks, r'.Recorded s kind marks ↔ r.Recorded s kind marks ∨ New s kind marks) :
    Files (attempt step) New := by
  have hcases : ∀ r, (∃ r', step r = .ok r' ∧ attempt step r = (r', none)) ∨ ∃ f, attempt step r = (r, some f) := by
    intro r
    unfold attempt
    cases hr : step r with
    | ok r' => exact .inl ⟨r', rfl, rfl⟩
    | error f => exact .inr ⟨f, rfl⟩
  constructor
  · intro r s kind marks hr
    rcases hcases r with ⟨r', hs, he⟩ | ⟨f, he⟩ <;> rw [he]
    · exact (h r r' hs s kind marks).2 (.inl hr)
    · exact hr
  · intro r s kind marks hr
    rcases hcases r with ⟨r', hs, he⟩ | ⟨f, he⟩ <;> rw [he] at hr
    · exact (h r r' hs s kind marks).1 hr
    · exact .inl hr
  · intro r hnone s kind marks hn
    rcases hcases r with ⟨r', hs, he⟩ | ⟨f, he⟩ <;> rw [he] at hnone ⊢
    · exact (h r r' hs s kind marks).2 (.inr hn)
    · cases hnone

/-! ## The paths of one position -/

/-- The marks with which a flow is recorded, if it is recorded at all. -/
def imprint [SetOrder] (edition : Edition) (p : Pattern) (path : List Mark) : Except Fault (Option (List Mark)) :=
  match edition with
  | .plain => do return some (← (distinct path).mapM Mark.spread)
  | .scoped => do
    match ← shownPath p path with
    | none => return none
    | some shown => return some (← (distinct shown).mapM Mark.spread)

theorem imprint_plain [SetOrder] {p : Pattern} {path marks : List Mark} :
    imprint .plain p path = .ok (some marks) ↔ (distinct path).mapM Mark.spread = .ok marks := by
  constructor
  · intro h
    obtain ⟨spread, hs, h⟩ := bind_ok h
    cases h
    exact hs
  · intro hs
    show (do return some (← (distinct path).mapM Mark.spread) : Except Fault _) = _
    rw [hs]
    rfl

theorem imprint_scoped [SetOrder] {p : Pattern} {path marks : List Mark} :
    imprint .scoped p path = .ok (some marks) ↔
      ∃ shown, shownPath p path = .ok (some shown) ∧ (distinct shown).mapM Mark.spread = .ok marks := by
  unfold imprint
  constructor
  · intro h
    obtain ⟨o, ho, h⟩ := bind_ok h
    cases o with
    | none => cases h
    | some shown =>
      obtain ⟨spread, hs, h⟩ := bind_ok h
      cases h
      exact ⟨shown, ho, hs⟩
  · rintro ⟨shown, ho, hs⟩
    rw [ho]
    show (do return some (← (distinct shown).mapM Mark.spread) : Except Fault _) = _
    rw [hs]
    rfl

/-- A flow whose marks are known to the pattern is recorded with the marks that the pattern displays. -/
theorem imprint_of_listed [SetOrder] {edition : Edition} {p : Pattern} {path marks : List Mark}
    (h : ∀ m ∈ path, m.Listed edition p) :
    imprint edition p path = .ok (some marks) ↔ p.display edition path = some marks := by
  match edition with
  | .plain =>
    rw [imprint_plain, mapM_ok fun m hm => (h m (mem_distinct.1 hm)).spread, List.map_id', Except.ok.injEq]
    exact Option.some_inj.symm
  | .scoped =>
    rw [imprint_scoped, shownPath_ok h]
    constructor
    · rintro ⟨shown, ho, hs⟩
      have hd := Except.ok.inj ho
      rw [Pattern.distinct_of_display hd,
        mapM_ok fun m hm => (h m (Pattern.mem_of_display hd hm)).spread, List.map_id'] at hs
      rw [hd, Except.ok.inj hs]
    · intro hd
      refine ⟨marks, congrArg Except.ok hd, ?_⟩
      rw [Pattern.distinct_of_display hd,
        mapM_ok fun m hm => (h m (Pattern.mem_of_display hd hm)).spread, List.map_id']

theorem mem_of_filterAuxM {α : Type} {f : α → Except Fault Bool} : ∀ {l acc m : List α},
    List.filterAuxM f l acc = .ok m → ∀ a ∈ m, a ∈ l ∨ a ∈ acc
  | [], _, _, h, a, ha => by
    cases h
    exact .inr ha
  | b :: l, acc, m, h, a, ha => by
    obtain ⟨c, -, h⟩ := bind_ok h
    rcases mem_of_filterAuxM h a ha with ha | ha
    · exact .inl (List.mem_cons_of_mem _ ha)
    · cases c with
      | false => exact .inr ha
      | true =>
        rcases List.mem_cons.1 ha with rfl | ha
        · exact .inl (List.mem_cons_self ..)
        · exact .inr ha

theorem mem_of_shownPath [SetOrder] {p : Pattern} {path shown : List Mark} (h : shownPath p path = .ok (some shown)) :
    ∀ m ∈ shown, m ∈ path := by
  unfold shownPath at h
  split at h
  · cases h
    exact List.forall_mem_nil _
  · obtain ⟨marks, hm, h⟩ := bind_ok h
    obtain ⟨kept, hk, hm⟩ := bind_ok hm
    cases hm
    intro m hshown
    split at h
    · cases h
    · cases h
      have hmem := mem_of_filterAuxM hk m (List.mem_reverse.1 (SetOrder.mem_members_nil.1 hshown))
      simpa using hmem

/-- Of a flow whose marks are calls, no other marks are recorded. -/
theorem mem_of_imprint [SetOrder] {edition : Edition} {p : Pattern} {path marks : List Mark}
    (h : imprint edition p path = .ok (some marks)) (hpath : ∀ m ∈ path, m.spread = .ok m) :
    ∀ m ∈ marks, m ∈ path := by
  have hspread : ∀ {l}, (∀ m ∈ l, m ∈ path) → (distinct l).mapM Mark.spread = .ok marks → ∀ m ∈ marks, m ∈ path := by
    intro l hl hs m hm
    obtain ⟨a, ha, hm⟩ := (mem_mapM_ok hs).1 hm
    have ha := hl a (mem_distinct.1 ha)
    rw [hpath a ha] at hm
    cases hm
    exact ha
  match edition with
  | .plain => exact hspread (fun _ hm => hm) (imprint_plain.1 h)
  | .scoped =>
    obtain ⟨shown, hshown, hs⟩ := imprint_scoped.1 h
    exact hspread (mem_of_shownPath hshown) hs

theorem mem_sightings {kind kind' : FlowKind} {paths : List (List Mark)} {new : List Sighting}
    (h : sightings kind (thin paths) = .ok new) {marks : List Mark} :
    ⟨kind', marks⟩ ∈ new ↔ kind' = kind ∧ ∃ path ∈ paths, (distinct path).mapM Mark.spread = .ok marks := by
  have hone : ∀ path : List Mark, (do return { kind, marks := ← path.mapM Mark.spread } : Except Fault Sighting) =
      .ok ⟨kind', marks⟩ ↔ kind' = kind ∧ path.mapM Mark.spread = .ok marks := by
    intro path
    constructor
    · intro h
      obtain ⟨spread, hs, h⟩ := bind_ok h
      cases h
      exact ⟨rfl, hs⟩
    · rintro ⟨rfl, hs⟩
      rw [hs]
      rfl
  rw [mem_mapM_ok h]
  constructor
  · rintro ⟨path, hp, hs⟩
    obtain ⟨q, hq, rfl⟩ := List.mem_map.1 hp
    exact ⟨((hone _).1 hs).1, q, hq, ((hone _).1 hs).2⟩
  · rintro ⟨hk, path, hp, hs⟩
    exact ⟨distinct path, List.mem_map.2 ⟨path, hp, rfl⟩, (hone _).2 ⟨hk, hs⟩⟩

theorem recorded_recordPaths {r r' : Report} {kind kind' : FlowKind} {s s' : Subject} {paths : List (List Mark)}
    (h : r.recordPaths kind s paths = .ok r') {marks : List Mark} :
    r'.Recorded s' kind' marks ↔ r.Recorded s' kind' marks ∨
      (s' = s ∧ kind' = kind ∧ ∃ path ∈ paths, (distinct path).mapM Mark.spread = .ok marks) := by
  obtain ⟨new, hnew, h⟩ := bind_ok h
  cases h
  rw [recorded_record, mem_sightings hnew]

theorem mem_shownPaths [SetOrder] {p : Pattern} {paths shown : List (List Mark)} (h : shownPaths p paths = .ok shown)
    {path : List Mark} : path ∈ shown ↔ ∃ q ∈ paths, shownPath p q = .ok (some path) := by
  obtain ⟨found, hf, h⟩ := bind_ok h
  cases h
  rw [SetOrder.mem_members_nil, List.mem_filterMap, ← mem_mapM_ok hf]
  simp

theorem recorded_addGroup [SetOrder] {edition : Edition} {kind kind' : FlowKind} {p : Pattern} {s s' : Subject}
    {paths : List (List Mark)} {r r' : Report} (h : addGroup edition kind p s paths r = .ok r') {marks : List Mark} :
    r'.Recorded s' kind' marks ↔ r.Recorded s' kind' marks ∨
      (s' = s ∧ kind' = kind ∧ ∃ path ∈ paths, imprint edition p path = .ok (some marks)) := by
  match edition with
  | .plain =>
    simp only [imprint_plain]
    exact recorded_recordPaths h
  | .scoped =>
    simp only [imprint_scoped]
    obtain ⟨shown, hshown, h⟩ := bind_ok h
    have hmem : (∃ path ∈ paths, ∃ q, shownPath p path = .ok (some q) ∧
        (distinct q).mapM Mark.spread = .ok marks) ↔ ∃ q ∈ shown, (distinct q).mapM Mark.spread = .ok marks := by
      constructor
      · rintro ⟨path, hp, q, hq, hs⟩
        exact ⟨q, (mem_shownPaths hshown).2 ⟨path, hp, hq⟩, hs⟩
      · rintro ⟨q, hq, hs⟩
        obtain ⟨path, hp, hq⟩ := (mem_shownPaths hshown).1 hq
        exact ⟨path, hp, q, hq, hs⟩
    rw [hmem]
    split at h
    · rename_i he
      cases h
      rw [List.isEmpty_iff.1 he]
      simp
    · rw [recorded_recordPaths h, recorded_meet]

theorem files_addGroup [SetOrder] {edition : Edition} {kind : FlowKind} {p : Pattern} {s : Subject}
    {paths : List (List Mark)} :
    Files (attempt (addGroup edition kind p s paths)) fun s' kind' marks =>
      s' = s ∧ kind' = kind ∧ ∃ path ∈ paths, imprint edition p path = .ok (some marks) :=
  files_attempt fun _ _ h _ _ _ => recorded_addGroup h

/-! ## The flows of a label, of a multilabel -/

/-- What the flows of a label add under a pattern. -/
def Filed [SetOrder] (edition : Edition) (sink : String) (sinkAt : Position) (kind : FlowKind) (p : Pattern) (l : Label)
    (s : Subject) (kind' : FlowKind) (marks : List Mark) : Prop :=
  kind' = kind ∧ (kind = .implicit → p.implicit = true) ∧
    s.pattern = p.name ∧ s.sink = sink ∧ s.sinkAt = sinkAt ∧
    ∃ f, l.Holds s.source f ∧ f.position = s.sourceAt ∧ imprint edition p f.marks = .ok (some marks)

theorem files_flows [SetOrder] {edition : Edition} {sink : String} {sinkAt : Position} {kind : FlowKind} {p : Pattern}
    {l : Label} (hi : kind = .implicit → p.implicit = true) :
    Files (each (fun (source, flows) =>
      each (fun (sourceAt, paths) => attempt (addGroup edition kind p
        { pattern := p.name, source, sourceAt, sink, sinkAt } paths))
        (groupByPosition flows).entries) l.flows.entries) (Filed edition sink sinkAt kind p l) := by
  have hholds : ∀ source flows f, (source, flows) ∈ l.flows.entries → f ∈ flows → l.Holds source f :=
    fun source flows f he hf => ⟨flows, Table.mem_entries.1 he, hf⟩
  refine (files_each (fun e he => files_each fun g hg => files_addGroup)).congr ?_
  intro s kind' marks
  unfold Filed
  constructor
  · rintro ⟨⟨source, flows⟩, he, ⟨sourceAt, paths⟩, hg, rfl, rfl, path, hp, hd⟩
    exact ⟨rfl, hi, rfl, rfl, rfl, ⟨sourceAt, path⟩,
      hholds _ _ _ he (mem_groupByPosition.1 ⟨paths, hg, hp⟩), rfl, hd⟩
  · rintro ⟨rfl, -, hs, rfl, rfl, ⟨sourceAt, path⟩, ⟨flows, he, hf⟩, ha, hd⟩
    obtain ⟨paths, hg, hp⟩ := mem_groupByPosition.2 hf
    refine ⟨(s.source, flows), Table.mem_entries.2 he, (sourceAt, paths), hg, ?_, rfl, path, hp, hd⟩
    cases s
    simp_all

theorem Files.meet {step : Report → Report × Option Fault} {New : Subject → FlowKind → List Mark → Prop}
    (h : Files step New) (edition : Edition) (name : String) :
    Files (fun r => step (match edition with
      | .plain => r.meet name
      | .scoped => r)) New := by
  match edition with
  | .plain => exact ⟨fun r => h.keeps (r.meet name), fun r => h.only (r.meet name), fun r => h.all (r.meet name)⟩
  | .scoped => exact h

theorem files_addTracked [SetOrder] {edition : Edition} {sink : String} {sinkAt : Position} {kind : FlowKind}
    {e : Pattern × Label} :
    Files (addTracked edition sink sinkAt kind e) (Filed edition sink sinkAt kind e.1 e.2) := by
  by_cases hc : (kind = .implicit && !e.1.implicit) = true
  · have heq : addTracked edition sink sinkAt kind e = fun r => (r, none) := by
      funext r
      rw [addTracked.eq_def, if_pos hc]
    rw [heq]
    simp only [Bool.and_eq_true, decide_eq_true_eq, Bool.not_eq_true'] at hc
    refine ⟨fun _ _ _ _ h => h, fun _ _ _ _ h => .inl h, ?_⟩
    rintro r - s kind' marks ⟨-, hi, -⟩
    rw [hi hc.1] at hc
    cases hc.2
  · have hi : kind = .implicit → e.1.implicit = true := by
      intro hk
      simpa [hk] using hc
    have heq := funext fun r => (addTracked.eq_def edition sink sinkAt kind e r).trans (if_neg hc)
    rw [heq]
    exact (files_flows hi).meet edition e.1.name

/-- Adding flows files their sightings under the patterns they are added for. -/
theorem files_add [SetOrder] {π : Type} {edition : Edition} {view : π → Pattern} {sink : String} {sinkAt : Position}
    {flows : MultiLabel π} {kind : FlowKind} :
    Files (add edition view sink sinkAt flows kind) fun s kind' marks =>
      ∃ name t, flows.entries.get? name = some t ∧
        Filed edition sink sinkAt kind (view t.pattern) t.label s kind' marks := by
  unfold add
  refine (files_each (fun e he => files_addTracked)).congr ?_
  intro s kind' marks
  simp only [Table.values, List.mem_map, ← Table.mem_entries]
  constructor
  · rintro ⟨_, ⟨_, ⟨⟨name, t⟩, hn, rfl⟩, rfl⟩, hs⟩
    exact ⟨name, t, hn, hs⟩
  · rintro ⟨name, t, hn, hs⟩
    exact ⟨_, ⟨_, ⟨(name, t), hn, rfl⟩, rfl⟩, hs⟩

/-! ## Flows whose marks are known -/

theorem Files.adds {step : Report → Report × Option Fault} {New : Subject → FlowKind → List Mark → Prop}
    (h : Files step New) (hf : ∀ r, (step r).2 = none) : Adds step New := by
  refine fun r => ⟨hf r, fun s kind marks => ⟨h.only r s kind marks, ?_⟩⟩
  rintro (hr | hs)
  · exact h.keeps r s kind marks hr
  · exact h.all r (hf r) s kind marks hs

theorem fault_each {α : Type} {step : α → Report → Report × Option Fault} {l : List α} :
    (∀ a ∈ l, ∀ r, (step a r).2 = none) → ∀ r, (each step l r).2 = none := by
  induction l with
  | nil => exact fun _ _ => rfl
  | cons a l ih =>
    intro h r
    rw [List.forall_mem_cons] at h
    have ha := h.1 r
    rw [each]
    generalize step a r = q at ha
    obtain ⟨r', fault?⟩ := q
    cases ha
    exact ih h.2 r'

/-- The paths of one position are recorded if their marks are known. -/
theorem addGroup_ok [SetOrder] {edition : Edition} {kind : FlowKind} {p : Pattern} {s : Subject}
    {paths : List (List Mark)} (h : ∀ path ∈ paths, ∀ m ∈ path, m.Listed edition p) (r : Report) :
    ∃ r', addGroup edition kind p s paths r = .ok r' := by
  match edition with
  | .plain => exact ⟨_, recordPaths_ok r kind s h⟩
  | .scoped =>
    have hshown : shownPaths p paths = .ok (SetOrder.members (paths.filterMap (p.display .scoped)) []) := by
      rw [shownPaths, mapM_ok fun path hp => shownPath_ok (h path hp)]
      show Except.ok (SetOrder.members (List.filterMap id (paths.map _)) []) = _
      rw [List.filterMap_map]
      rfl
    have hlisted : ∀ path ∈ SetOrder.members (paths.filterMap (p.display .scoped)) [],
        ∀ m ∈ path, m.Listed .scoped p := by
      intro path hp m hm
      obtain ⟨path', hp', hd⟩ := List.mem_filterMap.1 (SetOrder.mem_members_nil.1 hp)
      exact h path' hp' m (Pattern.mem_of_display hd hm)
    rw [addGroup, hshown]
    simp only [bind, Except.bind]
    split
    · exact ⟨r, rfl⟩
    · exact ⟨_, recordPaths_ok _ kind s hlisted⟩

section Listed

variable {edition : Edition} {sink : String} {sinkAt : Position} {kind : FlowKind}

theorem fault_addTracked [SetOrder] {e : Pattern × Label}
    (h : ∀ source f, e.2.Holds source f → ∀ m ∈ f.marks, m.Listed edition e.1) (r : Report) :
    (addTracked edition sink sinkAt kind e r).2 = none := by
  rw [addTracked.eq_def]
  split
  · rfl
  · refine fault_each (fun entry he => fault_each fun group hg r => ?_) _
    have hlisted : ∀ path ∈ group.2, ∀ m ∈ path, m.Listed edition e.1 := fun path hp =>
      h entry.1 ⟨group.1, path⟩ ⟨entry.2, Table.mem_entries.1 he, mem_groupByPosition.1 ⟨group.2, hg, hp⟩⟩
    obtain ⟨r', hr'⟩ := addGroup_ok hlisted r
    dsimp only
    rw [attempt, hr']

theorem filed_iff_shown [SetOrder] {p : Pattern} {l : Label}
    (h : ∀ source f, l.Holds source f → ∀ m ∈ f.marks, m.Listed edition p) {s : Subject} {kind' : FlowKind}
    {marks : List Mark} :
    Filed edition sink sinkAt kind p l s kind' marks ↔ Shown edition sink sinkAt kind p l s kind' marks := by
  have himprint : ∀ f, l.Holds s.source f ∧ f.position = s.sourceAt ∧ imprint edition p f.marks = .ok (some marks) ↔
      l.Holds s.source f ∧ f.position = s.sourceAt ∧ p.display edition f.marks = some marks := fun f =>
    and_congr_right fun hf => and_congr_right fun _ => imprint_of_listed (h s.source f hf)
  unfold Filed Shown
  simp only [himprint]

/-- Adding flows whose marks are known to their patterns records exactly these flows. -/
theorem adds_add [SetOrder] {π : Type} {view : π → Pattern} {flows : MultiLabel π}
    (h : ∀ name t, flows.entries.get? name = some t → ∀ source f, t.label.Holds source f →
      ∀ m ∈ f.marks, m.Listed edition (view t.pattern)) :
    Adds (add edition view sink sinkAt flows kind) fun s kind' marks =>
      ∃ name t, flows.entries.get? name = some t ∧
        Shown edition sink sinkAt kind (view t.pattern) t.label s kind' marks := by
  refine (files_add.congr fun s kind' marks => ?_).adds fun r => fault_each (fun e he => fault_addTracked ?_) r
  · exact exists_congr fun name => exists_congr fun t => and_congr_right fun ht => filed_iff_shown (h name t ht)
  · obtain ⟨t, ht, rfl⟩ := List.mem_map.1 he
    obtain ⟨⟨name, t⟩, hn, rfl⟩ := List.mem_map.1 ht
    exact h name t (Table.mem_entries.1 hn)

end Listed

end Report

end TaintFlow
