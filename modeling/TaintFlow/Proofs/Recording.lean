import TaintFlow.Policy
import TaintFlow.Report
import TaintFlow.Proofs.Label

/-
What a report records. `Report.Recorded` is the view of a report as a set: a subject, a kind of flow
and the marks that were shown for it. Adding flows whose marks are all known to their pattern never
faults, and records exactly the flows that are added, each with the marks that its pattern displays.

The proofs go up the loops of `Report.add`: a step that `Adds` a set of sightings, a run of such steps,
and so the paths of one position, the positions of one source, the sources of one pattern and the
patterns of a multilabel.
-/
namespace TaintFlow

open Listing

namespace Listing

variable {α : Type} [DecidableEq α]

theorem union_of_nodup : ∀ (m l : List α), (l ++ m).Nodup → union l m = l ++ m
  | [], l, _ => (List.append_nil l).symm
  | a :: m, l, h => by
    have ha : a ∉ l := fun ha => (List.nodup_append.1 h).2.2 a ha a (List.mem_cons_self ..) rfl
    have hl : l ++ a :: m = (l ++ [a]) ++ m := by simp
    rw [union, List.foldl_cons, adjoin, if_neg ha]
    rw [hl] at h ⊢
    exact union_of_nodup m (l ++ [a]) h

theorem distinct_distinct (l : List α) : distinct (distinct l) = distinct l :=
  union_of_nodup (distinct l) [] (nodup_union l [] List.nodup_nil)

end Listing

/-! ## Steps that cannot fail -/

theorem mapM_ok {α β : Type} {f : α → Except Fault β} {g : α → β} :
    ∀ {l : List α}, (∀ a ∈ l, f a = .ok (g a)) → l.mapM f = .ok (l.map g)
  | [], _ => rfl
  | a :: l, h => by
    rw [List.mapM_cons, h a (List.mem_cons_self ..), mapM_ok fun b hb => h b (List.mem_cons_of_mem _ hb)]
    rfl

theorem filterAuxM_ok {α : Type} {f : α → Except Fault Bool} {g : α → Bool} :
    ∀ {l acc : List α}, (∀ a ∈ l, f a = .ok (g a)) →
      List.filterAuxM f l acc = .ok ((l.filter g).reverse ++ acc)
  | [], _, _ => rfl
  | a :: l, acc, h => by
    rw [List.filterAuxM, h a (List.mem_cons_self ..)]
    show List.filterAuxM f l (cond (g a) (a :: acc) acc) = _
    rw [filterAuxM_ok fun b hb => h b (List.mem_cons_of_mem _ hb)]
    cases hg : g a <;> simp [hg]

theorem filterM_ok {α : Type} {f : α → Except Fault Bool} {g : α → Bool} {l : List α}
    (h : ∀ a ∈ l, f a = .ok (g a)) : l.filterM f = .ok (l.filter g) := by
  rw [List.filterM, filterAuxM_ok h]
  show Except.ok _ = _
  simp

/-! ## Marks that a pattern displays -/

namespace Pattern

/-- Reports show the sanitizer of the mark. -/
def displays (p : Pattern) : Mark → Bool
  | .sanitizer name _ => p.shows? name = some true
  | .remark _ => false

variable [SetOrder]

/-- The marks that an edition records for a flow, if it records the flow. -/
def display (edition : Edition) (p : Pattern) (path : List Mark) : Option (List Mark) :=
  match edition with
  | .plain => some (distinct path)
  | .scoped =>
    if path.isEmpty then some []
    else if (path.filter p.displays).isEmpty then none
    else some (SetOrder.members (path.filter p.displays) [])

theorem mem_of_display {edition : Edition} {p : Pattern} {path marks : List Mark} {m : Mark}
    (h : p.display edition path = some marks) (hm : m ∈ marks) : m ∈ path := by
  unfold display at h
  split at h
  · cases h; exact mem_distinct.1 hm
  · split at h
    · cases h; cases hm
    · split at h
      · cases h
      · cases h
        exact (List.mem_filter.1 (SetOrder.mem_members_nil.1 hm)).1

/-- A pattern that shows all marks of a flow records all of them, in both editions. -/
theorem display_of_shown {p : Pattern} {path : List Mark} (h : ∀ m ∈ path, p.displays m = true)
    (edition : Edition) : ∃ marks, p.display edition path = some marks ∧ ∀ m, m ∈ marks ↔ m ∈ path := by
  unfold display
  rw [List.filter_eq_self.2 h]
  cases edition
  · exact ⟨_, rfl, fun _ => mem_distinct⟩
  · cases path with
    | nil => exact ⟨[], rfl, fun _ => .rfl⟩
    | cons k path => exact ⟨_, rfl, fun _ => SetOrder.mem_members_nil⟩

theorem distinct_of_display {edition : Edition} {p : Pattern} {path marks : List Mark}
    (h : p.display edition path = some marks) : distinct marks = marks := by
  unfold display at h
  split at h
  · cases h; exact distinct_distinct path
  · split at h
    · cases h; rfl
    · split at h
      · cases h
      · cases h; exact union_of_nodup _ [] (SetOrder.nodup_members ..)

end Pattern

/-- The mark is a call to a sanitizer that the pattern has; the scoped edition looks its mode up. -/
def Mark.Listed (edition : Edition) (p : Pattern) (m : Mark) : Prop :=
  ∃ name line, m = .sanitizer name line ∧ (edition = .scoped → (p.shows? name).isSome = true)

theorem Mark.Listed.spread {edition : Edition} {p : Pattern} {m : Mark} (h : m.Listed edition p) :
    m.spread = .ok m := by
  obtain ⟨name, line, rfl, -⟩ := h
  rfl

theorem Mark.Listed.shows {p : Pattern} {m : Mark} (h : m.Listed .scoped p) :
    Report.showsMark p m = .ok (p.displays m) := by
  obtain ⟨name, line, rfl, hs⟩ := h
  have hs := hs rfl
  unfold Report.showsMark Pattern.displays
  cases hb : p.shows? name with
  | none => rw [hb] at hs; cases hs
  | some b =>
    simp only [Mark.sanitizerName, bind, Except.bind, pure, Except.pure, hb]
    cases b <;> rfl

namespace Report

/-- The report has this sighting of the subject. -/
def Recorded (r : Report) (s : Subject) (kind : FlowKind) (marks : List Mark) : Prop :=
  ∃ name sightings, r.findings.get? s = some (name, sightings) ∧ ⟨kind, marks⟩ ∈ sightings

theorem recorded_iff {r : Report} {s : Subject} {kind : FlowKind} {marks : List Mark} :
    r.Recorded s kind marks ↔ ⟨kind, marks⟩ ∈ ((r.findings.get? s).map (·.2)).getD [] := by
  unfold Recorded
  cases r.findings.get? s with
  | none => simp
  | some finding => exact ⟨by rintro ⟨_, _, hf, h⟩; cases hf; exact h, fun h => ⟨_, _, rfl, h⟩⟩

theorem not_recorded_empty (s : Subject) (kind : FlowKind) (marks : List Mark) :
    ¬ ({} : Report).Recorded s kind marks := by
  rintro ⟨_, _, h, -⟩
  cases h

theorem recorded_record {r : Report} {s s' : Subject} {new : List Sighting} {kind : FlowKind}
    {marks : List Mark} :
    (r.record s new).Recorded s' kind marks ↔ r.Recorded s' kind marks ∨ (s' = s ∧ ⟨kind, marks⟩ ∈ new) := by
  rw [recorded_iff, recorded_iff]
  unfold record
  cases hs : r.findings.get? s with
  | none =>
    by_cases h : s' = s
    · subst h
      simp [number, hs, Table.get?_insert_self]
    · simp [number, Table.get?_insert_of_ne _ h, h]
  | some finding =>
    by_cases h : s' = s
    · subst h
      simp [hs, Table.get?_insert_self, mem_union]
    · simp [Table.get?_insert_of_ne _ h, h]

theorem recorded_meet {r : Report} {pattern : String} {s : Subject} {kind : FlowKind}
    {marks : List Mark} : (r.meet pattern).Recorded s kind marks ↔ r.Recorded s kind marks :=
  Iff.rfl

/-! ## Steps that add sightings -/

/-- The step does not fault, and records the sightings of `New` on top of what there is. -/
def Adds (step : Report → Report × Option Fault) (New : Subject → FlowKind → List Mark → Prop) : Prop :=
  ∀ r, (step r).2 = none ∧
    ∀ s kind marks, (step r).1.Recorded s kind marks ↔ r.Recorded s kind marks ∨ New s kind marks

theorem sightings_ok {edition : Edition} {p : Pattern} (kind : FlowKind) {paths : List (List Mark)}
    (h : ∀ path ∈ paths, ∀ m ∈ path, m.Listed edition p) :
    sightings kind (thin paths) = .ok (paths.map fun path => ⟨kind, distinct path⟩) := by
  have hp : ∀ path ∈ thin paths, (do return { kind, marks := ← path.mapM Mark.spread } :
      Except Fault Sighting) = .ok ⟨kind, path⟩ := by
    intro path hpath
    obtain ⟨path', hpath', rfl⟩ := List.mem_map.1 hpath
    rw [mapM_ok fun m hm => (h path' hpath' m (mem_distinct.1 hm)).spread, List.map_id']
    rfl
  rw [sightings, mapM_ok hp, thin, List.map_map]
  rfl

theorem shownPath_ok [SetOrder] {p : Pattern} {path : List Mark} (h : ∀ m ∈ path, m.Listed .scoped p) :
    shownPath p path = .ok (p.display .scoped path) := by
  unfold shownPath Pattern.display
  by_cases hp : path.isEmpty
  · simp only [hp, if_true]; rfl
  · rw [filterM_ok fun m hm => (h m hm).shows]
    simp only [hp, Bool.false_eq_true, if_false]
    show Except.ok _ = _
    split <;> rfl

/-- Paths that are recorded as they stand. -/
theorem recordPaths_ok {edition : Edition} {p : Pattern} (r : Report) (kind : FlowKind) (s : Subject)
    {paths : List (List Mark)} (h : ∀ path ∈ paths, ∀ m ∈ path, m.Listed edition p) :
    r.recordPaths kind s paths = .ok (r.record s (paths.map fun path => ⟨kind, distinct path⟩)) := by
  rw [recordPaths, sightings_ok kind h]
  rfl

/-! ## The flows of a label, of a multilabel -/

theorem mem_groupByPosition_foldl {position : Position} {path : List Mark} :
    ∀ (flows : List Flow) (t : Table Position (List (List Mark))),
      path ∈ ((flows.foldl (fun t f => t.insert f.position ((t.get? f.position).getD [] ++ [f.marks])) t).get?
        position).getD [] ↔ path ∈ (t.get? position).getD [] ∨ ⟨position, path⟩ ∈ flows
  | [], t => by simp
  | f :: flows, t => by
    obtain ⟨at_, marks⟩ := f
    rw [List.foldl_cons, mem_groupByPosition_foldl flows]
    by_cases h : position = at_
    · subst h
      simp [Table.get?_insert_self, or_assoc]
    · simp [Table.get?_insert_of_ne _ h, h]

theorem mem_groupByPosition {flows : List Flow} {position : Position} {path : List Mark} :
    (∃ paths, (position, paths) ∈ (groupByPosition flows).entries ∧ path ∈ paths) ↔
      ⟨position, path⟩ ∈ flows := by
  have h := @mem_groupByPosition_foldl position path flows {}
  have hnil : ¬ path ∈ ((({} : Table Position (List (List Mark))).get? position).getD []) :=
    fun h => nomatch h
  rw [or_iff_right hnil] at h
  rw [← h]
  simp only [Table.mem_entries]
  show _ ↔ path ∈ ((groupByPosition flows).get? position).getD []
  cases (groupByPosition flows).get? position <;> simp

/-- What the flows of a label add under a pattern. -/
def Shown [SetOrder] (edition : Edition) (sink : String) (sinkAt : Position) (kind : FlowKind) (p : Pattern) (l : Label)
    (s : Subject) (kind' : FlowKind) (marks : List Mark) : Prop :=
  kind' = kind ∧ (kind = .implicit → p.implicit = true) ∧
    s.pattern = p.name ∧ s.sink = sink ∧ s.sinkAt = sinkAt ∧
    ∃ f, l.Holds s.source f ∧ f.position = s.sourceAt ∧ p.display edition f.marks = some marks

end Report

end TaintFlow
