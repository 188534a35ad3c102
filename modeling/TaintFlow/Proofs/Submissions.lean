import Mathlib.Data.Set.Insert
import TaintFlow.Proofs.Filing

/-
What a report holds after any number of submissions. A submission hands over the flows that reach a sink,
for each pattern they violate. Nothing that was submitted is lost, nothing else is recorded and nothing is
recorded under another subject: a subject has the flows that were submitted for it, each with the sanitizers
that its pattern shows, and it has a finding exactly if there are any.
-/
namespace TaintFlow

open Listing

/-- Flows that are handed over to a report. -/
structure Submission where
  sink : String
  sinkAt : Position
  flows : MultiLabel Pattern
  kind : FlowKind

namespace Submission

/-- The submission has a flow of the subject, for the pattern, that passed these sanitizers. Implicit flows
count for patterns that mind them. -/
structure Offers (c : Submission) (s : Subject) (p : Pattern) (path : List Mark) : Prop where
  pattern : s.pattern = p.name
  sink : s.sink = c.sink
  sinkAt : s.sinkAt = c.sinkAt
  kind : c.kind = .implicit → p.implicit = true
  flow : ∃ name label, c.flows.entries.get? name = some ⟨p, label⟩ ∧ label.Holds s.source ⟨s.sourceAt, path⟩

/-- The flows of each pattern passed only sanitizers of that pattern. -/
def Listed (edition : Edition) (c : Submission) : Prop :=
  ∀ name t, c.flows.entries.get? name = some t → ∀ source f, t.label.Holds source f →
    ∀ m ∈ f.marks, m.Listed edition t.pattern

end Submission

/-- A flow that passed `path` is recorded with the sanitizers `seen`. The plain edition records them all; the
scoped edition records those that the pattern shows, and leaves out a sanitized flow of which it shows none. -/
def Pattern.Leaves (edition : Edition) (p : Pattern) (path : List Mark) (seen : Set Mark) : Prop :=
  match edition with
  | .plain => seen = {m | m ∈ path}
  | .scoped => (path = [] ∨ ∃ m ∈ path, p.displays m = true) ∧ seen = {m | m ∈ path ∧ p.displays m = true}

namespace Report

/-- The flows of a subject: their kinds, and the sanitizers they passed. -/
def flows (r : Report) (s : Subject) : Set (FlowKind × Set Mark) :=
  {x | ∃ marks, r.Recorded s x.1 marks ∧ x.2 = {m | m ∈ marks}}

/-- The report after a submission. -/
def submit [SetOrder] (edition : Edition) (c : Submission) : Report → Report × Option Fault :=
  add edition id c.sink c.sinkAt c.flows c.kind

/-- The report after submissions one after the other. -/
def submitAll [SetOrder] (edition : Edition) (calls : List Submission) : Report → Report × Option Fault :=
  each (submit edition) calls

/-! ## What is recorded -/

theorem Adds.files {step : Report → Report × Option Fault} {New : Subject → FlowKind → List Mark → Prop}
    (h : Adds step New) : Files step New where
  keeps r s kind marks hr := ((h r).2 s kind marks).2 (.inl hr)
  only r s kind marks := ((h r).2 s kind marks).1
  all r _ s kind marks hs := ((h r).2 s kind marks).2 (.inr hs)

theorem adds_each {α : Type} {step : α → Report → Report × Option Fault}
    {New : α → Subject → FlowKind → List Mark → Prop} {l : List α} (h : ∀ a ∈ l, Adds (step a) (New a)) :
    Adds (each step l) fun s kind marks => ∃ a ∈ l, New a s kind marks :=
  (files_each fun a ha => (h a ha).files).adds (fault_each fun a ha r => (h a ha r).1)

/-- A submission records each of its flows with the marks that the pattern displays. -/
theorem adds_submit [SetOrder] {edition : Edition} {c : Submission} (h : c.Listed edition) :
    Adds (submit edition c) fun s kind marks =>
      kind = c.kind ∧ ∃ p path, c.Offers s p path ∧ p.display edition path = some marks := by
  have hadd : Adds (submit edition c) fun s kind marks => ∃ name t, c.flows.entries.get? name = some t ∧
      Shown edition c.sink c.sinkAt c.kind t.pattern t.label s kind marks := adds_add h
  refine fun r => ⟨(hadd r).1, fun s kind marks => ((hadd r).2 s kind marks).trans (or_congr_right ?_)⟩
  constructor
  · rintro ⟨name, ⟨p, label⟩, ht, hk, hi, hp, hs, ha, ⟨position, path⟩, hf, rfl, hd⟩
    exact ⟨hk, p, path, ⟨hp, hs, ha, hi, name, label, ht, hf⟩, hd⟩
  · rintro ⟨hk, p, path, ho, hd⟩
    obtain ⟨name, label, ht, hf⟩ := ho.flow
    exact ⟨name, ⟨p, label⟩, ht, hk, ho.kind, ho.pattern, ho.sink, ho.sinkAt, _, hf, rfl, hd⟩

/-! ## Findings are not empty -/

/-- Every finding has been seen in some way. -/
def Occupied (r : Report) : Prop := ∀ s name sightings, r.findings.get? s = some (name, sightings) → sightings ≠ []

theorem occupied_empty : Occupied {} := by
  intro s name sightings h
  cases h

theorem Occupied.record {r : Report} (h : r.Occupied) {s : Subject} {new : List Sighting} (hnew : new ≠ []) :
    (r.record s new).Occupied := by
  obtain ⟨x, hx⟩ := List.exists_mem_of_ne_nil new hnew
  have hinsert : ∀ {name : String} {t : Table Subject (String × List Sighting)} {l : List Sighting}, x ∈ l →
      (∀ s name sightings, t.get? s = some (name, sightings) → sightings ≠ []) →
      ∀ s' name' sightings, (t.insert s (name, l)).get? s' = some (name', sightings) → sightings ≠ [] := by
    intro name t l hl ht s' name' sightings hs
    rw [Table.get?_insert] at hs
    split at hs
    · cases hs
      exact List.ne_nil_of_mem hl
    · exact ht s' name' sightings hs
  -- the new sightings are added to those of the subject, or are its first
  unfold Report.record
  cases hs : r.findings.get? s with
  | some finding => exact hinsert (mem_union.2 (.inr hx)) h
  | none => exact hinsert hx h

theorem mapM_ne_nil {α β : Type} {f : α → Except Fault β} {l : List α} {m : List β} (h : l.mapM f = .ok m)
    (hl : l ≠ []) : m ≠ [] := by
  cases l with
  | nil => exact absurd rfl hl
  | cons a l =>
    rw [List.mapM_cons] at h
    obtain ⟨b, -, h⟩ := bind_ok h
    obtain ⟨rest, -, h⟩ := bind_ok h
    cases h
    simp

theorem Occupied.recordPaths {r r' : Report} (h : r.Occupied) {kind : FlowKind} {s : Subject}
    {paths : List (List Mark)} (hpaths : paths ≠ []) (hr : r.recordPaths kind s paths = .ok r') : r'.Occupied := by
  obtain ⟨new, hnew, hr⟩ := bind_ok hr
  cases hr
  exact h.record (mapM_ne_nil hnew (by simpa [thin] using hpaths))

theorem Occupied.addGroup [SetOrder] {r r' : Report} (h : r.Occupied) {edition : Edition} {kind : FlowKind}
    {p : Pattern} {s : Subject} {paths : List (List Mark)} (hpaths : paths ≠ [])
    (hr : Report.addGroup edition kind p s paths r = .ok r') : r'.Occupied := by
  match edition with
  | .plain => exact h.recordPaths hpaths hr
  | .scoped =>
    obtain ⟨shown, -, hr⟩ := bind_ok hr
    split at hr
    · cases hr
      exact h
    · -- some path is left after hiding, so something is recorded
      rename_i hshown
      have hmet : (r.meet p.name).Occupied := h
      exact hmet.recordPaths (by simpa using hshown) hr

theorem Occupied.each {α : Type} {step : α → Report → Report × Option Fault} : ∀ {l : List α} {r : Report},
    (∀ a ∈ l, ∀ r, r.Occupied → (step a r).1.Occupied) → r.Occupied → (each step l r).1.Occupied
  | [], _, _, h => h
  | a :: l, r, hstep, h => by
    have ha := hstep a (List.mem_cons_self ..) r h
    rw [Report.each]
    generalize step a r = x at ha
    obtain ⟨r', fault?⟩ := x
    cases fault? with
    | none => exact Occupied.each (fun b hb => hstep b (List.mem_cons_of_mem _ hb)) ha
    | some f => exact ha

/-- A position is entered into the groups together with a flow. -/
theorem groupByPosition_ne_nil {flows : List Flow} {position : Position} {paths : List (List Mark)}
    (h : (position, paths) ∈ (groupByPosition flows).entries) : paths ≠ [] := by
  have key : ∀ (l : List Flow) (t : Table Position (List (List Mark))),
      (∀ q paths, t.get? q = some paths → paths ≠ []) → ∀ q paths,
        (l.foldl (fun t f => t.insert f.position ((t.get? f.position).getD [] ++ [f.marks])) t).get? q = some paths →
          paths ≠ [] := by
    intro l
    induction l with
    | nil => exact fun t ht => ht
    | cons f l ih =>
      intro t ht
      refine ih _ fun q paths hq => ?_
      rw [Table.get?_insert] at hq
      split at hq
      · cases hq
        simp
      · exact ht q paths hq
  exact key flows {} (fun _ _ h => by cases h) position paths (Table.mem_entries.1 h)

theorem Occupied.addTracked [SetOrder] {r : Report} (h : r.Occupied) (edition : Edition) (sink : String)
    (sinkAt : Position) (kind : FlowKind) (e : Pattern × Label) :
    (Report.addTracked edition sink sinkAt kind e r).1.Occupied := by
  rw [addTracked.eq_def]
  split
  · exact h
  · refine Occupied.each (fun entry _ r hr => Occupied.each (fun group hg r hr => ?_) hr) ?_
    · dsimp only [attempt]
      cases hadd : Report.addGroup edition kind e.1 _ group.2 r with
      | error f => exact hr
      | ok r' => exact hr.addGroup (groupByPosition_ne_nil hg) hadd
    · cases edition <;> exact h

theorem Occupied.submitAll [SetOrder] {r : Report} (h : r.Occupied) (edition : Edition) (calls : List Submission) :
    (Report.submitAll edition calls r).1.Occupied :=
  Occupied.each (fun c _ _ hr => Occupied.each (fun e _ _ hr => hr.addTracked edition c.sink c.sinkAt c.kind e) hr) h

/-- A subject has a finding if and only if it has flows. -/
theorem Occupied.contains_iff {r : Report} (h : r.Occupied) {s : Subject} :
    r.findings.contains s = true ↔ (r.flows s).Nonempty := by
  unfold Table.contains
  rw [Option.isSome_iff_exists]
  constructor
  · rintro ⟨⟨name, sightings⟩, hs⟩
    obtain ⟨⟨kind, marks⟩, hm⟩ := List.exists_mem_of_ne_nil sightings (h s name sightings hs)
    exact ⟨(kind, {m | m ∈ marks}), marks, ⟨name, sightings, hs, hm⟩, rfl⟩
  · rintro ⟨_, _, ⟨name, sightings, hs, -⟩, -⟩
    exact ⟨(name, sightings), hs⟩

end Report

/-! ## Submissions one after the other -/

theorem Pattern.leaves_iff [SetOrder] {edition : Edition} {p : Pattern} {path : List Mark} {seen : Set Mark} :
    p.Leaves edition path seen ↔ ∃ marks, p.display edition path = some marks ∧ seen = {m | m ∈ marks} := by
  match edition with
  | .plain => simp [Leaves, display, mem_distinct]
  | .scoped =>
    cases path with
    | nil => simp [Leaves, display]
    | cons m path =>
      simp only [Leaves, display, reduceCtorEq, false_or, List.isEmpty_cons, Bool.false_eq_true, if_false]
      by_cases hshown : ((m :: path).filter p.displays).isEmpty = true
      · rw [if_pos hshown]
        simp only [List.isEmpty_iff, List.filter_eq_nil_iff] at hshown
        simp only [reduceCtorEq, false_and, exists_false, iff_false, not_and]
        rintro ⟨k, hk, hd⟩
        exact absurd hd (hshown k hk)
      · rw [if_neg hshown]
        obtain ⟨k, hk⟩ := List.exists_mem_of_ne_nil _ (fun h => hshown (List.isEmpty_iff.2 h))
        have hex : ∃ k ∈ m :: path, p.displays k = true := ⟨k, List.mem_filter.1 hk⟩
        simp only [hex, true_and, Option.some.injEq, exists_eq_left', SetOrder.mem_members_nil, List.mem_filter]

/-- After any submissions, of flows that passed sanitizers of their own patterns only, a subject has exactly the
flows that were submitted for it, with the sanitizers that are shown, and a finding if there are any. -/
theorem report_holds_what_was_submitted [SetOrder] {edition : Edition} {calls : List Submission}
    (h : ∀ c ∈ calls, c.Listed edition) :
    ∃ r, Report.submitAll edition calls {} = (r, none) ∧ ∀ s,
      r.flows s = {x | ∃ c ∈ calls, x.1 = c.kind ∧ ∃ p path, c.Offers s p path ∧ p.Leaves edition path x.2} ∧
      (r.findings.contains s = true ↔ (r.flows s).Nonempty) := by
  have hadds := Report.adds_each (fun c hc => Report.adds_submit (h c hc)) {}
  have hoccupied := Report.occupied_empty.submitAll edition calls
  refine ⟨(Report.submitAll edition calls {}).1, Prod.ext rfl hadds.1, fun s => ⟨?_, hoccupied.contains_iff⟩⟩
  ext ⟨kind, seen⟩
  have hrecorded := hadds.2 s kind
  simp only [Report.not_recorded_empty, false_or] at hrecorded
  simp only [Report.flows, Set.mem_ofPred_eq, Pattern.leaves_iff]
  constructor
  · rintro ⟨marks, hm, rfl⟩
    obtain ⟨c, hc, hk, p, path, ho, hd⟩ := (hrecorded marks).1 hm
    exact ⟨c, hc, hk, p, path, ho, marks, hd, rfl⟩
  · rintro ⟨c, hc, hk, p, path, ho, marks, hd, rfl⟩
    exact ⟨marks, (hrecorded marks).2 ⟨c, hc, hk, p, path, ho, hd⟩, rfl⟩

namespace Submission

theorem listed_of_entries {edition : Edition} {c : Submission}
    (h : ∀ e ∈ c.flows.entries.entries, ∀ l ∈ e.2.label.flows.entries, ∀ f ∈ l.2, ∀ m ∈ f.marks,
      m.Listed edition e.2.pattern) : c.Listed edition := by
  rintro name t ht source f ⟨flows, hflows, hf⟩
  exact h (name, t) (Table.mem_entries.2 ht) (source, flows) (Table.mem_entries.2 hflows) f hf

/-- A pattern that shows `esc` and hides `hush`. -/
def discreet : Pattern where
  name := "A"
  sources := ["get"]
  sinks := ["sink"]
  modes := [("esc", .text "show"), ("hush", .text "hide")]
  implicit := false

/-- Flows from `get` to `sink`: one that passed both sanitizers at the second line, one that passed the hidden
one at the third. -/
def masked (kind : FlowKind) : Submission where
  sink := "sink"
  sinkAt := { line := 4 }
  flows := ⟨.ofList [("A", { pattern := discreet, label := ⟨.ofList [("get", [
    { position := { line := 2 }, marks := [.sanitizer "esc" 2, .sanitizer "hush" 2] },
    { position := { line := 3 }, marks := [.sanitizer "hush" 3] }])]⟩ })]⟩
  kind := kind

theorem listed_masked (kind : FlowKind) : (masked kind).Listed .scoped := by
  refine listed_of_entries fun e he l hl f hf m hm => ?_
  obtain rfl : e = ("A", _) := List.mem_singleton.1 he
  obtain rfl : l = ("get", _) := List.mem_singleton.1 hl
  simp only [List.mem_cons, List.not_mem_nil, or_false] at hf
  rcases hf with rfl | rfl
  · simp only [List.mem_cons, List.not_mem_nil, or_false] at hm
    rcases hm with rfl | rfl
    · exact ⟨"esc", 2, rfl, fun _ => rfl⟩
    · exact ⟨"hush", 2, rfl, fun _ => rfl⟩
  · exact ⟨"hush", 3, List.mem_singleton.1 hm, fun _ => rfl⟩

end Submission

/-- Of two submissions of the same flows, one of them implicit, the flow from the second line is recorded once, without
the hidden sanitizer, and the flow from the third line is not. -/
theorem report_of_masked_flows :
    let calls := [Submission.masked .implicit, Submission.masked .explicit]
    (∀ c ∈ calls, c.Listed .scoped) ∧ ∃ r, Report.submitAll .scoped calls {} = (r, none) ∧
      (FlowKind.explicit, {Mark.sanitizer "esc" 2}) ∈ r.flows ⟨"A", "get", { line := 2 }, "sink", { line := 4 }⟩ ∧
      ¬ (r.flows ⟨"A", "get", { line := 3 }, "sink", { line := 4 }⟩).Nonempty := by
  intro calls
  have hlisted : ∀ c ∈ calls, c.Listed .scoped :=
    List.forall_mem_cons.2 ⟨Submission.listed_masked .implicit,
      List.forall_mem_singleton.2 (Submission.listed_masked .explicit)⟩
  obtain ⟨r, hr, hflows⟩ := report_holds_what_was_submitted hlisted
  refine ⟨hlisted, r, hr, ?_, ?_⟩
  · rw [(hflows _).1]
    refine ⟨_, List.mem_cons_of_mem _ (List.mem_cons_self ..), rfl, Submission.discreet,
      [.sanitizer "esc" 2, .sanitizer "hush" 2], ⟨rfl, rfl, rfl, nofun, "A", _, rfl, _, rfl, List.mem_cons_self ..⟩,
      .inr ⟨.sanitizer "esc" 2, by decide, by decide⟩, ?_⟩
    ext m
    simp only [Set.mem_singleton_iff, List.mem_cons, List.not_mem_nil, or_false, Set.mem_ofPred_eq]
    constructor
    · rintro rfl
      exact ⟨.inl rfl, by decide⟩
    · rintro ⟨rfl | rfl, hd⟩
      · rfl
      · exact absurd hd (by decide)
  · rw [← (hflows _).2]
    have hr := congrArg Prod.fst hr
    subst hr
    decide +kernel

end TaintFlow
