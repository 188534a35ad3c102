import TaintFlow.Proofs.Editions
import TaintFlow.Proofs.Format
import TaintFlow.Proofs.Log

/-
Where repeated flows come from, in the plain edition. The first submission that has flows of a subject makes the
finding, and its flows go into it as they are, in their order and as often as they are there. What later submissions
have for the subject is adjoined flow by flow, unless it is there. So a flow is repeated in a finding if and only if it
is repeated in the first submission. Flows are compared with the lists of what they passed, so that two flows of a
finding may have passed the same in two orders.
-/
namespace TaintFlow

open Listing

/-- An entry stands once among the entries of a table. -/
theorem Table.exists_split {κ α : Type} [DecidableEq κ] {t : Table κ α} {k : κ} {a : α} (h : t.get? k = some a) :
    ∃ before after, t.entries = before ++ (k, a) :: after ∧ ∀ e ∈ before ++ after, e.1 ≠ k := by
  obtain ⟨before, after, hsplit⟩ := List.append_of_mem (Table.mem_entries.2 h)
  refine ⟨before, after, hsplit, fun e he hk => ?_⟩
  have hnodup := t.nodup
  rw [hsplit, List.map_append, List.map_cons] at hnodup
  have hnew := (List.nodup_cons.1 (List.nodup_middle.1 hnodup)).1
  rw [← List.map_append] at hnew
  exact hnew (List.mem_map.2 ⟨e, he, hk⟩)

namespace Report

/-! ## What a finding has -/

/-- The ways in which a subject was seen, if it has a finding. -/
def noted (r : Report) (s : Subject) : Option (List Sighting) := (r.findings.get? s).map (·.2)

/-- A finding with new sightings: they are adjoined to those it has, or are its first. -/
def joined (new : List Sighting) : Option (List Sighting) → Option (List Sighting)
  | some old => some (union old new)
  | none => if new = [] then none else some new

theorem joined_nil (old : Option (List Sighting)) : joined [] old = old := by
  cases old <;> rfl

theorem noted_record {r : Report} {s s' : Subject} {new : List Sighting} (hnew : new ≠ []) :
    (r.record s new).noted s' = if s' = s then joined new (r.noted s) else r.noted s' := by
  unfold record noted
  cases hs : r.findings.get? s with
  | none =>
    show ((r.findings.insert s _).get? s').map _ = _
    rw [Table.get?_insert]
    split
    · simp [joined, hnew]
    · rfl
  | some finding =>
    show ((r.findings.insert s _).get? s').map _ = _
    rw [Table.get?_insert]
    split
    · simp [joined]
    · rfl

/-- What a step does to the finding of a subject, unless it faults. -/
def Notes (s : Subject) (change : Option (List Sighting) → Option (List Sighting))
    (step : Report → Report × Option Fault) : Prop :=
  ∀ r r', step r = (r', none) → r'.noted s = change (r.noted s)

theorem Notes.congr {s : Subject} {change change' : Option (List Sighting) → Option (List Sighting)}
    {step : Report → Report × Option Fault} (h : Notes s change step) (heq : ∀ o, change o = change' o) :
    Notes s change' step := fun r r' hr => (h r r' hr).trans (heq _)

section Each

variable {α : Type} {step : α → Report → Report × Option Fault} {s : Subject}
  {change : Option (List Sighting) → Option (List Sighting)}

theorem notes_cons {a : α} {l : List α} {change' : Option (List Sighting) → Option (List Sighting)}
    (ha : Notes s change (step a)) (hl : Notes s change' (each step l)) :
    Notes s (change' ∘ change) (each step (a :: l)) := by
  intro r r' h
  rw [each] at h
  have ha := ha r
  generalize step a r = x at h ha
  obtain ⟨r₁, fault?⟩ := x
  cases fault? with
  | none => rw [hl r₁ r' h, ha r₁ rfl, Function.comp_apply]
  | some f => cases h

theorem notes_each {l : List α} (h : ∀ a ∈ l, Notes s id (step a)) : Notes s id (each step l) := by
  induction l with
  | nil =>
    intro r r' h
    cases h
    rfl
  | cons a l ih =>
    rw [List.forall_mem_cons] at h
    exact notes_cons h.1 (ih h.2)

/-- If only one of the steps is about the subject, it does what all of them do. -/
theorem notes_each_split {before after : List α} {a : α} (h : ∀ b ∈ before ++ after, Notes s id (step b))
    (ha : Notes s change (step a)) : Notes s change (each step (before ++ a :: after)) := by
  induction before with
  | nil =>
    have hall := notes_cons ha (notes_each h)
    exact hall
  | cons b before ih =>
    rw [List.cons_append, List.forall_mem_cons] at h
    have hall := notes_cons h.1 (ih h.2)
    exact hall

/-- If only one entry of a table is about the subject, what its step notes is what is noted. -/
theorem notes_table {κ : Type} [DecidableEq κ] {t : Table κ α} {step : κ × α → Report → Report × Option Fault} (k : κ)
    (new : α → List Sighting) (hother : ∀ e ∈ t.entries, e.1 ≠ k → Notes s id (step e))
    (hown : ∀ a, t.get? k = some a → Notes s (joined (new a)) (step (k, a))) :
    Notes s (joined ((t.get? k).elim [] new)) (each step t.entries) := by
  cases hget : t.get? k with
  | none =>
    refine (notes_each fun e he => hother e he fun heq => ?_).congr fun o => (joined_nil o).symm
    rw [← heq, Table.mem_entries.1 he] at hget
    cases hget
  | some a =>
    obtain ⟨before, after, hsplit, hne⟩ := Table.exists_split hget
    rw [hsplit] at hother ⊢
    refine notes_each_split (fun e he => hother e ?_ (hne e he)) (hown a hget)
    rcases List.mem_append.1 he with he | he
    · exact List.mem_append_left _ he
    · exact List.mem_append_right _ (List.mem_cons_of_mem _ he)

end Each

/-! ## The flows of a submission -/

theorem getD_groupByPosition (flows : List Flow) (position : Position) :
    ((groupByPosition flows).get? position).getD [] = (flows.filter (·.position = position)).map (·.marks) := by
  have key : ∀ (flows : List Flow) (t : Table Position (List (List Mark))),
      ((flows.foldl (fun t f => t.insert f.position ((t.get? f.position).getD [] ++ [f.marks])) t).get?
        position).getD [] = (t.get? position).getD [] ++ (flows.filter (·.position = position)).map (·.marks) := by
    intro flows
    induction flows with
    | nil => simp
    | cons f flows ih =>
      intro t
      rw [List.foldl_cons, ih, Table.get?_insert]
      by_cases h : f.position = position
      · simp [h]
      · simp [h, Ne.symm h]
  exact key flows {}

variable {s s' : Subject} {kind : FlowKind} {p : Pattern} {sink : String} {sinkAt : Position}

theorem notes_addGroup [SetOrder] {paths : List (List Mark)} (hpaths : paths ≠ []) :
    Notes s' (fun o => if s' = s then joined ((sightings kind (thin paths)).toOption.getD []) o else o)
      (attempt (addGroup .plain kind p s paths)) := by
  intro r r' h
  unfold attempt addGroup recordPaths at h
  cases hnew : sightings kind (thin paths) with
  | error f =>
    rw [hnew] at h
    cases h
  | ok new =>
    rw [hnew] at h
    cases h
    have hne : new ≠ [] := mapM_ne_nil hnew (by simpa [thin] using hpaths)
    refine (noted_record hne).trans ?_
    split
    · rename_i heq
      rw [heq]
      rfl
    · rfl

/-- What is made of the flows of a label for a source and a position. -/
def sightingsAt (kind : FlowKind) (sourceAt : Position) (flows : List Flow) : List Sighting :=
  (sightings kind (thin ((flows.filter (·.position = sourceAt)).map (·.marks)))).toOption.getD []

/-- The flows of one source: those of the position of the subject are noted. -/
theorem notes_source [SetOrder] (hpattern : s.pattern = p.name) (hsink : s.sink = sink) (hat : s.sinkAt = sinkAt)
    (flows : List Flow) :
    Notes s (joined (sightingsAt kind s.sourceAt flows))
      (each (fun group : Position × List (List Mark) => attempt (addGroup .plain kind p
        { pattern := p.name, source := s.source, sourceAt := group.1, sink, sinkAt } group.2))
        (groupByPosition flows).entries) := by
  have hgroup : sightingsAt kind s.sourceAt flows = ((groupByPosition flows).get? s.sourceAt).elim []
      fun paths => (sightings kind (thin paths)).toOption.getD [] := by
    rw [sightingsAt, ← getD_groupByPosition]
    cases (groupByPosition flows).get? s.sourceAt <;> rfl
  rw [hgroup]
  refine notes_table s.sourceAt _ (fun group hg hne => ?_) fun paths hpaths => ?_
  · refine (notes_addGroup (groupByPosition_ne_nil hg)).congr fun o => if_neg fun heq => hne ?_
    rw [heq]
  · refine (notes_addGroup (groupByPosition_ne_nil (Table.mem_entries.2 hpaths))).congr fun o => if_pos ?_
    cases s
    simp_all

/-- The flows of one label: those of the source and position of the subject are noted. -/
theorem notes_label [SetOrder] (hpattern : s.pattern = p.name) (hsink : s.sink = sink) (hat : s.sinkAt = sinkAt)
    (l : Label) :
    Notes s (joined ((l.flows.get? s.source).elim [] (sightingsAt kind s.sourceAt)))
      (each (fun (source, flows) =>
        each (fun (sourceAt, paths) => attempt (addGroup .plain kind p
          { pattern := p.name, source, sourceAt, sink, sinkAt } paths))
          (groupByPosition flows).entries) l.flows.entries) := by
  refine notes_table s.source _ (fun e _ hne => notes_each fun group hg => ?_) fun flows _ =>
    notes_source hpattern hsink hat flows
  refine (notes_addGroup (groupByPosition_ne_nil hg)).congr fun o => if_neg fun heq => hne ?_
  rw [heq]

theorem notes_addTracked_of_ne [SetOrder] {e : Pattern × Label}
    (hne : ¬ (s.pattern = e.1.name ∧ s.sink = sink ∧ s.sinkAt = sinkAt)) :
    Notes s id (addTracked .plain sink sinkAt kind e) := by
  intro r r' h
  rw [addTracked.eq_def] at h
  split at h
  · cases h
    rfl
  · refine notes_each (fun source _ => notes_each fun group hg => ?_) (r.meet e.1.name) r' h
    refine (notes_addGroup (groupByPosition_ne_nil hg)).congr fun o => if_neg fun heq => hne ?_
    rw [heq]
    exact ⟨rfl, rfl, rfl⟩

theorem notes_addTracked [SetOrder] (hsink : s.sink = sink) (hat : s.sinkAt = sinkAt) (hpattern : s.pattern = p.name)
    (l : Label) :
    Notes s (joined (if kind = .implicit && !p.implicit then []
      else (l.flows.get? s.source).elim [] (sightingsAt kind s.sourceAt)))
      (addTracked .plain sink sinkAt kind (p, l)) := by
  intro r r' h
  rw [addTracked.eq_def] at h
  dsimp only at h
  split at h
  · rename_i himplicit
    cases h
    rw [if_pos himplicit]
    exact (joined_nil _).symm
  · rename_i himplicit
    rw [if_neg himplicit]
    exact notes_label hpattern hsink hat l (r.meet p.name) r' h

end Report

/-- The sightings that are made of the flows that a submission has for a subject. -/
def Submission.sightings (c : Submission) (s : Subject) : List Sighting :=
  if s.sink = c.sink ∧ s.sinkAt = c.sinkAt then
    (c.flows.entries.get? s.pattern).elim [] fun t =>
      if c.kind = .implicit && !t.pattern.implicit then []
      else (t.label.flows.get? s.source).elim [] (Report.sightingsAt c.kind s.sourceAt)
  else []

namespace Report

theorem each_map {α β : Type} (f : α → β) (step : β → Report → Report × Option Fault) (l : List α) (r : Report) :
    each step (l.map f) r = each (fun a => step (f a)) l r := by
  induction l generalizing r with
  | nil => rfl
  | cons a l ih =>
    rw [List.map_cons, each, each]
    generalize step (f a) r = x
    obtain ⟨r', fault?⟩ := x
    cases fault? with
    | none => exact ih r'
    | some f => rfl

/-- A submission notes its flows for the subject. -/
theorem notes_submit [SetOrder] {c : Submission}
    (hnamed : ∀ name t, c.flows.entries.get? name = some t → t.pattern.name = name) (s : Subject) :
    Notes s (joined (c.sightings s)) (submit .plain c) := by
  have hentries : submit .plain c =
      each (fun e => addTracked .plain c.sink c.sinkAt c.kind (e.2.pattern, e.2.label)) c.flows.entries.entries := by
    funext r
    unfold submit add Table.values
    rw [List.map_map, each_map]
    rfl
  rw [hentries]
  unfold Submission.sightings
  split
  · rename_i hsink
    refine notes_table s.pattern _ (fun e he hne => notes_addTracked_of_ne fun heq => hne ?_) fun t ht =>
      notes_addTracked hsink.1 hsink.2 (hnamed _ t ht).symm t.label
    rw [heq.1, hnamed e.1 e.2 (Table.mem_entries.1 he)]
  · rename_i hsink
    exact (notes_each fun e _ => notes_addTracked_of_ne fun heq => hsink heq.2).congr fun o => (joined_nil o).symm

/-! ## Submissions one after the other -/

theorem notes_submitAll [SetOrder] {log : List Submission}
    (hnamed : ∀ c ∈ log, ∀ name t, c.flows.entries.get? name = some t → t.pattern.name = name) (s : Subject) :
    Notes s (fun o => log.foldl (fun o c => joined (c.sightings s) o) o) (submitAll .plain log) := by
  induction log with
  | nil =>
    intro r r' h
    cases h
    rfl
  | cons c log ih =>
    rw [List.forall_mem_cons] at hnamed
    have hall := notes_cons (notes_submit hnamed.1 s) (ih hnamed.2)
    exact hall

theorem foldl_joined_some (s : Subject) (old : List Sighting) (log : List Submission) :
    log.foldl (fun o c => joined (c.sightings s) o) (some old) =
      some (log.foldl (fun flows c => union flows (c.sightings s)) old) := by
  induction log generalizing old with
  | nil => rfl
  | cons c log ih => exact ih (union old (c.sightings s))

/-- The first submission that has something for the subject makes the finding. -/
theorem exists_first_submission {s : Subject} {flows : List Sighting} {log : List Submission}
    (h : log.foldl (fun o c => joined (c.sightings s) o) none = some flows) :
    ∃ before c after, log = before ++ c :: after ∧ (∀ b ∈ before, b.sightings s = []) ∧ c.sightings s ≠ [] ∧
      flows = after.foldl (fun flows b => union flows (b.sightings s)) (c.sightings s) := by
  induction log with
  | nil => cases h
  | cons c log ih =>
    rw [List.foldl_cons] at h
    by_cases hc : c.sightings s = []
    · rw [hc, joined_nil] at h
      obtain ⟨before, c', after, rfl, hbefore, hrest⟩ := ih h
      exact ⟨c :: before, c', after, rfl, List.forall_mem_cons.2 ⟨hc, hbefore⟩, hrest⟩
    · have hfirst : joined (c.sightings s) none = some (c.sightings s) := if_neg hc
      rw [hfirst, foldl_joined_some] at h
      cases h
      exact ⟨[], c, log, rfl, List.forall_mem_nil _, hc, rfl⟩

/-! ## Repetitions -/

theorem prefix_union {α : Type} [DecidableEq α] (m : List α) : ∀ l : List α, l <+: union l m := by
  unfold union
  induction m with
  | nil => exact List.prefix_refl
  | cons a m ih =>
    intro l
    refine List.IsPrefix.trans ?_ (ih (adjoin l a))
    unfold adjoin
    split
    · exact List.prefix_refl l
    · exact List.prefix_append l [a]

/-- Whatever is adjoined to a list, it has a repetition only if the list has. -/
theorem nodup_foldl_union {α β : Type} [DecidableEq α] (g : β → List α) (rest : List β) :
    ∀ l : List α, (rest.foldl (fun l b => union l (g b)) l).Nodup ↔ l.Nodup := by
  induction rest with
  | nil => exact fun _ => .rfl
  | cons b rest ih =>
    intro l
    rw [List.foldl_cons, ih]
    exact ⟨fun h => h.sublist (prefix_union (g b) l).sublist, nodup_union (g b) l⟩

end Report

/-- The flows have the same kind and passed the same sanitizers. -/
def Sighting.Alike (a b : Sighting) : Prop := a.kind = b.kind ∧ ∀ m, m ∈ a.marks ↔ m ∈ b.marks

/-- No two of the flows are alike. -/
def Report.Varied (flows : List Sighting) : Prop := flows.Pairwise fun a b => ¬ a.Alike b

instance Sighting.symm_not_alike : Std.Symm fun a b : Sighting => ¬ a.Alike b :=
  ⟨fun _ _ h h' => h ⟨h'.1.symm, fun m => (h'.2 m).symm⟩⟩

/-- Flows are different if none stands there twice, and the same sanitizers are listed in the same order. -/
theorem Report.varied_iff {flows : List Sighting} :
    Varied flows ↔ flows.Nodup ∧ ∀ a ∈ flows, ∀ b ∈ flows, a.Alike b → a = b := by
  constructor
  · intro h
    constructor
    · refine List.Pairwise.imp (fun hab heq => hab ?_) h
      rw [heq]
      exact ⟨rfl, fun _ => .rfl⟩
    · intro a ha b hb halike
      by_contra hne
      exact List.Pairwise.forall h ha hb hne halike
  · rintro ⟨hnodup, hsame⟩
    exact hnodup.imp_of_mem fun ha hb hne halike => hne (hsame _ ha _ hb halike)

/-! ## Whole programs -/

/-- The flows of a finding of a program that comes to an end are those of the first submission that has something for
the subject, as they are, and then what later ones have besides. So they are repeated only if those of the first
submission are. -/
theorem findings_analyseProgram [SetOrder] {limit : Nat} {patterns : List Pattern} {program : Stmt}
    (hdone : (analyseProgram .plain limit patterns program).1 = none) :
    ∃ paths log, Logs .plain ((program.analyse .plain limit).outcome [Path.start patterns]) (.ok paths) log ∧
      ∀ s name flows, (analyseProgram .plain limit patterns program).2.report.findings.get? s = some (name, flows) →
        ∃ before c after, log = before ++ c :: after ∧ (∀ b ∈ before, b.sightings s = []) ∧ c.sightings s ≠ [] ∧
          flows = after.foldl (fun flows b => union flows (b.sightings s)) (c.sightings s) ∧
          (flows.Nodup ↔ (c.sightings s).Nodup) := by
  obtain ⟨result, log, hlogs, hraised⟩ := program.exists_logs .plain limit [Path.start patterns]
  have hrun := hlogs.run_eq {}
  cases result with
  | error f =>
    rw [fault_analyseProgram.2 (congrArg Prod.fst hrun)] at hdone
    cases hdone
  | ok paths =>
    refine ⟨paths, log, hlogs, fun s name flows hfound => ?_⟩
    have hreport : (analyseProgram .plain limit patterns program).2.report = (Report.submitAll .plain log {}).1 :=
      (report_analyseProgram ..).trans (congrArg Prod.snd hrun)
    have hnoted : Report.noted (Report.submitAll .plain log {}).1 s = _ :=
      Report.notes_submitAll (fun c hc => (hraised c hc).named) s {} _ (Prod.ext rfl (hlogs.added paths rfl {}))
    have hflows : Report.noted (Report.submitAll .plain log {}).1 s = some flows := by
      rw [Report.noted, ← hreport, hfound, Option.map_some]
    obtain ⟨before, c, after, hsplit, hbefore, hc, hflows⟩ :=
      Report.exists_first_submission (hnoted.symm.trans hflows)
    refine ⟨before, c, after, hsplit, hbefore, hc, hflows, ?_⟩
    rw [hflows, Report.nodup_foldl_union]

end TaintFlow
