import Mathlib.Data.List.Perm.Basic
import Mathlib.Tactic.Choose
import TaintFlow.Proofs.Numbering

/-
Writing a report. The entries are ranked by what their names say: the text before the first underscore is
looked up among the patterns that were met, and the text behind it is read as the number. This finds the
pattern and the number of a finding if the name of the pattern has no underscore itself. With one, the first
part is the name of no pattern, and the report is not written.
-/
namespace TaintFlow

open Listing

namespace Report

/-- A finding as an entry. -/
def entryOf (finding : Subject × String × List Sighting) : Entry :=
  { name := finding.2.1, subject := finding.1, flows := finding.2.2 }

/-- The pattern of `a` was met before that of `b`, or it is the same and `a` has the smaller number. -/
def Before (r : Report) (a b : Entry) : Prop :=
  r.discovered.idxOf a.subject.pattern < r.discovered.idxOf b.subject.pattern ∨
    a.subject.pattern = b.subject.pattern ∧ ∃ m n, m < n ∧
      a.name = numbered a.subject.pattern m ∧ b.name = numbered b.subject.pattern n

/-- The report is written, with one entry for each finding, by the places of the patterns and by number. -/
def Written (edition : Edition) (r : Report) : Prop :=
  ∃ es, r.entries = .ok es ∧ r.toDocument edition = .ok (.list (es.map (Entry.toDocument edition))) ∧
    es.Perm (r.findings.entries.map entryOf) ∧ es.Pairwise r.Before

theorem toDocument_of_entries {edition : Edition} {r : Report} {es : List Entry} (h : r.entries = .ok es) :
    r.toDocument edition = .ok (.list (es.map (Entry.toDocument edition))) := by
  unfold toDocument
  rw [h]
  rfl

/-! ## Ranks -/

theorem place_of_mem {items : List String} {item : String} (h : item ∈ items) :
    place items item = .ok (items.idxOf item) := by
  have hindex : items.findIdx? (fun x => decide (x = item)) = some (items.idxOf item) := by
    rw [List.findIdx?_eq_some_iff_findIdx_eq]
    exact ⟨List.idxOf_lt_length_of_mem h, by simp [List.idxOf, beq_eq_decide]⟩
  unfold place
  rw [hindex]

theorem place_of_not_mem {items : List String} {item : String} (h : item ∉ items) :
    place items item = .error (.notListed (Text.quoted item)) := by
  have hindex : items.findIdx? (fun x => decide (x = item)) = none := by
    rw [List.findIdx?_eq_none_iff]
    intro x hx
    simp only [decide_eq_false_iff_not]
    rintro rfl
    exact h hx
  unfold place
  rw [hindex]

/-- The rank of a finding of a pattern without underscores is the place of the pattern and the number. -/
theorem rank_of_plain_name {r : Report} {e : Entry} {pattern : String} {n : Nat} (he : e.name = numbered pattern n)
    (hplain : '_' ∉ pattern.toList) (hmet : pattern ∈ r.discovered) :
    r.rank e = .ok (r.discovered.idxOf pattern, (n : Int)) := by
  have hparts : e.name.splitOn "_" = [pattern, toString n] := by
    rw [he, splitOn_numbered, Text.splitOn_underscore_of_not_mem hplain]
    rfl
  unfold rank
  simp only [hparts, List.getD_cons_zero, List.getD_cons_succ, place_of_mem hmet, Text.integer?_toString]
  rfl

/-- An entry with the place of its pattern and its number. -/
def Ranked (r : Report) (x : (Nat × Int) × Entry) : Prop :=
  x.2.subject.pattern ∈ r.discovered ∧ ∃ n : Nat, x.2.name = numbered x.2.subject.pattern n ∧
    x.1 = (r.discovered.idxOf x.2.subject.pattern, (n : Int))

theorem before_of_ranked {r : Report} {a b : (Nat × Int) × Entry} (ha : r.Ranked a) (hb : r.Ranked b)
    (hle : a.1.1 < b.1.1 ∨ a.1.1 = b.1.1 ∧ a.1.2 ≤ b.1.2) (hne : a.2.name ≠ b.2.name) : r.Before a.2 b.2 := by
  obtain ⟨hmet, m, hm, hplace⟩ := ha
  obtain ⟨-, n, hn, hplace'⟩ := hb
  rw [hplace, hplace'] at hle
  rcases hle with hlt | ⟨heq, hmn⟩
  · exact .inl hlt
  · -- the same place is the same pattern, and then the numbers differ
    have hpattern := (List.idxOf_inj hmet).1 heq
    have hdiff : m ≠ n := by
      rintro rfl
      exact hne (by rw [hm, hn, hpattern])
    have hle : m ≤ n := Int.ofNat_le.1 hmn
    exact .inr ⟨hpattern, m, n, Nat.lt_of_le_of_ne hle hdiff, hm, hn⟩

/-! ## Sorting -/

/-- The order in which ranked entries are sorted. -/
def leRank (a b : (Nat × Int) × Entry) : Bool := a.1.1 < b.1.1 || (a.1.1 = b.1.1 && a.1.2 ≤ b.1.2)

theorem leRank_iff {a b : (Nat × Int) × Entry} :
    leRank a b = true ↔ a.1.1 < b.1.1 ∨ a.1.1 = b.1.1 ∧ a.1.2 ≤ b.1.2 := by
  simp [leRank]

theorem pairwise_leRank (l : List ((Nat × Int) × Entry)) :
    (l.mergeSort leRank).Pairwise fun a b => leRank a b = true := by
  refine List.pairwise_mergeSort (fun a b c hab hbc => ?_) (fun a b => ?_) l
  · rw [leRank_iff] at hab hbc ⊢
    omega
  · rw [Bool.or_eq_true, leRank_iff, leRank_iff]
    omega

/-- If every finding has a rank, the entries are sorted by their ranks. -/
theorem entries_of_rank {r : Report} {rankOf : Subject × String × List Sighting → Nat × Int}
    (h : ∀ f ∈ r.findings.entries, r.rank (entryOf f) = .ok (rankOf f)) : r.entries =
      .ok (((r.findings.entries.map fun f => (rankOf f, entryOf f)).mergeSort leRank).map (·.2)) := by
  have hmap : (r.findings.entries.mapM fun f => do return (← r.rank (entryOf f), entryOf f)) =
      .ok (r.findings.entries.map fun f => (rankOf f, entryOf f)) := by
    refine mapM_ok fun f hf => ?_
    rw [h f hf]
    rfl
  show (do
    let ranked ← r.findings.entries.mapM fun f => do return (← r.rank (entryOf f), entryOf f)
    return (ranked.mergeSort leRank).map Prod.snd) = _
  rw [hmap]
  rfl

/-- Findings of patterns without underscores are written in their order. -/
theorem Orderly.written {r : Report} (h : r.Orderly) (hplain : ∀ s ∈ r.findings.keys, '_' ∉ s.pattern.toList)
    (edition : Edition) : r.Written edition := by
  have hmet : ∀ f ∈ r.findings.entries, f.1.pattern ∈ r.discovered :=
    fun f hf => h.met_of_mem_keys (List.mem_map_of_mem hf)
  have hnamed : ∀ f ∈ r.findings.entries, ∃ n, f.2.1 = numbered f.1.pattern n := by
    rintro ⟨s, name, sightings⟩ hf
    obtain ⟨n, hn, -⟩ := h.name (Table.mem_entries.1 hf)
    exact ⟨n + 1, hn⟩
  choose! number hnumber using hnamed
  let ranked := r.findings.entries.map fun f => ((r.discovered.idxOf f.1.pattern, (number f : Int)), entryOf f)
  have hentries : r.entries = .ok ((ranked.mergeSort leRank).map (·.2)) :=
    entries_of_rank fun f hf =>
      rank_of_plain_name (hnumber f hf) (hplain f.1 (List.mem_map_of_mem hf)) (hmet f hf)
  have hperm : (ranked.mergeSort leRank).Perm ranked := List.mergeSort_perm ranked leRank
  refine ⟨_, hentries, toDocument_of_entries hentries, ?_, ?_⟩
  · simpa [ranked, Function.comp_def] using hperm.map (·.2)
  · have hne : (ranked.mergeSort leRank).Pairwise fun a b => a.2.name ≠ b.2.name := by
      have hnames : ((ranked.mergeSort leRank).map fun x => x.2.name).Nodup := by
        refine (hperm.map fun x => x.2.name).nodup_iff.2 ?_
        simpa [ranked, Table.values, Function.comp_def, entryOf] using h.nodup_names
      exact List.pairwise_map.1 hnames
    have hranked : ∀ x ∈ ranked.mergeSort leRank, r.Ranked x := by
      intro x hx
      obtain ⟨f, hf, rfl⟩ := List.mem_map.1 (hperm.mem_iff.1 hx)
      exact ⟨hmet f hf, number f, hnumber f hf, rfl⟩
    rw [List.pairwise_map]
    exact ((pairwise_leRank ranked).and hne).imp_of_mem fun ha hb hab =>
      before_of_ranked (hranked _ ha) (hranked _ hb) (leRank_iff.1 hab.1) hab.2

end Report

/-! ## Names with underscores -/

/-- An unsanitized flow against a pattern. -/
def Submission.raw (p : Pattern) : Submission where
  sink := "sink"
  sinkAt := { line := 2 }
  flows := ⟨.ofList [(p.name, { pattern := p, label := ⟨.ofList [("source", [{ position := { line := 1 } }])]⟩ })]⟩
  kind := .explicit

theorem Report.each_singleton {α : Type} (step : α → Report → Report × Option Fault) (a : α) (r : Report) :
    each step [a] r = step a r := by
  rw [each]
  rcases step a r with ⟨r', _ | f⟩ <;> rfl

theorem Report.shownPaths_raw [SetOrder] (p : Pattern) : shownPaths p [[]] = .ok [[]] :=
  congrArg Except.ok (SetOrder.members_singleton [])

/-- The report of one flow that passed no sanitizer. -/
theorem Report.gather_raw [SetOrder] (edition : Edition) (p : Pattern) :
    (gather edition [.raw p]).findings.entries =
      [(⟨p.name, "source", { line := 1 }, "sink", { line := 2 }⟩, numbered p.name 1, [⟨.explicit, []⟩])] ∧
    (gather edition [.raw p]).discovered = [p.name] := by
  cases edition
  · exact ⟨rfl, rfl⟩
  · have hgroup (s : Subject) (r : Report) :
        addGroup .scoped .explicit p s [[]] r = (r.meet p.name).recordPaths .explicit s [[]] := by
      unfold addGroup
      rw [shownPaths_raw]
      rfl
    have hgather : gather .scoped [.raw p] = (attempt (addGroup .scoped .explicit p
        ⟨p.name, "source", { line := 1 }, "sink", { line := 2 }⟩ [[]]) {}).1 := by
      -- one pattern, one source, one position
      show (each _ [_] _).1 = _
      rw [each_singleton]
      show (each _ [_] _).1 = _
      rw [each_singleton]
      show (each _ [_] _).1 = _
      rw [each_singleton]
      rfl
    rw [hgather, attempt, hgroup]
    exact ⟨rfl, rfl⟩

/-- The first part of the name of the only finding is looked up in vain. -/
theorem Report.entries_raw [SetOrder] {p : Pattern} {part : String} {rest : List String}
    (hparts : p.name.splitOn "_" = part :: rest) (hne : part ≠ p.name) (edition : Edition) :
    (gather edition [.raw p]).entries = .error (.notListed (Text.quoted part)) := by
  obtain ⟨hfindings, hdiscovered⟩ := gather_raw edition p
  unfold entries
  rw [hfindings, List.mapM_cons]
  unfold rank
  simp only [splitOn_numbered, hparts, hdiscovered, List.cons_append, List.getD_cons_zero]
  rw [place_of_not_mem (by simpa using hne)]
  rfl

/-- The flows are flows against patterns of these names. -/
def Submission.Against (policy : List Pattern) (c : Submission) : Prop :=
  ∀ t ∈ c.flows.entries.values, t.pattern.name ∈ policy.map (·.name)

theorem Submission.against_raw {policy : List Pattern} {p : Pattern} (h : p ∈ policy) : (raw p).Against policy := by
  intro t ht
  obtain rfl : t = _ := List.mem_singleton.1 ht
  exact List.mem_map_of_mem h

/-- The reports of any submissions against the patterns of a list are all written, one entry for each finding in
the order of patterns and numbers, exactly if no pattern has an underscore in its name. -/
theorem reports_written_iff_no_underscore [SetOrder] (edition : Edition) (policy : List Pattern) :
    (∀ calls : List Submission, (∀ c ∈ calls, c.Against policy) → (Report.gather edition calls).Written edition) ↔
      ∀ p ∈ policy, '_' ∉ p.name.toList := by
  constructor
  · intro h p hp hunderscore
    obtain ⟨part, rest, hparts, hne⟩ := Text.splitOn_underscore_of_mem hunderscore
    obtain ⟨es, hes, -⟩ := h [.raw p] (List.forall_mem_singleton.2 (Submission.against_raw hp))
    rw [Report.entries_raw hparts hne] at hes
    cases hes
  · intro hplain calls hcalls
    have hchanges : Report.Changes (· ∈ policy.map (·.name)) {} (Report.gather edition calls) :=
      Report.changes_gather edition hcalls
    refine hchanges.orderly.written (fun s hs => ?_) edition
    have hknown := hchanges.known_of_discovered s.pattern (hchanges.orderly.met_of_mem_keys hs)
    obtain ⟨p, hp, hname⟩ := List.mem_map.1 hknown
    exact hname ▸ hplain p hp

/-- A pattern with an underscore in its name. -/
def Pattern.sqlInjection : Pattern where
  name := "SQL_injection"
  sources := ["source"]
  sinks := ["sink"]
  modes := []
  implicit := false

/-- The report of one flow against such a pattern is not written, in either edition. -/
theorem report_of_underscored_pattern_fails :
    (Report.gather .plain [.raw .sqlInjection]).toDocument .plain = .error (.notListed "'SQL'") ∧
      (Report.gather .scoped [.raw .sqlInjection]).toDocument .scoped = .error (.notListed "'SQL'") := by
  have hparts : Pattern.sqlInjection.name.splitOn "_" = "SQL" :: ["injection"] := by
    rw [Text.splitOn_underscore]
    decide
  have hquoted : Text.quoted "SQL" = "'SQL'" := by decide +kernel
  have hentries : ∀ edition, (Report.gather edition [.raw .sqlInjection]).entries = .error (.notListed "'SQL'") :=
    fun edition => hquoted ▸ Report.entries_raw hparts (by decide) edition
  unfold Report.toDocument
  rw [hentries, hentries]
  exact ⟨rfl, rfl⟩

end TaintFlow
