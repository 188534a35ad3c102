import Mathlib.Data.List.Nodup
import Mathlib.Logic.Relation
import TaintFlow.Proofs.FindingName
import TaintFlow.Proofs.Submissions

/-
How findings are numbered. Submissions change a report in two ways only: a pattern is met, or sightings are
recorded for a subject whose pattern was met before. Along these changes the findings of a pattern stay
numbered one by one in the order in which they were made, and no finding is lost, renamed or cut short.
-/
namespace TaintFlow

open Listing

theorem Listing.prefix_adjoin {α : Type} [DecidableEq α] (l : List α) (a : α) : l <+: adjoin l a := by
  unfold adjoin
  split
  · exact List.prefix_refl l
  · exact List.prefix_append l [a]

theorem Listing.prefix_union {α : Type} [DecidableEq α] (l m : List α) : l <+: union l m := by
  unfold union
  induction m generalizing l with
  | nil => exact List.prefix_refl l
  | cons a m ih => exact (prefix_adjoin l a).trans (ih (adjoin l a))

namespace Table

variable {κ α β : Type} [DecidableEq κ]

theorem put_of_find_none {k : κ} {l : List (κ × α)} (h : find k l = none) (a : α) : put k a l = l ++ [(k, a)] := by
  induction l with
  | nil => rfl
  | cons e l ih =>
    by_cases hk : e.1 = k
    · simp [find, hk] at h
    · simp only [find, hk, if_false] at h
      simp [put, hk, ih h]

/-- A value that is replaced by one that looks the same leaves the entries as they were, to the look. -/
theorem map_filter_put {k : κ} {l : List (κ × α)} {a a' : α} (p : κ → Bool) (look : α → β)
    (h : find k l = some a) (hlook : look a' = look a) :
    ((put k a' l).filter fun e => p e.1).map (fun e => look e.2) =
      (l.filter fun e => p e.1).map fun e => look e.2 := by
  induction l with
  | nil => simp [find] at h
  | cons e l ih =>
    obtain ⟨k₀, a₀⟩ := e
    by_cases hk : k₀ = k
    · simp only [find, hk, if_true, Option.some.injEq] at h
      subst h hk
      cases hp : p k₀ <;> simp [put, hp, hlook]
    · simp only [find, hk, if_false] at h
      cases hp : p k₀ <;> simp [put, hk, hp, ih h]

end Table

namespace Report

/-! ## What submissions change -/

/-- A change that a submission makes to a report. The patterns it meets are `known`. -/
inductive Change (known : String → Prop) : Report → Report → Prop
  | meet (r : Report) (pattern : String) (h : known pattern) : Change known r (r.meet pattern)
  | record (r : Report) (s : Subject) (new : List Sighting) (met : s.pattern ∈ r.discovered) :
      Change known r (r.record s new)

/-- Changes one after the other. -/
abbrev Changes (known : String → Prop) : Report → Report → Prop := Relation.ReflTransGen (Change known)

section

variable {known : String → Prop}

theorem discovered_record (r : Report) (s : Subject) (new : List Sighting) :
    (r.record s new).discovered = r.discovered := by
  unfold Report.record
  cases r.findings.get? s <;> rfl

theorem Changes.discovered {r r' : Report} (h : Changes known r r') {pattern : String}
    (hp : pattern ∈ r.discovered) : pattern ∈ r'.discovered := by
  induction h with
  | refl => exact hp
  | tail _ hstep ih =>
    cases hstep with
    | meet name hname => exact mem_adjoin.2 (.inl ih)
    | record s new met => rwa [discovered_record]

/-- Only known patterns are met. -/
theorem Changes.known_of_discovered {r : Report} (h : Changes known {} r) :
    ∀ pattern ∈ r.discovered, known pattern := by
  induction h with
  | refl => exact List.forall_mem_nil _
  | tail _ hstep ih =>
    cases hstep with
    | meet name hname =>
      intro pattern hp
      rcases mem_adjoin.1 hp with hp | rfl
      · exact ih pattern hp
      · exact hname
    | record s new met => rwa [discovered_record]

theorem changes_recordPaths {r r' : Report} {kind : FlowKind} {s : Subject} {paths : List (List Mark)}
    (hmet : s.pattern ∈ r.discovered) (h : r.recordPaths kind s paths = .ok r') : Changes known r r' := by
  obtain ⟨new, -, h⟩ := bind_ok h
  cases h
  exact .single (.record r s new hmet)

/-- The pattern of the flows is met before they are added, or, in the scoped edition, when they are. -/
theorem changes_addGroup [SetOrder] {edition : Edition} {r r' : Report} {kind : FlowKind} {p : Pattern} {s : Subject}
    {paths : List (List Mark)} (hp : known p.name) (hs : s.pattern = p.name)
    (hmet : edition = .plain → p.name ∈ r.discovered) (h : addGroup edition kind p s paths r = .ok r') :
    Changes known r r' := by
  match edition with
  | .plain => exact changes_recordPaths (hs ▸ hmet rfl) h
  | .scoped =>
    obtain ⟨shown, -, h⟩ := bind_ok h
    split at h
    · cases h
      exact .refl
    · exact .head (.meet r p.name hp) (changes_recordPaths (hs ▸ mem_adjoin.2 (.inr rfl)) h)

/-- Steps that change a report, each under a condition that changes keep. -/
theorem changes_each {α : Type} {step : α → Report → Report × Option Fault} {P : Report → Prop}
    (hkeep : ∀ r r', Changes known r r' → P r → P r') :
    ∀ {l : List α} {r : Report}, (∀ a ∈ l, ∀ r, P r → Changes known r (step a r).1) → P r →
      Changes known r (each step l r).1
  | [], r, _, _ => .refl
  | a :: l, r, hstep, h => by
    have ha := hstep a (List.mem_cons_self ..) r h
    rw [Report.each]
    generalize step a r = x at ha
    obtain ⟨r', fault?⟩ := x
    cases fault? with
    | none =>
      exact ha.trans (changes_each hkeep (fun b hb => hstep b (List.mem_cons_of_mem _ hb)) (hkeep r r' ha h))
    | some f => exact ha

theorem changes_addTracked [SetOrder] (edition : Edition) (sink : String) (sinkAt : Position) (kind : FlowKind)
    {e : Pattern × Label} (he : known e.1.name) (r : Report) :
    Changes known r (addTracked edition sink sinkAt kind e r).1 := by
  let Ready : Report → Prop := fun r => edition = .plain → e.1.name ∈ r.discovered
  have hready : ∀ r r', Changes known r r' → Ready r → Ready r' := fun r r' h hr hp => h.discovered (hr hp)
  rw [addTracked.eq_def]
  split
  · exact .refl
  · refine Relation.ReflTransGen.trans ?_ (changes_each hready (fun entry _ r hr =>
      changes_each hready (fun group _ r hr => ?_) hr) ?_)
    · cases edition
      · exact .single (.meet r e.1.name he)
      · exact .refl
    · dsimp only [attempt]
      cases hadd : addGroup edition kind e.1 _ group.2 r with
      | error f => exact .refl
      | ok r' => exact changes_addGroup he rfl hr hadd
    · rintro rfl
      exact mem_adjoin.2 (.inr rfl)

theorem changes_submit [SetOrder] (edition : Edition) {c : Submission}
    (hc : ∀ t ∈ c.flows.entries.values, known t.pattern.name) (r : Report) :
    Changes known r (submit edition c r).1 := by
  refine changes_each (P := fun _ => True) (fun _ _ _ h => h) (fun e he r _ => ?_) trivial
  obtain ⟨t, ht, rfl⟩ := List.mem_map.1 he
  exact changes_addTracked edition c.sink c.sinkAt c.kind (hc t ht) r

/-- The report after submissions one after the other, from an empty one. A submission that faults leaves what
it has added, and the next one goes on from there. -/
def gather [SetOrder] (edition : Edition) (calls : List Submission) : Report :=
  calls.foldl (fun r c => (submit edition c r).1) {}

theorem changes_gather [SetOrder] (edition : Edition) {calls : List Submission}
    (h : ∀ c ∈ calls, ∀ t ∈ c.flows.entries.values, known t.pattern.name) :
    Changes known {} (gather edition calls) := by
  have key : ∀ r, Changes known r (calls.foldl (fun r c => (submit edition c r).1) r) := by
    induction calls with
    | nil => exact fun r => .refl
    | cons c calls ih =>
      have hrest := ih fun d hd => h d (List.mem_cons_of_mem _ hd)
      exact fun r => (changes_submit edition (h c (List.mem_cons_self ..)) r).trans (hrest _)
  exact key {}

/-! ## Numbers -/

/-- The names of the findings of a pattern, in the order in which they were made. -/
def roll (r : Report) (pattern : String) : List String :=
  (r.findings.entries.filter fun e => e.1.pattern = pattern).map (·.2.1)

/-- The number of findings of a pattern, as the report counts them. -/
def tally (r : Report) (pattern : String) : Nat := (r.counters.get? pattern).getD 0

theorem mem_roll {r : Report} {s : Subject} {name : String} {sightings : List Sighting}
    (h : r.findings.get? s = some (name, sightings)) : name ∈ r.roll s.pattern :=
  List.mem_map.2 ⟨(s, name, sightings), List.mem_filter.2 ⟨Table.mem_entries.2 h, by simp⟩, rfl⟩

theorem roll_record_of_some {r : Report} {s : Subject} {finding : String × List Sighting}
    (h : r.findings.get? s = some finding) (new : List Sighting) (pattern : String) :
    (r.record s new).roll pattern = r.roll pattern := by
  obtain ⟨name, old⟩ := finding
  have hname : (name, union old new).1 = (name, old).1 := rfl
  unfold Report.record
  rw [h]
  exact Table.map_filter_put (fun s => decide (s.pattern = pattern)) Prod.fst h hname

/-- A new finding comes last among those of its pattern, with the next number. -/
theorem roll_record_of_none {r : Report} {s : Subject} (h : r.findings.get? s = none) (new : List Sighting)
    (pattern : String) : (r.record s new).roll pattern =
      r.roll pattern ++ if s.pattern = pattern then [numbered pattern (r.tally pattern + 1)] else [] := by
  unfold Report.record
  rw [h]
  show ((Table.put s _ r.findings.entries).filter _).map _ = _
  rw [Table.put_of_find_none h, List.filter_append, List.map_append]
  by_cases hp : s.pattern = pattern
  · subst hp
    simp [roll, numbered, tally]
  · simp [roll, hp]

theorem tally_record_of_some {r : Report} {s : Subject} {finding : String × List Sighting}
    (h : r.findings.get? s = some finding) (new : List Sighting) (pattern : String) :
    (r.record s new).tally pattern = r.tally pattern := by
  unfold Report.record
  rw [h]
  rfl

theorem tally_record_of_none {r : Report} {s : Subject} (h : r.findings.get? s = none) (new : List Sighting)
    (pattern : String) :
    (r.record s new).tally pattern = r.tally pattern + if s.pattern = pattern then 1 else 0 := by
  unfold Report.record
  rw [h]
  show (((r.counters.insert s.pattern _).get? pattern).getD 0) = _
  rw [Table.get?_insert]
  by_cases hp : s.pattern = pattern
  · subst hp
    simp [tally]
  · simp [tally, hp, Ne.symm hp]

/-- The findings of every pattern are numbered from one up to its counter, and a pattern that has findings was
met, like any, once. -/
structure Orderly (r : Report) : Prop where
  numbers : ∀ pattern, r.roll pattern = (List.range (r.tally pattern)).map fun i => numbered pattern (i + 1)
  met : ∀ pattern, 0 < r.tally pattern → pattern ∈ r.discovered
  once : r.discovered.Nodup

theorem orderly_empty : Orderly {} where
  numbers _ := rfl
  met _ h := absurd h (Nat.lt_irrefl 0)
  once := List.nodup_nil

theorem Orderly.record {r : Report} (h : r.Orderly) {s : Subject} (hs : s.pattern ∈ r.discovered)
    (new : List Sighting) : (r.record s new).Orderly := by
  refine ⟨fun pattern => ?_, fun pattern hp => ?_, by rw [discovered_record]; exact h.once⟩
  · cases hf : r.findings.get? s with
    | some finding => rw [roll_record_of_some hf, tally_record_of_some hf, h.numbers]
    | none =>
      rw [roll_record_of_none hf, tally_record_of_none hf, h.numbers]
      split
      · rw [List.range_succ, List.map_append, List.map_singleton]
      · rw [List.append_nil, Nat.add_zero]
  · rw [discovered_record]
    cases hf : r.findings.get? s with
    | some finding => exact h.met pattern (tally_record_of_some hf new pattern ▸ hp)
    | none =>
      rw [tally_record_of_none hf] at hp
      split at hp
      · rename_i heq
        exact heq ▸ hs
      · exact h.met pattern hp

theorem Orderly.change {r r' : Report} (h : r.Orderly) (hc : Change known r r') : r'.Orderly := by
  cases hc with
  | meet pattern hp => exact ⟨h.numbers, fun q hq => mem_adjoin.2 (.inl (h.met q hq)), nodup_adjoin h.once⟩
  | record s new met => exact h.record met new

theorem Changes.orderly {r : Report} (h : Changes known {} r) : r.Orderly := by
  induction h with
  | refl => exact orderly_empty
  | tail _ hstep ih => exact ih.change hstep

theorem orderly_gather [SetOrder] (edition : Edition) (calls : List Submission) : (gather edition calls).Orderly := by
  have h : Changes (fun _ => True) {} (gather edition calls) := changes_gather edition fun _ _ _ _ => trivial
  exact h.orderly

theorem Orderly.name {r : Report} (h : r.Orderly) {s : Subject} {name : String} {sightings : List Sighting}
    (hs : r.findings.get? s = some (name, sightings)) :
    ∃ n, name = numbered s.pattern (n + 1) ∧ n < r.tally s.pattern := by
  have hmem := mem_roll hs
  rw [h.numbers, List.mem_map] at hmem
  obtain ⟨n, hn, rfl⟩ := hmem
  exact ⟨n, rfl, List.mem_range.1 hn⟩

theorem Orderly.met_of_mem_keys {r : Report} (h : r.Orderly) {s : Subject} (hs : s ∈ r.findings.keys) :
    s.pattern ∈ r.discovered := by
  obtain ⟨⟨_, name, sightings⟩, hf, rfl⟩ := List.mem_map.1 hs
  obtain ⟨n, -, hn⟩ := h.name (Table.mem_entries.1 hf)
  exact h.met _ (Nat.zero_lt_of_lt hn)

theorem Orderly.nodup_roll {r : Report} (h : r.Orderly) (pattern : String) : (r.roll pattern).Nodup := by
  rw [h.numbers]
  exact List.nodup_range.map fun i j hij => Nat.succ.inj (numbered_inj.1 hij).2

/-- Findings have different names: within a pattern by their numbers, else by what stands before them. -/
theorem Orderly.nodup_names {r : Report} (h : r.Orderly) : (r.findings.values.map (·.1)).Nodup := by
  rw [Table.values, List.map_map]
  refine List.Nodup.map_on ?_ (List.Nodup.of_map _ r.findings.nodup)
  rintro ⟨s, name, sightings⟩ he ⟨s', name', sightings'⟩ he' (rfl : name = name')
  obtain ⟨m, hm, -⟩ := h.name (Table.mem_entries.1 he)
  obtain ⟨n, hn, -⟩ := h.name (Table.mem_entries.1 he')
  obtain ⟨hpattern, -⟩ := numbered_inj.1 (hm.symm.trans hn)
  exact List.inj_on_of_nodup_map (h.nodup_roll s.pattern) (List.mem_filter.2 ⟨he, by simp⟩)
    (List.mem_filter.2 ⟨he', by simp [hpattern]⟩) rfl

/-! ## Findings stay -/

/-- The findings of `r` are those of `r'` that were made first, with the same names, and what was seen of each
has been added to only. -/
structure Extends (r r' : Report) : Prop where
  order : r.findings.keys <+: r'.findings.keys
  finding : ∀ s name sightings, r.findings.get? s = some (name, sightings) →
    ∃ more, r'.findings.get? s = some (name, sightings ++ more)

theorem Extends.refl (r : Report) : Extends r r where
  order := List.prefix_refl _
  finding _ _ _ h := ⟨[], by rwa [List.append_nil]⟩

theorem Extends.trans {a b c : Report} (hab : Extends a b) (hbc : Extends b c) : Extends a c where
  order := hab.order.trans hbc.order
  finding s name sightings h := by
    obtain ⟨more, h⟩ := hab.finding s name sightings h
    obtain ⟨rest, h⟩ := hbc.finding s name _ h
    exact ⟨more ++ rest, by rwa [List.append_assoc] at h⟩

theorem extends_record (r : Report) (s : Subject) (new : List Sighting) : Extends r (r.record s new) := by
  unfold Report.record
  cases hf : r.findings.get? s with
  | some finding =>
    obtain ⟨name, old⟩ := finding
    refine ⟨by simpa [Table.keys, Table.insert, Table.keys_put] using prefix_adjoin _ s, ?_⟩
    intro s' name' sightings h
    dsimp only
    rw [Table.get?_insert]
    split
    · rename_i heq
      subst heq
      cases hf.symm.trans h
      obtain ⟨more, hmore⟩ := prefix_union old new
      exact ⟨more, by rw [hmore]⟩
    · exact ⟨[], by rwa [List.append_nil]⟩
  | none =>
    refine ⟨by simpa [Table.keys, Table.insert, Table.keys_put, number] using prefix_adjoin _ s, ?_⟩
    intro s' name' sightings h
    have hne : s' ≠ s := fun heq => by simp [heq, hf] at h
    exact ⟨[], by simpa [number, Table.get?_insert_of_ne _ hne] using h⟩

theorem Changes.extends {r r' : Report} (h : Changes known r r') : Extends r r' := by
  induction h with
  | refl => exact .refl r
  | tail _ hstep ih =>
    cases hstep with
    | meet pattern hp => exact ih.trans ⟨List.prefix_refl _, (Extends.refl _).finding⟩
    | record s new met => exact ih.trans (extends_record _ s new)

theorem extends_submit [SetOrder] (edition : Edition) (c : Submission) (r : Report) :
    Extends r (submit edition c r).1 := by
  have h : Changes (fun _ => True) r (submit edition c r).1 := changes_submit edition (fun _ _ => trivial) r
  exact h.extends

/-! ## Any submissions -/

/-- The numbering of a report, for patterns of any name. -/
structure Numbered (r : Report) : Prop where
  numbers : ∀ pattern, r.roll pattern = (List.range (r.tally pattern)).map fun i => numbered pattern (i + 1)
  once : ∀ pattern, 0 < r.tally pattern → r.discovered.count pattern = 1
  names : (r.findings.values.map (·.1)).Nodup
  base : ∀ s name sightings, r.findings.get? s = some (name, sightings) → Check.baseName name = s.pattern
  same : ∀ s name sightings s' name' sightings', r.findings.get? s = some (name, sightings) →
    r.findings.get? s' = some (name', sightings') →
      Check.sameName (.text name) (.text name') = .ok (decide (s.pattern = s'.pattern))

theorem Orderly.toNumbered {r : Report} (h : r.Orderly) : r.Numbered where
  numbers := h.numbers
  once pattern hp := List.count_eq_one_of_mem h.once (h.met pattern hp)
  names := h.nodup_names
  base s name sightings hs := by
    obtain ⟨n, rfl, -⟩ := h.name hs
    exact baseName_numbered s.pattern (n + 1)
  same s name sightings s' name' sightings' hs hs' := by
    obtain ⟨m, rfl, -⟩ := h.name hs
    obtain ⟨n, rfl, -⟩ := h.name hs'
    exact sameName_numbered s.pattern s'.pattern (m + 1) (n + 1)

end

end Report

/-- After any submissions the findings are numbered within their patterns, and a further submission leaves every
finding in its place, with its name and with what was seen of it. -/
theorem findings_stay_numbered [SetOrder] (edition : Edition) (calls : List Submission) :
    (Report.gather edition calls).Numbered ∧
      ∀ c, Report.Extends (Report.gather edition calls) (Report.submit edition c (Report.gather edition calls)).1 :=
  ⟨(Report.orderly_gather edition calls).toNumbered, fun c => Report.extends_submit edition c _⟩

end TaintFlow
