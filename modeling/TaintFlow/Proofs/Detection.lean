import TaintFlow.Proofs.Evaluation

/-
What a path tracks and detects, by the name of a pattern. Labels have one entry for each name, and where
patterns share a name the last one has its way: the label without flows is for the last pattern of the
name, and what is detected at a sink is for the last pattern of the name that the flows violate. So both
depend only on the list of the patterns of that name, and not on where they stand in the policy.
-/
namespace TaintFlow

namespace Table

variable {κ α : Type} [DecidableEq κ]

theorem get?_foldl_insert (k : κ) : ∀ (l : List (κ × α)) (t : Table κ α),
    (l.foldl (fun t e => t.insert e.1 e.2) t).get? k =
      ((l.filter (·.1 = k)).getLast?.map (·.2)).or (t.get? k)
  | [], t => by simp
  | e :: l, t => by
    rw [List.foldl_cons, get?_foldl_insert k l, get?_insert]
    by_cases h : k = e.1
    · subst h
      rw [if_pos rfl, List.filter_cons_of_pos (by simp), List.getLast?_cons]
      cases (l.filter (·.1 = e.1)).getLast? <;> simp
    · rw [if_neg h, List.filter_cons_of_neg (by simp [Ne.symm h])]

/-- The last entry of a key gives its value. -/
theorem get?_ofList (l : List (κ × α)) (k : κ) :
    (ofList l).get? k = (l.filter (·.1 = k)).getLast?.map (·.2) := by
  unfold ofList
  rw [get?_foldl_insert, get?_empty, Option.or_none]

end Table

namespace Policy

/-- The flows of a multilabel that reach a sink against a pattern. -/
def offence (m : Taint) (sink : String) (p : Pattern) : Option Label :=
  if p.isSink sink then ((m.label? p.name).map (illegal p)).filter (!·.flows.isEmpty) else none

theorem violation?_eq (view : PatternRef → Pattern) (m : Taint) (sink : String) (r : PatternRef) :
    violation? view m sink r = offence m sink (view r) := by
  unfold violation? offence
  cases m.label? (view r).name with
  | none => rfl
  | some l =>
    split
    · rw [Option.map_some, Option.filter_some]
      dsimp only
      cases (illegal (view r) l).flows.isEmpty <;> rfl
    · rfl

/-- No source is listed without flows, so what is not empty holds a flow. -/
theorem isEmpty_illegal {p : Pattern} {l : Label} :
    (illegal p l).flows.isEmpty = true ↔ ∀ s f, ¬ (illegal p l).Holds s f := by
  rw [Table.isEmpty_iff]
  constructor
  · rintro h s f ⟨flows, hf, -⟩
    rw [h s] at hf
    cases hf
  · intro h s
    cases hs : (illegal p l).flows.get? s with
    | none => rfl
    | some flows =>
      have hf : (l.flows.filter _).get? s = some flows := hs
      rw [Table.get?_filter] at hf
      obtain ⟨-, hb⟩ := Option.filter_eq_some_iff.1 hf
      have hne : flows ≠ [] := by
        rw [Bool.and_eq_true, Bool.not_eq_true', List.isEmpty_eq_false_iff] at hb
        exact hb.2
      obtain ⟨f, hf⟩ := List.exists_mem_of_ne_nil flows hne
      exact absurd ⟨flows, hs, hf⟩ (h s f)

/-- The flows that reach a sink against a pattern are those from its sources. -/
theorem holds_offence {m : Taint} {sink : String} {p : Pattern} {l : Label} (h : offence m sink p = some l)
    {s : String} {f : Flow} : l.Holds s f ↔ p.isSource s = true ∧ m.Has p.name s f := by
  unfold offence MultiLabel.label? at h
  split at h
  · unfold MultiLabel.Has
    cases hm : m.entries.get? p.name with
    | none => rw [hm] at h; cases h
    | some t =>
      rw [hm] at h
      obtain ⟨hl, -⟩ := Option.filter_eq_some_iff.1 h
      rw [← Option.some.inj hl, holds_illegal]
      simp
  · cases h

theorem offence_isSome {m : Taint} {sink : String} {p : Pattern} :
    (offence m sink p).isSome = true ↔
      p.isSink sink = true ∧ ∃ s f, p.isSource s = true ∧ m.Has p.name s f := by
  constructor
  · intro h
    obtain ⟨l, hl⟩ := Option.isSome_iff_exists.1 h
    have hholds : ∀ {s f}, l.Holds s f → p.isSource s = true ∧ m.Has p.name s f := (holds_offence hl).1
    unfold offence at hl
    split at hl
    · rename_i hs
      obtain ⟨hl, hne⟩ := Option.filter_eq_some_iff.1 hl
      obtain ⟨l', -, rfl⟩ := Option.map_eq_some_iff.1 hl
      have hex : ¬ ∀ s f, ¬ (illegal p l').Holds s f := fun h => by
        rw [isEmpty_illegal.2 h] at hne
        cases hne
      push Not at hex
      obtain ⟨s, f, hf⟩ := hex
      exact ⟨hs, s, f, hholds hf⟩
    · cases hl
  · rintro ⟨hs, s, f, hsrc, t, ht, hf⟩
    have hne : (illegal p t.label).flows.isEmpty = false := by
      rw [← Bool.not_eq_true, isEmpty_illegal]
      exact fun h => h s f (holds_illegal.2 ⟨hsrc, hf⟩)
    unfold offence MultiLabel.label?
    rw [if_pos hs, ht, Option.map_some, Option.map_some, Option.filter_some, hne]
    rfl

end Policy

namespace Path

/-- The patterns of a name. -/
def named (p : Path) (name : String) : List Pattern := p.patterns.filter (·.name = name)

theorem mem_named {p : Path} {name : String} {a : Pattern} : a ∈ p.named name ↔ a ∈ p.patterns ∧ a.name = name := by
  simp [named]

/-- With distinct names, a pattern is the only one of its name. -/
theorem named_of_nodup {p : Path} (hn : (p.patterns.map (·.name)).Nodup) {a : Pattern} (ha : a ∈ p.patterns) :
    p.named a.name = [a] := by
  unfold named
  generalize p.patterns = l at hn ha
  induction l with
  | nil => cases ha
  | cons b l ih =>
    obtain ⟨hb, hl⟩ := List.nodup_cons.1 hn
    rcases List.mem_cons.1 ha with rfl | ha
    · rw [List.filter_cons_of_pos (by simp), List.filter_eq_nil_iff.2]
      intro c hc hname
      exact hb (List.mem_map.2 ⟨c, hc, of_decide_eq_true hname⟩)
    · have hne : b.name ≠ a.name := fun h => hb (List.mem_map.2 ⟨a, ha, h.symm⟩)
      rw [List.filter_cons_of_neg (by simpa using hne), ih hl ha]

theorem map_view_refs (p : Path) : p.refs.map p.view = p.patterns := by
  unfold refs
  rw [List.map_map]
  refine List.ext_getElem (by simp) fun i h _ => ?_
  have hi : i < p.patterns.length := by simpa using h
  rw [List.getElem_map, List.getElem_range]
  exact view_own hi

/-- The label without flows is for the last pattern of each name. -/
theorem view_get?_clean (p : Path) (name : String) :
    (p.clean.entries.get? name).map (fun t => p.view t.pattern) = (p.named name).getLast? := by
  unfold clean MultiLabel.ofPatterns named
  rw [Table.get?_ofList, List.filter_map, List.getLast?_map, Option.map_map, Option.map_map]
  conv_rhs => rw [← p.map_view_refs, List.filter_map, List.getLast?_map]
  rfl

/-- What is detected is for the last pattern of each name that the flows violate. -/
theorem view_get?_detect (p : Path) (sink : String) (m : Taint) (name : String) :
    ((p.detect sink m).entries.get? name).map (fun t => (p.view t.pattern, t.label)) =
      ((p.named name).filterMap fun a => (Policy.offence m sink a).map (a, ·)).getLast? := by
  unfold detect Policy.detect named
  rw [Table.get?_ofList, Option.map_map, ← List.getLast?_map]
  conv_rhs => rw [← p.map_view_refs]
  congr 1
  generalize p.refs = refs
  induction refs with
  | nil => rfl
  | cons r refs ih =>
    rw [List.filterMap_cons, Policy.violation?_eq, List.map_cons]
    by_cases hn : (p.view r).name = name
    · rw [List.filter_cons_of_pos (by simpa using hn), List.filterMap_cons]
      cases Policy.offence m sink (p.view r) with
      | none => exact ih
      | some l =>
        rw [Option.map_some, Option.map_some, List.filter_cons_of_pos (by simpa using hn), List.map_cons, ih]
        rfl
    · rw [List.filter_cons_of_neg (by simpa using hn)]
      cases Policy.offence m sink (p.view r) with
      | none => exact ih
      | some l =>
        rw [Option.map_some, List.filter_cons_of_neg (by simpa using hn)]
        exact ih

end Path

namespace Accord

variable {c : Accord} {m : Taint} {p : Path} {name : String}

/-- Labels that are computed track the last pattern of each name. -/
theorem Fresh.tracks (hm : c.Fresh m) (hp : p.patterns.map Pattern.bare = c.policy.map Pattern.bare) {a : Pattern}
    (ha : (p.named name).getLast? = some a) : ∃ t, m.entries.get? name = some t ∧ p.view t.pattern = a := by
  rw [← p.view_get?_clean name, Path.clean_eq (q := Path.start c.policy) hp] at ha
  obtain ⟨t, ht, hview⟩ := Option.map_eq_some_iff.1 ha
  obtain ⟨u, hu, hpattern⟩ := hm name t ht
  exact ⟨u, hu, by rw [hpattern, hview]⟩

/-- Unless references are compared, only names of patterns are tracked. -/
theorem Tame.tracks (hloose : ¬ c.strict) (hm : c.Tame m)
    (hp : p.patterns.map Pattern.bare = c.policy.map Pattern.bare) {t : Tracked PatternRef}
    (ht : m.entries.get? name = some t) : ∃ a, (p.named name).getLast? = some a := by
  have hmem := (hm.tracked name t ht).resolve_left hloose
  obtain ⟨u, hu⟩ := Option.isSome_iff_exists.1 hmem
  have hclean : p.clean.entries.get? name = some u := Path.clean_eq (q := Path.start c.policy) hp ▸ hu
  exact ⟨_, by rw [← p.view_get?_clean name, hclean]; rfl⟩

end Accord

end TaintFlow
