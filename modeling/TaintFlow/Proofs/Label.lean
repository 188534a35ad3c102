import TaintFlow.Path

/-
Labels by lookup. A label is a table of lists of flows, so two labels may hold the same flows with
their sources in another order. The laws here say what each operation does to the list of one source,
and `Label.Alike` is the equality that is left: the same list for every source. The same is done for
multilabels, entry by entry, and for the flows of a multilabel read as a set (`MultiLabel.Has`).
-/
namespace TaintFlow

open Listing

namespace Label

/-! ## Lookup after each operation -/

/-- The flows of a source in two labels together. -/
def pool [SetOrder] (own more : List Flow) : List Flow := more.foldl merge own

theorem get?_absorb [SetOrder] (l : Label) (source s : String) (flows : List Flow) :
    (l.absorb source flows).flows.get? s =
      if s = source then Option.merge pool (l.flows.get? s) (some flows) else l.flows.get? s := by
  unfold absorb
  by_cases h : s = source
  · subst h
    rw [if_pos rfl, Table.get?_insert_self]
    cases l.flows.get? s <;> rfl
  · rw [if_neg h, Table.get?_insert_of_ne _ h]

theorem get?_foldl_absorb [SetOrder] (s : String) :
    ∀ (more : List (String × List Flow)) (l : Label), (more.map (·.1)).Nodup →
      (more.foldl (fun l e => l.absorb e.1 e.2) l).flows.get? s =
        Option.merge pool (l.flows.get? s) (Table.find s more)
  | [], l, _ => by
    cases h : l.flows.get? s <;> simp [Table.find, h]
  | (k, flows) :: more, l, hn => by
    obtain ⟨hk, hn⟩ := List.nodup_cons.1 hn
    rw [List.foldl_cons, get?_foldl_absorb s more _ hn, get?_absorb]
    by_cases h : s = k
    · subst h
      have hnone : Table.find s more = none := Table.find_eq_none.2 hk
      rw [if_pos rfl, hnone, Table.find, if_pos rfl]
      cases l.flows.get? s <;> rfl
    · rw [if_neg h, Table.find, if_neg (Ne.symm h)]

theorem get?_combine [SetOrder] (a b : Label) (s : String) :
    (a.combine b).flows.get? s = Option.merge pool (a.flows.get? s) (b.flows.get? s) :=
  get?_foldl_absorb s b.flows.entries a b.flows.nodup

theorem get?_addSource (l : Label) (source s : String) (position : Position) :
    (l.addSource source position).flows.get? s =
      if s = source then some (adjoin ((l.flows.get? s).getD []) { position }) else l.flows.get? s := by
  unfold addSource
  by_cases h : s = source
  · subst h; rw [if_pos rfl, Table.get?_insert_self]
  · rw [if_neg h, Table.get?_insert_of_ne _ h]

theorem get?_addSanitizer [SetOrder] (l : Label) (name s : String) (line : Int) :
    (l.addSanitizer name line).flows.get? s =
      (l.flows.get? s).map (·.map (·.sanitize (.sanitizer name line))) :=
  Table.get?_map _ _ _

/-! ## The flows of a label as a set -/

theorem holds_iff {l : Label} {s : String} {f : Flow} : l.Holds s f ↔ f ∈ (l.flows.get? s).getD [] := by
  unfold Holds
  cases l.flows.get? s <;> simp

theorem holds_combine [SetOrder] {a b : Label} {s : String} {f : Flow} :
    (a.combine b).Holds s f ↔ a.Holds s f ∨ b.Holds s f := by
  simp only [holds_iff, get?_combine]
  cases a.flows.get? s <;> cases b.flows.get? s <;> simp [pool, mem_foldl_merge]

theorem holds_addSanitizer [SetOrder] {l : Label} {name s : String} {line : Int} {f : Flow} :
    (l.addSanitizer name line).Holds s f ↔
      ∃ g, l.Holds s g ∧ f = g.sanitize (.sanitizer name line) := by
  simp only [holds_iff, get?_addSanitizer]
  cases l.flows.get? s <;> simp [eq_comm]

/-! ## Labels with the same lists -/

/-- The labels have the same list of flows for every source. -/
def Alike (a b : Label) : Prop := ∀ s, a.flows.get? s = b.flows.get? s

theorem Alike.refl (a : Label) : a.Alike a := fun _ => rfl

theorem Alike.symm {a b : Label} (h : a.Alike b) : b.Alike a := fun s => (h s).symm

theorem Alike.trans {a b c : Label} (h : a.Alike b) (h' : b.Alike c) : a.Alike c :=
  fun s => (h s).trans (h' s)

theorem Alike.holds {a b : Label} (h : a.Alike b) (s : String) (f : Flow) : a.Holds s f ↔ b.Holds s f := by
  rw [holds_iff, holds_iff, h s]

theorem Alike.combine [SetOrder] {a a' b b' : Label} (ha : a.Alike a') (hb : b.Alike b') :
    (a.combine b).Alike (a'.combine b') := by
  intro s
  rw [get?_combine, get?_combine, ha s, hb s]

theorem Alike.addSource {a b : Label} (h : a.Alike b) (source : String) (position : Position) :
    (a.addSource source position).Alike (b.addSource source position) := by
  intro s
  rw [get?_addSource, get?_addSource, h s]

theorem Alike.addSanitizer [SetOrder] {a b : Label} (h : a.Alike b) (name : String) (line : Int) :
    (a.addSanitizer name line).Alike (b.addSanitizer name line) := by
  intro s
  rw [get?_addSanitizer, get?_addSanitizer, h s]

theorem same_iff {a b : Label} : a.same b = true ↔ a.Alike b := by
  unfold same
  rw [Table.agree_iff]
  refine forall_congr' fun s => ?_
  cases a.flows.get? s <;> cases b.flows.get? s
  · exact ⟨fun _ => rfl, fun _ => .none⟩
  · exact ⟨(nomatch ·), (nomatch ·)⟩
  · exact ⟨(nomatch ·), (nomatch ·)⟩
  · constructor
    · rintro ⟨h⟩; rw [of_decide_eq_true h]
    · intro h; cases h; exact .some (decide_eq_true rfl)

end Label

namespace MultiLabel

variable {π ρ : Type}

/-! ## Entries after each operation -/

theorem get?_combine [SetOrder] (a b : MultiLabel π) (name : String) :
    (a.combine b).entries.get? name = Option.merge join (a.entries.get? name) (b.entries.get? name) :=
  Table.get?_combine join a.entries b.entries name

theorem get?_addSource (view : π → Pattern) (m : MultiLabel π) (source name : String)
    (position : Position) :
    (m.addSource view source position).entries.get? name = (m.entries.get? name).map fun t =>
      if (view t.pattern).isSource source then { t with label := t.label.addSource source position }
      else t :=
  Table.get?_map _ _ _

theorem get?_addSanitizer [SetOrder] (view : π → Pattern) (m : MultiLabel π) (sanitizer name : String)
    (line : Int) :
    (m.addSanitizer view sanitizer line).entries.get? name = (m.entries.get? name).map fun t =>
      if (view t.pattern).isSanitizer sanitizer then
        { t with label := t.label.addSanitizer sanitizer line }
      else t :=
  Table.get?_map _ _ _

theorem get?_mapPatterns (f : π → ρ) (m : MultiLabel π) (name : String) :
    (m.mapPatterns f).entries.get? name =
      (m.entries.get? name).map fun t => { pattern := f t.pattern, label := t.label } :=
  Table.get?_map _ _ _

/-- An entry of a combination has the pattern of the left side, or stands on the right side alone. -/
theorem get?_combine_some [SetOrder] {a b : MultiLabel π} {name : String} {t : Tracked π}
    (h : (a.combine b).entries.get? name = some t) :
    (∃ u, a.entries.get? name = some u ∧ t.pattern = u.pattern) ∨
      (a.entries.get? name = none ∧ b.entries.get? name = some t) := by
  rw [get?_combine] at h
  cases ha : a.entries.get? name with
  | none => rw [ha, Option.merge_none_left] at h; exact .inr ⟨rfl, h⟩
  | some u =>
    left
    refine ⟨u, rfl, ?_⟩
    rw [ha] at h
    cases hb : b.entries.get? name <;> rw [hb] at h <;> cases h <;> rfl

theorem get?_addSource_some {view : π → Pattern} {m : MultiLabel π} {source name : String}
    {position : Position} {t : Tracked π} (h : (m.addSource view source position).entries.get? name = some t) :
    ∃ u, m.entries.get? name = some u ∧ t.pattern = u.pattern := by
  rw [get?_addSource] at h
  obtain ⟨u, hu, rfl⟩ := Option.map_eq_some_iff.1 h
  exact ⟨u, hu, by split <;> rfl⟩

theorem get?_addSanitizer_some [SetOrder] {view : π → Pattern} {m : MultiLabel π} {sanitizer name : String} {line : Int}
    {t : Tracked π} (h : (m.addSanitizer view sanitizer line).entries.get? name = some t) :
    ∃ u, m.entries.get? name = some u ∧ t.pattern = u.pattern := by
  rw [get?_addSanitizer] at h
  obtain ⟨u, hu, rfl⟩ := Option.map_eq_some_iff.1 h
  exact ⟨u, hu, by split <;> rfl⟩

/-! ## The flows of a multilabel as a set -/

/-- The multilabel has this flow from this source for this pattern name. -/
def Has (m : MultiLabel π) (name source : String) (f : Flow) : Prop :=
  ∃ t, m.entries.get? name = some t ∧ t.label.Holds source f

theorem has_combine [SetOrder] {a b : MultiLabel π} {name s : String} {f : Flow} :
    (a.combine b).Has name s f ↔ a.Has name s f ∨ b.Has name s f := by
  unfold Has
  rw [get?_combine]
  cases a.entries.get? name <;> cases b.entries.get? name <;> simp [join, Label.holds_combine]

theorem has_addSource {view : π → Pattern} {m : MultiLabel π} {source name s : String} {position : Position}
    {f : Flow} : (m.addSource view source position).Has name s f ↔
      m.Has name s f ∨ (s = source ∧ f = { position } ∧
        ∃ t, m.entries.get? name = some t ∧ (view t.pattern).isSource source = true) := by
  unfold Has
  rw [get?_addSource]
  cases m.entries.get? name with
  | none => simp
  | some t =>
    by_cases h : (view t.pattern).isSource source = true
    · simp [h, Label.holds_addSource]
    · simp [h]

theorem has_addSanitizer [SetOrder] {view : π → Pattern} {m : MultiLabel π} {sanitizer name s : String} {line : Int}
    {f : Flow} : (m.addSanitizer view sanitizer line).Has name s f ↔
      ∃ t, m.entries.get? name = some t ∧ ∃ g, t.label.Holds s g ∧
        f = if (view t.pattern).isSanitizer sanitizer then g.sanitize (.sanitizer sanitizer line) else g := by
  unfold Has
  rw [get?_addSanitizer]
  cases m.entries.get? name with
  | none => simp
  | some t =>
    by_cases h : (view t.pattern).isSanitizer sanitizer = true
    · simp [h, Label.holds_addSanitizer]
    · simp [h]

theorem has_mapPatterns {g : π → ρ} {m : MultiLabel π} {name s : String} {f : Flow} :
    (m.mapPatterns g).Has name s f ↔ m.Has name s f := by
  unfold Has
  rw [get?_mapPatterns]
  cases m.entries.get? name <;> simp

/-! ## The sources of a multilabel -/

/-- The multilabel has a list of flows from this source for this pattern name. -/
def Lists (m : MultiLabel π) (name source : String) : Prop :=
  ∃ t, m.entries.get? name = some t ∧ (t.label.flows.get? source).isSome = true

theorem lists_combine [SetOrder] {a b : MultiLabel π} {name s : String} :
    (a.combine b).Lists name s ↔ a.Lists name s ∨ b.Lists name s := by
  unfold Lists
  rw [get?_combine]
  cases a.entries.get? name with
  | none => simp
  | some t => cases b.entries.get? name with
    | none => simp
    | some u =>
      simp only [Option.merge_some_some, join, Option.some.injEq, exists_eq_left', Label.get?_combine]
      cases t.label.flows.get? s <;> cases u.label.flows.get? s <;> simp

theorem lists_addSource {view : π → Pattern} {m : MultiLabel π} {source name s : String} {position : Position}
    (h : (m.addSource view source position).Lists name s) : m.Lists name s ∨ s = source := by
  obtain ⟨t, ht, hs⟩ := h
  rw [get?_addSource] at ht
  obtain ⟨u, hu, rfl⟩ := Option.map_eq_some_iff.1 ht
  split at hs
  · rw [Label.get?_addSource] at hs
    split at hs
    · rename_i he
      exact .inr he
    · exact .inl ⟨u, hu, hs⟩
  · exact .inl ⟨u, hu, hs⟩

theorem lists_addSanitizer [SetOrder] {view : π → Pattern} {m : MultiLabel π} {sanitizer name s : String} {line : Int}
    (h : (m.addSanitizer view sanitizer line).Lists name s) : m.Lists name s := by
  obtain ⟨t, ht, hs⟩ := h
  rw [get?_addSanitizer] at ht
  obtain ⟨u, hu, rfl⟩ := Option.map_eq_some_iff.1 ht
  split at hs
  · rw [Label.get?_addSanitizer, Option.isSome_map] at hs
    exact ⟨u, hu, hs⟩
  · exact ⟨u, hu, hs⟩

theorem lists_mapPatterns {g : π → ρ} {m : MultiLabel π} {name s : String} :
    (m.mapPatterns g).Lists name s ↔ m.Lists name s := by
  unfold Lists
  rw [get?_mapPatterns]
  cases m.entries.get? name <;> simp

end MultiLabel

namespace Labelling

variable {π ρ : Type}

theorem get?_update_self (g : Labelling π) (name : String) (m : MultiLabel π) :
    (g.update name m).get? name = some m :=
  Table.get?_insert_self _ _ _

theorem get?_update_of_ne (g : Labelling π) {name name' : String} (h : name' ≠ name)
    (m : MultiLabel π) : (g.update name m).get? name' = g.get? name' :=
  Table.get?_insert_of_ne _ h _

theorem get?_mapPatterns (f : π → ρ) (g : Labelling π) (name : String) :
    (g.mapPatterns f).get? name = (g.get? name).map (·.mapPatterns f) :=
  Table.get?_map _ _ _

end Labelling

end TaintFlow
