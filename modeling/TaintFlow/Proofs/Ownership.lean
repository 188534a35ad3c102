import TaintFlow.Proofs.Bench

/-
Labels that belong to one multilabel. A label on a bench is changed in place, and the change shows wherever the label is
used. New multilabels get labels of their own, so every label is in one place of one multilabel (`Workbench.Owned`) as
long as no label is put into another place. Then sources and sanitizers that are put on a multilabel show there and
nowhere else.
-/
namespace TaintFlow

/-- Changes the labels of the patterns that are asked for. -/
def MultiLabel.mapLabels {π : Type} (q : π → Bool) (f : Label → Label) (m : MultiLabel π) : MultiLabel π :=
  ⟨m.entries.map fun t => if q t.pattern then { t with label := f t.label } else t⟩

/-! ## Changes one after the other -/

section Each

variable {α σ : Type} [Inhabited α] {key : σ → Nat}

/-- The list after changes at the places of some keys. -/
def setEach (key : σ → Nat) (f : σ → α → α) (l : List α) (keys : List σ) : List α :=
  keys.foldl (fun l s => l.set (key s) (f s (l.getD (key s) default))) l

theorem set_getD_self (l : List α) (n : Nat) : l.set n (l.getD n default) = l := by
  by_cases hn : n < l.length
  · rw [List.getD_eq_getElem _ _ hn, List.set_getElem_self]
  · exact List.set_eq_of_length_le (Nat.le_of_not_lt hn)

theorem getD_set_ne (l : List α) {n k : Nat} (h : n ≠ k) (a : α) : (l.set k a).getD n default = l.getD n default := by
  rw [List.getD_eq_getElem?_getD, List.getElem?_set_ne (Ne.symm h), ← List.getD_eq_getElem?_getD]

theorem getD_set_self {l : List α} {n : Nat} (h : n < l.length) (a : α) : (l.set n a).getD n default = a := by
  rw [List.getD_eq_getElem?_getD, List.getElem?_set_self h]
  rfl

variable (f : σ → α → α)

theorem length_setEach (l : List α) (keys : List σ) : (setEach key f l keys).length = l.length := by
  induction keys generalizing l with
  | nil => rfl
  | cons s keys ih => exact (ih _).trans List.length_set

theorem getD_setEach_of_notMem {l : List α} {keys : List σ} {n : Nat} (h : n ∉ keys.map key) :
    (setEach key f l keys).getD n default = l.getD n default := by
  induction keys generalizing l with
  | nil => rfl
  | cons s keys ih =>
    rw [List.map_cons, List.mem_cons, not_or] at h
    exact (ih h.2).trans (getD_set_ne l h.1 _)

/-- An element is changed once, if no two keys have one place. -/
theorem getD_setEach {l : List α} {keys : List σ} (hnodup : (keys.map key).Nodup) {s : σ} (hs : s ∈ keys)
    (hlt : key s < l.length) : (setEach key f l keys).getD (key s) default = f s (l.getD (key s) default) := by
  induction keys generalizing l with
  | nil => cases hs
  | cons s' keys ih =>
    rw [List.map_cons, List.nodup_cons] at hnodup
    rcases List.mem_cons.1 hs with rfl | hs
    · exact (getD_setEach_of_notMem f hnodup.1).trans (getD_set_self hlt _)
    · -- the first change was at another place
      have hne : key s ≠ key s' := fun heq => hnodup.1 (heq ▸ List.mem_map_of_mem hs)
      refine (ih hnodup.2 hs (hlt.trans_eq List.length_set.symm)).trans ?_
      rw [getD_set_ne l hne]

end Each

/-! ## Labels that are not shared -/

namespace Workbench

variable {b : Workbench}

/-- Other labels in the same places leave no loose reference. -/
theorem Closed.relabelled (hb : b.Closed) {labels : List Label} (hlength : labels.length = b.labels.length) :
    ({ b with labels } : Workbench).Closed :=
  hb.of_le (Nat.le_refl _) hlength.ge (Nat.le_refl _) (fun _ ht => .inl ht) fun _ ht => .inl ht

/-- Each label is in one place of one multilabel. -/
def Owned (b : Workbench) : Prop :=
  ∀ k k' name name' s s', (b.slots k).get? name = some s → (b.slots k').get? name' = some s' → s.label = s'.label →
    k = k' ∧ name = name'

theorem Owned.nodup (h : b.Owned) (k : Nat) : ((b.slots k).values.map (·.label)).Nodup := by
  show (((b.slots k).entries.map (·.2)).map (·.label)).Nodup
  rw [List.map_map]
  refine List.Nodup.map_on (fun e he e' he' heq => ?_) (List.Nodup.of_map _ (b.slots k).nodup)
  obtain ⟨name, s⟩ := e
  obtain ⟨name', s'⟩ := e'
  rw [Table.mem_entries] at he he'
  obtain ⟨-, rfl⟩ := h k k name name' s s' he he' heq
  rw [Option.some.inj (he.symm.trans he')]

/-- New labels belong to the new multilabel alone. -/
theorem Owned.adding (h : b.Owned) (hb : b.Closed) (m : MultiLabel Nat) : (b.adding m).Owned := by
  -- a place is one of before, with a label of before, or one of the new multilabel, with a new label
  have hplace : ∀ k name s, ((b.adding m).slots k).get? name = some s →
      (s.label < b.labels.length ∧ (b.slots k).get? name = some s) ∨
        (k = b.multiLabels.length ∧ (name, s) ∈ numbered b.labels.length m.entries.entries) := by
    intro k name s hs
    rcases Nat.lt_trichotomy k b.multiLabels.length with hk | rfl | hk
    · have hold : (b.adding m).slots k = b.slots k := getD_extended (List.prefix_append ..) hk _
      rw [hold] at hs
      exact .inl ⟨(hb.fits_slots k name s hs).2, hs⟩
    · rw [slots_adding] at hs
      exact .inr ⟨rfl, Table.mem_of_get?_ofList hs⟩
    · have hnone : (b.adding m).slots k = default := List.getD_eq_default _ _ (by simp [Workbench.adding]; omega)
      rw [hnone] at hs
      cases hs
  intro k k' name name' s s' hs hs' heq
  rcases hplace k name s hs with ⟨hlt, hold⟩ | ⟨rfl, hnew⟩ <;>
    rcases hplace k' name' s' hs' with ⟨hlt', hold'⟩ | ⟨rfl, hnew'⟩
  · exact h k k' name name' s s' hold hold' heq
  · have hle := (of_mem_numbered hnew').1
    omega
  · have hle := (of_mem_numbered hnew).1
    omega
  · obtain ⟨-, t, ht, -⟩ := of_mem_numbered hnew
    obtain ⟨-, t', ht', -⟩ := of_mem_numbered hnew'
    rw [← heq, ht] at ht'
    cases ht'
    exact ⟨rfl, rfl⟩

end Workbench

namespace Work

open Workbench

variable {b : Workbench}

/-- Labels are changed one after the other. -/
theorem forM_changeLabel (p : Slot → Bool) (f : Label → Label) (l : List Slot) (b : Workbench) :
    Yields (l.forM fun s => if p s then changeLabel s.label f else pure ()) b ()
      { b with labels := setEach (·.label) (fun s a => if p s then f a else a) b.labels l } := by
  induction l generalizing b with
  | nil => exact .pure _ _
  | cons s l ih =>
    have hfirst : Yields (if p s then changeLabel s.label f else pure ()) b ()
        { b with labels := b.labels.set s.label (if p s then f (b.label s.label) else b.label s.label) } := by
      cases p s with
      | true => rfl
      | false =>
        -- a label that is set to itself
        have hsame : b.labels.set s.label (b.label s.label) = b.labels := set_getD_self ..
        rw [if_neg (by simp), if_neg (by simp), hsame]
        exact .pure _ _
    exact hfirst.bind (ih _)

/-- Patterns are changed one after the other. -/
theorem forM_changePattern (f : Pattern → Pattern) (l : List Nat) (b : Workbench) :
    Yields (l.forM fun n => changePattern n f) b () { b with patterns := setEach id (fun _ => f) b.patterns l } := by
  induction l generalizing b with
  | nil => exact .pure _ _
  | cons n l ih =>
    have hfirst : (changePattern n f).Yields b () { b with patterns := b.patterns.set n (f (b.pattern n)) } := rfl
    exact hfirst.bind (ih _)

/-- On a bench where labels belong to one multilabel, a change of the labels of one shows in no other. -/
theorem relabel_yields (hb : b.Closed) (ho : b.Owned) (k : Nat) (q : Nat → Bool) (f : Label → Label) :
    ∃ labels, Yields ((b.slots k).values.forM fun s => if q s.pattern then changeLabel s.label f else pure ()) b ()
        { b with labels } ∧ labels.length = b.labels.length ∧
      ({ b with labels } : Workbench).multiLabel k = (b.multiLabel k).mapLabels q f ∧
      ∀ j, j ≠ k → ({ b with labels } : Workbench).multiLabel j = b.multiLabel j := by
  have hyield := forM_changeLabel (fun s => q s.pattern) f (b.slots k).values b
  refine ⟨_, hyield, length_setEach .., ?_, fun j hj => ?_⟩
  · unfold MultiLabel.mapLabels Workbench.multiLabel
    rw [Table.map_map]
    refine congrArg MultiLabel.mk (Table.map_congr fun name s hs => ?_)
    have hmem : s ∈ (b.slots k).values := List.mem_map.2 ⟨(name, s), Table.mem_entries.2 hs, rfl⟩
    have hlabel := getD_setEach (fun s a => if q s.pattern then f a else a) (ho.nodup k) hmem
      (hb.fits_slots k name s hs).2
    unfold Workbench.label
    rw [hlabel]
    cases q s.pattern <;> rfl
  · refine congrArg MultiLabel.mk (Table.map_congr fun name s hs => ?_)
    -- a label of another multilabel is not among those that are changed
    have hother : s.label ∉ (b.slots k).values.map (·.label) := by
      intro hmem
      obtain ⟨s', hs', heq⟩ := List.mem_map.1 hmem
      obtain ⟨⟨name', _⟩, he, rfl⟩ := List.mem_map.1 hs'
      exact hj (ho j k name name' s _ hs (Table.mem_entries.1 he) heq.symm).1
    unfold Workbench.label
    rw [getD_setEach_of_notMem _ hother]

end Work

end TaintFlow
