/-
Lists read as sets: an element is adjoined at the end unless it is there, and a list is thinned to
the first occurrence of each element. Membership is that of the set; the order is the order of
first arrival.

Where a set is listed, its members may come in any order. `SetOrder` is that order, as a parameter: what
is defined with it is defined for every order, and what is proved of it holds for every order.
-/
namespace TaintFlow

namespace Listing

variable {α : Type} [DecidableEq α]

/-- Puts `a` at the end of the list unless it is in it. -/
def adjoin (l : List α) (a : α) : List α := if a ∈ l then l else l ++ [a]

/-- Adjoins the elements of `m` one after the other. -/
def union (l m : List α) : List α := m.foldl adjoin l

/-- Keeps the first occurrence of every element. -/
def distinct (l : List α) : List α := union [] l

/-- The two lists have the same members. -/
def sameMembers (l m : List α) : Bool := l.all (· ∈ m) && m.all (· ∈ l)

theorem mem_adjoin {l : List α} {a b : α} : b ∈ adjoin l a ↔ b ∈ l ∨ b = a := by
  unfold adjoin
  split
  · constructor
    · exact Or.inl
    · rintro (h | rfl) <;> assumption
  · simp

theorem nodup_adjoin {l : List α} {a : α} (h : l.Nodup) : (adjoin l a).Nodup := by
  unfold adjoin
  split
  · exact h
  · rw [List.nodup_append]
    refine ⟨h, by simp, ?_⟩
    rintro b hb _ hc rfl
    rw [List.mem_singleton] at hc
    subst hc
    contradiction

theorem mem_union {l m : List α} {b : α} : b ∈ union l m ↔ b ∈ l ∨ b ∈ m := by
  unfold union
  induction m generalizing l with
  | nil => simp
  | cons a m ih => rw [List.foldl_cons, ih, mem_adjoin, List.mem_cons, or_assoc]

theorem mem_distinct {l : List α} {b : α} : b ∈ distinct l ↔ b ∈ l := by
  simp [distinct, mem_union]

theorem sameMembers_iff {l m : List α} : sameMembers l m = true ↔ ∀ a, a ∈ l ↔ a ∈ m := by
  simp only [sameMembers, Bool.and_eq_true, List.all_eq_true, decide_eq_true_eq]
  exact ⟨fun h a => ⟨h.1 a, h.2 a⟩, fun h => ⟨fun a => (h a).1, fun a => (h a).2⟩⟩

theorem nodup_union : ∀ (m l : List α), l.Nodup → (union l m).Nodup
  | [], _, h => h
  | a :: m, l, h => nodup_union m (adjoin l a) (nodup_adjoin h)

/-- A part of a list without repetitions is told by its members. -/
theorem eq_filter_of_sublist {l part : List α} (h : part.Sublist l) (hl : l.Nodup) : part = l.filter (· ∈ part) := by
  induction h with
  | slnil => rfl
  | cons a h ih =>
    obtain ⟨hnew, hl⟩ := List.nodup_cons.1 hl
    rw [List.filter_cons_of_neg (by simpa using fun ha => hnew (h.subset ha))]
    exact ih hl
  | @cons_cons part l a h ih =>
    obtain ⟨hnew, hl⟩ := List.nodup_cons.1 hl
    have hrest : l.filter (· ∈ a :: part) = l.filter (· ∈ part) := by
      refine List.filter_congr fun b hb => ?_
      have hne : b ≠ a := fun heq => hnew (heq ▸ hb)
      simp [hne]
    rw [List.filter_cons_of_pos (by simp), hrest, ← ih hl]

theorem sublist_ext {l part part' : List α} (hl : l.Nodup) (h : part.Sublist l) (h' : part'.Sublist l)
    (hmem : ∀ a, a ∈ part ↔ a ∈ part') : part = part' := by
  rw [eq_filter_of_sublist h hl, eq_filter_of_sublist h' hl]
  exact List.filter_congr fun a _ => by simp only [hmem]

end Listing

/-- How sets list their members. `members l m` is the list of a set that was filled with the elements of
`l` and united with one that was filled with those of `m`. It has each of them once; their order may be
any, and may depend on how the sets were filled. -/
class SetOrder where
  members {α : Type} [DecidableEq α] (l m : List α) : List α
  perm_members {α : Type} [DecidableEq α] (l m : List α) : (members l m).Perm (Listing.distinct (l ++ m))

namespace SetOrder

/-- Members in the order in which they came into the set. Programs run with this order. -/
instance (priority := low) arrival : SetOrder := ⟨fun l m => Listing.distinct (l ++ m), fun _ _ => .refl _⟩

variable {α : Type} [DecidableEq α] [SetOrder]

theorem mem_members {l m : List α} {a : α} : a ∈ members l m ↔ a ∈ l ∨ a ∈ m := by
  rw [(perm_members l m).mem_iff, Listing.mem_distinct, List.mem_append]

theorem mem_members_nil {l : List α} {a : α} : a ∈ members l [] ↔ a ∈ l := by
  rw [mem_members, or_iff_left List.not_mem_nil]

theorem nodup_members (l m : List α) : (members l m).Nodup :=
  (perm_members l m).nodup_iff.2 (Listing.nodup_union (l ++ m) [] List.nodup_nil)

theorem members_singleton (a : α) : members [a] [] = [a] := List.perm_singleton.1 (perm_members [a] [])

end SetOrder

end TaintFlow
