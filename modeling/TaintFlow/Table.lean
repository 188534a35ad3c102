import TaintFlow.Listing

/-
Tables: finite maps that keep their keys in the order of first entry. Entering a key again replaces
its value and leaves it in its place, so that no key has two entries. `get?` is the view of a table;
the laws below say what the operations do to it.
-/
namespace TaintFlow

/-- A finite map as the list of its entries, in order of first entry. -/
structure Table (κ α : Type) where
  entries : List (κ × α) := []
  nodup : (entries.map (·.1)).Nodup := by exact List.nodup_nil
deriving DecidableEq

namespace Table

variable {κ α β : Type}

def empty : Table κ α := {}

instance : Inhabited (Table κ α) := ⟨empty⟩

def keys (t : Table κ α) : List κ := t.entries.map (·.1)

def values (t : Table κ α) : List α := t.entries.map (·.2)

theorem nodup_map_entries (f : κ → α → β) {l : List (κ × α)} (h : (l.map (·.1)).Nodup) :
    ((l.map fun e => (e.1, f e.1 e.2)).map (·.1)).Nodup := by
  simpa only [List.map_map, Function.comp_def] using h

def map (f : α → β) (t : Table κ α) : Table κ β :=
  ⟨t.entries.map fun e => (e.1, f e.2), nodup_map_entries (fun _ => f) t.nodup⟩

/-- The entries that pass a test. -/
def filter (p : κ → α → Bool) (t : Table κ α) : Table κ α :=
  ⟨t.entries.filter fun e => p e.1 e.2, (List.filter_sublist.map _).nodup t.nodup⟩

def isEmpty (t : Table κ α) : Bool := t.entries.isEmpty

theorem keys_filterMap_sublist (value : κ → Option α) (l : List κ) :
    ((l.filterMap fun k => (value k).map (k, ·)).map (·.1)).Sublist l := by
  induction l with
  | nil => exact .slnil
  | cons k l ih =>
    cases h : value k with
    | none => simpa [h] using ih.cons k
    | some a => simpa [h] using ih.cons_cons k

variable [DecidableEq κ]

/-- The value of the first entry of `k`. -/
def find (k : κ) : List (κ × α) → Option α
  | [] => none
  | (k', a) :: rest => if k' = k then some a else find k rest

/-- The entries with `k ↦ a`: in the place of `k` if it has one, else at the end. -/
def put (k : κ) (a : α) : List (κ × α) → List (κ × α)
  | [] => [(k, a)]
  | (k', a') :: rest => if k' = k then (k', a) :: rest else (k', a') :: put k a rest

theorem keys_put (k : κ) (a : α) (l : List (κ × α)) :
    (put k a l).map (·.1) = Listing.adjoin (l.map (·.1)) k := by
  induction l with
  | nil => simp [put, Listing.adjoin]
  | cons e l ih =>
    obtain ⟨k', a'⟩ := e
    by_cases h : k' = k
    · simp [put, Listing.adjoin, h]
    · simp only [put, h, if_false, List.map_cons, ih, Listing.adjoin, List.mem_cons, Ne.symm h,
        false_or]
      split <;> simp

def get? (t : Table κ α) (k : κ) : Option α := find k t.entries

def insert (t : Table κ α) (k : κ) (a : α) : Table κ α :=
  ⟨put k a t.entries, by rw [keys_put]; exact Listing.nodup_adjoin t.nodup⟩

def contains (t : Table κ α) (k : κ) : Bool := (t.get? k).isSome

/-- The table of a list of entries; the last entry of a key gives its value, the first its place. -/
def ofList (l : List (κ × α)) : Table κ α := l.foldl (fun t e => t.insert e.1 e.2) empty

/-- The two tables have the same keys, and `eq` holds of the values of each. -/
def agree (eq : α → β → Bool) (a : Table κ α) (b : Table κ β) : Bool :=
  b.keys.all a.contains &&
    a.entries.all fun e => match b.get? e.1 with
      | some v => eq e.2 v
      | none => false

theorem find_eq_none {k : κ} {l : List (κ × α)} : find k l = none ↔ k ∉ l.map (·.1) := by
  induction l with
  | nil => simp [find]
  | cons e l ih =>
    by_cases h : e.1 = k
    · simp [find, h]
    · simp [find, h, ih, Ne.symm h]

theorem contains_iff {t : Table κ α} {k : κ} : t.contains k = true ↔ k ∈ t.keys := by
  rw [contains, Option.isSome_iff_ne_none, get?, Ne, find_eq_none, Decidable.not_not]
  rfl

/-- The table that gives each key of a list its value, if it has one. -/
def tabulate (l : List κ) (hl : l.Nodup) (value : κ → Option α) : Table κ α :=
  ⟨l.filterMap fun k => (value k).map (k, ·), (keys_filterMap_sublist value l).nodup hl⟩

/-- The entries of both tables, those of a common key combined. Their order is that of the set of keys. -/
def combine [SetOrder] (f : α → α → α) (a b : Table κ α) : Table κ α :=
  tabulate (SetOrder.members a.keys b.keys) (SetOrder.nodup_members ..) fun k =>
    Option.merge f (a.get? k) (b.get? k)

theorem find_put_self (k : κ) (a : α) (l : List (κ × α)) : find k (put k a l) = some a := by
  induction l with
  | nil => simp [put, find]
  | cons e l ih => obtain ⟨k', a'⟩ := e; by_cases h : k' = k <;> simp [put, find, h, ih]

theorem find_put_of_ne {k k' : κ} (h : k' ≠ k) (a : α) (l : List (κ × α)) :
    find k' (put k a l) = find k' l := by
  induction l with
  | nil => simp [put, find, Ne.symm h]
  | cons e l ih =>
    obtain ⟨k₀, a₀⟩ := e
    by_cases h₀ : k₀ = k
    · subst h₀; simp [put, find, Ne.symm h]
    · simp [put, find, h₀, ih]

theorem get?_empty (k : κ) : (empty : Table κ α).get? k = none := rfl

theorem get?_insert_self (t : Table κ α) (k : κ) (a : α) : (t.insert k a).get? k = some a :=
  find_put_self k a t.entries

theorem get?_insert_of_ne (t : Table κ α) {k k' : κ} (h : k' ≠ k) (a : α) :
    (t.insert k a).get? k' = t.get? k' :=
  find_put_of_ne h a t.entries

theorem find_map (f : κ → α → β) (k : κ) (l : List (κ × α)) :
    find k (l.map fun e => (e.1, f e.1 e.2)) = (find k l).map (f k) := by
  induction l with
  | nil => rfl
  | cons e l ih =>
    by_cases h : e.1 = k
    · subst h; simp [find]
    · simp [find, h, ih]

theorem get?_map (f : α → β) (t : Table κ α) (k : κ) : (t.map f).get? k = (t.get? k).map f :=
  find_map (fun _ => f) k t.entries

theorem mem_entries {t : Table κ α} {k : κ} {a : α} : (k, a) ∈ t.entries ↔ t.get? k = some a := by
  obtain ⟨l, hl⟩ := t
  unfold get?
  induction l with
  | nil => simp [find]
  | cons e l ih =>
    obtain ⟨k', a'⟩ := e
    obtain ⟨hk, hl⟩ := List.nodup_cons.1 hl
    by_cases h : k' = k
    · subst h
      simp only [find, if_true, Option.some.injEq, List.mem_cons, Prod.mk.injEq, true_and]
      constructor
      · rintro (h | h)
        · exact h.symm
        · exact absurd (List.mem_map_of_mem h) hk
      · rintro rfl; exact .inl rfl
    · simp [find, h, ih hl, Ne.symm h]

theorem get?_filter (p : κ → α → Bool) (t : Table κ α) (k : κ) :
    (t.filter p).get? k = (t.get? k).filter (p k) := by
  apply Option.ext
  intro a
  rw [← mem_entries, Option.filter_eq_some_iff, ← mem_entries]
  simp [filter]

theorem get?_tabulate (l : List κ) (hl : l.Nodup) (value : κ → Option α) (k : κ) :
    (tabulate l hl value).get? k = if k ∈ l then value k else none := by
  apply Option.ext
  intro a
  rw [← mem_entries]
  by_cases hk : k ∈ l <;> simp [tabulate, hk]

theorem get?_eq_none {t : Table κ α} {k : κ} : t.get? k = none ↔ k ∉ t.keys := find_eq_none

theorem get?_combine [SetOrder] (f : α → α → α) (a b : Table κ α) (k : κ) :
    (a.combine f b).get? k = Option.merge f (a.get? k) (b.get? k) := by
  rw [combine, get?_tabulate]
  split
  · rfl
  · rename_i hk
    rw [SetOrder.mem_members, not_or] at hk
    rw [get?_eq_none.2 hk.1, get?_eq_none.2 hk.2, Option.merge_none_left]

theorem get?_insert (t : Table κ α) (k k' : κ) (a : α) :
    (t.insert k a).get? k' = if k' = k then some a else t.get? k' := by
  split
  · rename_i h; subst h; exact get?_insert_self t k' a
  · rename_i h; exact get?_insert_of_ne t h a

theorem isEmpty_iff {t : Table κ α} : t.isEmpty = true ↔ ∀ k, t.get? k = none := by
  obtain ⟨l, hl⟩ := t
  cases l with
  | nil => simp [isEmpty, get?, find]
  | cons e l =>
    simp only [isEmpty, List.isEmpty_cons, Bool.false_eq_true, false_iff]
    intro h
    have := h e.1
    simp [get?, find] at this

/-- Values of a table made of a list stand in the list. -/
theorem mem_of_get?_ofList {l : List (κ × α)} {k : κ} {a : α} (h : (ofList l).get? k = some a) :
    (k, a) ∈ l := by
  have key : ∀ (l : List (κ × α)) (t : Table κ α),
      (l.foldl (fun t e => t.insert e.1 e.2) t).get? k = some a → t.get? k = some a ∨ (k, a) ∈ l := by
    intro l
    induction l with
    | nil => exact fun t h => .inl h
    | cons e l ih =>
      intro t h
      rcases ih _ h with h | h
      · rw [get?_insert] at h
        split at h
        · rename_i hk
          cases h
          exact .inr (hk ▸ List.mem_cons_self ..)
        · exact .inl h
      · exact .inr (List.mem_cons_of_mem _ h)
  rcases key l empty h with h | h
  · cases h
  · exact h

/-- Every key of a list has a value in the table made of it. -/
theorem contains_ofList {l : List (κ × α)} {k : κ} (h : k ∈ l.map (·.1)) : (ofList l).contains k = true := by
  have key : ∀ (l : List (κ × α)) (t : Table κ α), t.contains k = true ∨ k ∈ l.map (·.1) →
      (l.foldl (fun t e => t.insert e.1 e.2) t).contains k = true := by
    intro l
    induction l with
    | nil => exact fun t h => h.elim id (nomatch ·)
    | cons e l ih =>
      intro t h
      refine ih _ ?_
      unfold contains at h ⊢
      rw [get?_insert]
      by_cases hk : k = e.1
      · rw [if_pos hk]; exact .inl rfl
      · rw [if_neg hk]
        exact h.imp id fun h => (List.mem_cons.1 h).resolve_left hk
  exact key l empty (.inr h)

theorem agree_iff {eq : α → β → Bool} {a : Table κ α} {b : Table κ β} :
    a.agree eq b = true ↔ ∀ k, Option.Rel (fun x y => eq x y = true) (a.get? k) (b.get? k) := by
  unfold agree
  simp only [Bool.and_eq_true, List.all_eq_true]
  constructor
  · rintro ⟨hb, ha⟩ k
    cases hx : a.get? k with
    | some x =>
      have h := ha (k, x) (mem_entries.2 hx)
      cases hy : b.get? k with
      | some y => exact .some (by simpa [hy] using h)
      | none => simp [hy] at h
    | none =>
      cases hy : b.get? k with
      | some y =>
        have h := hb k (contains_iff.1 (by simp [contains, hy]))
        simp [contains, hx] at h
      | none => exact .none
  · intro h
    refine ⟨fun k hk => ?_, fun e he => ?_⟩
    · have hy := contains_iff.2 hk
      unfold contains at hy ⊢
      have hr := h k
      generalize a.get? k = x at hr ⊢
      generalize b.get? k = y at hr hy
      cases hr with
      | some _ => rfl
      | none => exact hy
    · have hr := h e.1
      rw [mem_entries.1 he] at hr
      generalize b.get? e.1 = o at hr ⊢
      cases hr with
      | some hxy => exact hxy

end Table

end TaintFlow
