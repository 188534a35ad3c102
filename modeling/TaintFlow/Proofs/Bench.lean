import Mathlib.Data.List.GetD
import TaintFlow.Proofs.Stack
import TaintFlow.Proofs.Strand
import TaintFlow.Workbench.Operations

/-
Combining on a bench. Things on a bench refer to each other by number, so what a multilabel or a labelling shows is
found by following references (`Workbench.content`, `Workbench.taint?`). On a bench without loose references
(`Workbench.Closed`) the operations that combine put new things on the bench and leave those that are there as they are
(`Workbench.Extends`). What they put there shows the combination of what the two things show: labels that both sides
have are merged into new ones, and what one side has alone is copied, part by part.
-/
namespace TaintFlow

/-! ## Tables made of lists -/

namespace Table

variable {κ α β : Type}

theorem ext_entries {t u : Table κ α} (h : t.entries = u.entries) : t = u := by
  obtain ⟨l, hl⟩ := t
  obtain ⟨m, hm⟩ := u
  cases h
  rfl

variable [DecidableEq κ]

theorem map_congr {f g : α → β} {t : Table κ α} (h : ∀ k a, t.get? k = some a → f a = g a) : t.map f = t.map g := by
  refine ext_entries (List.map_congr_left fun e he => ?_)
  rw [h e.1 e.2 (mem_entries.1 he)]

theorem map_combine [SetOrder] {f : α → β} {g : α → α → α} {g' : β → β → β} (h : ∀ x y, f (g x y) = g' (f x) (f y))
    (t u : Table κ α) : (t.combine g u).map f = (t.map f).combine g' (u.map f) := by
  have hkeys : ∀ t : Table κ α, (t.map f).keys = t.keys := fun t => List.map_map ..
  have hvalue : ∀ k, (Option.merge g (t.get? k) (u.get? k)).map f =
      Option.merge g' ((t.map f).get? k) ((u.map f).get? k) := by
    intro k
    rw [get?_map, get?_map]
    cases t.get? k with
    | none => cases u.get? k <;> rfl
    | some x =>
      cases u.get? k with
      | none => rfl
      | some y => exact congrArg some (h x y)
  refine ext_entries ?_
  show (List.filterMap _ _).map _ = List.filterMap _ (SetOrder.members (t.map f).keys (u.map f).keys)
  rw [hkeys, hkeys, List.map_filterMap]
  refine List.filterMap_congr fun k _ => ?_
  dsimp only
  rw [← hvalue k, Option.map_map, Option.map_map]
  rfl

theorem put_of_notMem {k : κ} {l : List (κ × α)} (h : k ∉ l.map (·.1)) (a : α) : put k a l = l ++ [(k, a)] := by
  induction l with
  | nil => rfl
  | cons e l ih =>
    rw [List.map_cons, List.mem_cons, not_or] at h
    rw [put, if_neg (Ne.symm h.1), ih h.2]
    rfl

/-- A list without repeated keys is the table made of it. -/
theorem entries_ofList {l : List (κ × α)} (h : (l.map (·.1)).Nodup) : (ofList l).entries = l := by
  -- an entry whose key is new goes to the end, so the table grows along the list
  have key : ∀ (l : List (κ × α)) (t : Table κ α), ((t.entries ++ l).map (·.1)).Nodup →
      (l.foldl (fun t e => t.insert e.1 e.2) t).entries = t.entries ++ l := by
    intro l
    induction l with
    | nil => exact fun t _ => (List.append_nil _).symm
    | cons e l ih =>
      intro t ht
      have hput : (t.insert e.1 e.2).entries = t.entries ++ [e] := by
        refine put_of_notMem (fun he => ?_) e.2
        rw [List.map_append, List.nodup_append] at ht
        exact ht.2.2 e.1 he e.1 (List.mem_cons_self ..) rfl
      rw [List.foldl_cons, ih (t.insert e.1 e.2), hput, List.append_assoc, List.singleton_append]
      rwa [hput, List.append_assoc, List.singleton_append]
  exact key l empty h

/-- A list that has the entries of a table one by one, in another form, is a form of the table. -/
theorem map_ofList_eq {t : Table κ α} {l : List (κ × β)} {f : β → α}
    (h : List.Forall₂ (fun e x => x.1 = e.1 ∧ f x.2 = e.2) t.entries l) : (ofList l).map f = t := by
  have hl : l.map (fun x => (x.1, f x.2)) = t.entries := by
    generalize t.entries = m at h ⊢
    induction h with
    | nil => rfl
    | cons hx _ ih => rw [List.map_cons, ih, hx.1, hx.2]
  have hnodup : (l.map (·.1)).Nodup := by
    have hkeys : l.map (·.1) = t.entries.map (·.1) := by rw [← hl, List.map_map]; rfl
    rw [hkeys]
    exact t.nodup
  refine ext_entries ?_
  show (ofList l).entries.map (fun e => (e.1, f e.2)) = t.entries
  rw [entries_ofList hnodup, hl]

/-- A table of the entries that were made for keys, where a key may have come to none. -/
theorem get?_ofList_filterMap {P : κ → Option α → Prop} {keys : List κ} {made : List (Option (κ × α))}
    (h : List.Forall₂ (fun k r => ∃ o : Option α, r = o.map (k, ·) ∧ P k o) keys made) (k : κ) :
    (k ∈ keys ∧ P k ((ofList (made.filterMap id)).get? k)) ∨
      (k ∉ keys ∧ (ofList (made.filterMap id)).get? k = none) := by
  have hmade : ∀ a, (k, a) ∈ made.filterMap id → k ∈ keys ∧ P k (some a) := by
    intro a ha
    obtain ⟨r, hr, rfl⟩ := List.mem_filterMap.1 ha
    obtain ⟨k', hk', o, ho, hP⟩ := forall₂_mem_right h _ hr
    cases o with
    | none => cases ho
    | some a' =>
      cases ho
      exact ⟨hk', hP⟩
  cases hget : (ofList (made.filterMap id)).get? k with
  | some a => exact .inl (hmade a (mem_of_get?_ofList hget))
  | none =>
    by_cases hk : k ∈ keys
    · obtain ⟨r, hr, o, rfl, hP⟩ := forall₂_mem_right h.flip k hk
      cases o with
      | none => exact .inl ⟨hk, hP⟩
      | some a =>
        -- an entry that was made is in the table
        have hkey : k ∈ (made.filterMap id).map (·.1) :=
          List.mem_map.2 ⟨(k, a), List.mem_filterMap.2 ⟨_, hr, rfl⟩, rfl⟩
        have hcontains := contains_ofList hkey
        rw [contains, hget] at hcontains
        cases hcontains
    · exact .inr ⟨hk, rfl⟩

end Table

theorem MultiLabel.mapPatterns_combine [SetOrder] {π ρ : Type} (f : π → ρ) (m k : MultiLabel π) :
    (m.combine k).mapPatterns f = (m.mapPatterns f).combine (k.mapPatterns f) :=
  congrArg MultiLabel.mk (Table.map_combine (fun _ _ => rfl) m.entries k.entries)

/-! ## Runs of steps -/

/-- The runs of the steps of a monad: from a state to a result and a state. -/
structure Runs (m : Type → Type) [Monad m] (σ : Type) where
  Yields {α : Type} : m α → σ → α → σ → Prop
  pure {α : Type} (a : α) (s : σ) : Yields (pure a) s a s
  bind {α β : Type} {x : m α} {f : α → m β} {s s' s'' : σ} {a : α} {c : β} :
    Yields x s a s' → Yields (f a) s' c s'' → Yields (x >>= f) s c s''

/-- Steps for the elements of a list, done one after the other. What a step achieves at its own turn is there at the
end, if it lasts while the state moves on. -/
theorem Runs.mapM {m : Type → Type} [Monad m] [LawfulMonad m] {σ α β : Type} (r : Runs m σ) {R : σ → σ → Prop}
    (hrefl : ∀ s, R s s) (htrans : ∀ s s' s'', R s s' → R s' s'' → R s s'') {f : α → m β} {Q : α → β → σ → Prop}
    (hlast : ∀ a x s s', R s s' → Q a x s → Q a x s') (l : List α) (s : σ)
    (hstep : ∀ a ∈ l, ∀ s', R s s' → ∃ x s'', r.Yields (f a) s' x s'' ∧ R s' s'' ∧ Q a x s'') :
    ∃ xs s', r.Yields (l.mapM f) s xs s' ∧ R s s' ∧ List.Forall₂ (fun a x => Q a x s') l xs := by
  induction l generalizing s with
  | nil => exact ⟨[], s, by rw [List.mapM_nil]; exact r.pure [] s, hrefl s, .nil⟩
  | cons a l ih =>
    obtain ⟨x, s₁, hx, hs₁, hq⟩ := hstep a (List.mem_cons_self ..) s (hrefl s)
    obtain ⟨xs, s₂, hxs, hs₂, hqs⟩ :=
      ih s₁ fun a' ha' s' hs' => hstep a' (List.mem_cons_of_mem _ ha') s' (htrans _ _ _ hs₁ hs')
    -- what the first step achieved lasts through the others
    refine ⟨x :: xs, s₂, ?_, htrans _ _ _ hs₁ hs₂, .cons (hlast _ _ _ _ hs₂ hq) hqs⟩
    rw [List.mapM_cons]
    exact r.bind hx (r.bind hxs (r.pure _ s₂))

/-- Work on a bench comes to an end without a fault. -/
def Work.Yields {α : Type} (w : Work α) (b : Workbench) (a : α) (b' : Workbench) : Prop := w.run.run b = (.ok a, b')

/-- The same for work that makes a copy. -/
def Copying.Yields {α : Type} (c : Copying α) (s : Copied × Workbench) (a : α) (s' : Copied × Workbench) : Prop :=
  Work.Yields (c.run s.1) s.2 (a, s'.1) s'.2

namespace Work

variable {α β : Type} {b b' b'' : Workbench}

theorem Yields.pure (a : α) (b : Workbench) : Yields (pure a) b a b := rfl

theorem Yields.bind {x : Work α} {f : α → Work β} {a : α} {c : β} (hx : x.Yields b a b') (hf : (f a).Yields b' c b'') :
    Yields (x >>= f) b c b'' := by
  unfold Yields at hx hf ⊢
  rw [ExceptT.run_bind, StateT.run_bind, hx]
  exact hf

theorem Yields.bench (b : Workbench) : Yields bench b b b := rfl

theorem Yields.unique {w : Work α} {a a' : α} (h : w.Yields b a b') (h' : w.Yields b a' b'') : a = a' ∧ b' = b'' := by
  have hpair := h.symm.trans h'
  cases hpair
  exact ⟨rfl, rfl⟩

/-- The runs of work on a bench. -/
def runs : Runs (fun α => Work α) Workbench where
  Yields := Yields
  pure := Yields.pure
  bind := Yields.bind

end Work

namespace Copying

variable {α β : Type}

theorem Yields.pure (a : α) (s : Copied × Workbench) : Yields (pure a) s a s := rfl

theorem Yields.bind {x : Copying α} {f : α → Copying β} {s s' s'' : Copied × Workbench} {a : α} {c : β}
    (hx : x.Yields s a s') (hf : (f a).Yields s' c s'') : Yields (x >>= f) s c s'' :=
  Work.Yields.bind hx hf

/-- The runs of work that makes a copy. -/
def runs : Runs (fun α => Copying α) (Copied × Workbench) where
  Yields := Yields
  pure := Yields.pure
  bind := Yields.bind

end Copying

/-! ## What a bench shows -/

theorem getD_extended {α : Type} {l l' : List α} {i : Nat} (h : l <+: l') (hi : i < l.length) (d : α) :
    l'.getD i d = l.getD i d := by
  obtain ⟨more, rfl⟩ := h
  exact List.getD_append l more d i hi

theorem getD_length {α : Type} (l : List α) (a d : α) : (l ++ [a]).getD l.length d = a := by
  rw [List.getD_append_right _ _ _ _ (Nat.le_refl _), Nat.sub_self]
  rfl

namespace Workbench

/-- A multilabel with the patterns that it refers to. -/
def content (b : Workbench) (i : Nat) : MultiLabel Pattern := (b.multiLabel i).mapPatterns b.pattern

theorem content_eq (b : Workbench) (i : Nat) :
    b.content i = ⟨(b.slots i).map fun s => { pattern := b.pattern s.pattern, label := b.label s.label }⟩ := by
  unfold content multiLabel MultiLabel.mapPatterns
  rw [Table.map_map]

/-- The multilabel of a variable in a labelling, if it has one. -/
def taint? (b : Workbench) (i : Nat) (x : String) : Option (MultiLabel Pattern) :=
  ((b.bindings i).get? x).join.map b.content

/-- The references of a multilabel lead to things on the bench. -/
def Fits (b : Workbench) (t : Table String Slot) : Prop :=
  ∀ name s, t.get? name = some s → s.pattern < b.patterns.length ∧ s.label < b.labels.length

/-- The references of a labelling lead to things on the bench. -/
def Binds (b : Workbench) (t : Table String (Option Nat)) : Prop :=
  ∀ x m, t.get? x = some (some m) → m < b.multiLabels.length

/-- No reference leads off the bench. -/
structure Closed (b : Workbench) : Prop where
  slots : ∀ t ∈ b.multiLabels, b.Fits t
  bindings : ∀ t ∈ b.labellings, b.Binds t

/-- The second bench is the first with new patterns, labels, multilabels and labellings. -/
structure Extends (b b' : Workbench) : Prop where
  edition : b'.edition = b.edition
  patterns : b.patterns <+: b'.patterns
  labels : b.labels <+: b'.labels
  multiLabels : b.multiLabels <+: b'.multiLabels
  labellings : b.labellings <+: b'.labellings
  policies : b'.policies = b.policies
  reports : b'.reports = b.reports
  paths : b'.paths = b.paths

variable {b b' b'' : Workbench}

theorem Extends.refl (b : Workbench) : b.Extends b :=
  ⟨rfl, List.prefix_rfl, List.prefix_rfl, List.prefix_rfl, List.prefix_rfl, rfl, rfl, rfl⟩

theorem Extends.trans (h : b.Extends b') (h' : b'.Extends b'') : b.Extends b'' where
  edition := h'.edition.trans h.edition
  patterns := h.patterns.trans h'.patterns
  labels := h.labels.trans h'.labels
  multiLabels := h.multiLabels.trans h'.multiLabels
  labellings := h.labellings.trans h'.labellings
  policies := h'.policies.trans h.policies
  reports := h'.reports.trans h.reports
  paths := h'.paths.trans h.paths

/-! ## What is on the bench stays as it is -/

theorem Extends.pattern (h : b.Extends b') {i : Nat} (hi : i < b.patterns.length) : b'.pattern i = b.pattern i :=
  getD_extended h.patterns hi default

theorem Extends.label (h : b.Extends b') {i : Nat} (hi : i < b.labels.length) : b'.label i = b.label i :=
  getD_extended h.labels hi default

theorem Closed.fits_slots (hb : b.Closed) (i : Nat) : b.Fits (b.slots i) := by
  unfold Workbench.slots
  by_cases hi : i < b.multiLabels.length
  · rw [List.getD_eq_getElem _ _ hi]
    exact hb.slots _ (List.getElem_mem hi)
  · rw [List.getD_eq_default _ _ (Nat.le_of_not_lt hi)]
    intro name s hs
    cases hs

theorem Closed.binds_bindings (hb : b.Closed) (i : Nat) : b.Binds (b.bindings i) := by
  unfold Workbench.bindings
  by_cases hi : i < b.labellings.length
  · rw [List.getD_eq_getElem _ _ hi]
    exact hb.bindings _ (List.getElem_mem hi)
  · rw [List.getD_eq_default _ _ (Nat.le_of_not_lt hi)]
    intro x m hx
    cases hx

theorem Extends.multiLabel (h : b.Extends b') (hb : b.Closed) {i : Nat} (hi : i < b.multiLabels.length) :
    b'.multiLabel i = b.multiLabel i := by
  have hslots : b'.slots i = b.slots i := getD_extended h.multiLabels hi default
  unfold Workbench.multiLabel
  rw [hslots]
  refine congrArg MultiLabel.mk (Table.map_congr fun name s hs => ?_)
  rw [h.label (hb.fits_slots i name s hs).2]

/-- The patterns that a multilabel refers to are on the bench. -/
theorem Closed.pattern_lt (hb : b.Closed) {i : Nat} {name : String} {t : Tracked Nat}
    (ht : (b.multiLabel i).entries.get? name = some t) : t.pattern < b.patterns.length := by
  have ht : ((b.slots i).map _).get? name = some t := ht
  rw [Table.get?_map] at ht
  obtain ⟨s, hs, rfl⟩ := Option.map_eq_some_iff.1 ht
  exact (hb.fits_slots i name s hs).1

/-- References to patterns on a bench are followed in the same way on one that extends it. -/
theorem Extends.mapPatterns (h : b.Extends b') {m : MultiLabel Nat}
    (hm : ∀ name t, m.entries.get? name = some t → t.pattern < b.patterns.length) :
    m.mapPatterns b'.pattern = m.mapPatterns b.pattern := by
  refine congrArg MultiLabel.mk (Table.map_congr fun name t ht => ?_)
  rw [h.pattern (hm name t ht)]

theorem Extends.content (h : b.Extends b') (hb : b.Closed) {i : Nat} (hi : i < b.multiLabels.length) :
    b'.content i = b.content i := by
  unfold Workbench.content
  rw [h.multiLabel hb hi]
  exact h.mapPatterns fun _ _ ht => hb.pattern_lt ht

/-- A bench stays closed while lists get no shorter, if new multilabels and labellings refer to what is there. -/
theorem Closed.of_le (hb : b.Closed) (hpatterns : b.patterns.length ≤ b'.patterns.length)
    (hlabels : b.labels.length ≤ b'.labels.length) (hmulti : b.multiLabels.length ≤ b'.multiLabels.length)
    (hslots : ∀ t ∈ b'.multiLabels, t ∈ b.multiLabels ∨ b'.Fits t)
    (hbindings : ∀ t ∈ b'.labellings, t ∈ b.labellings ∨ b'.Binds t) : b'.Closed where
  slots t ht := by
    rcases hslots t ht with ht | ht
    · exact fun name s hs => (hb.slots t ht name s hs).imp (·.trans_le hpatterns) (·.trans_le hlabels)
    · exact ht
  bindings t ht := by
    rcases hbindings t ht with ht | ht
    · exact fun x m hx => (hb.bindings t ht x m hx).trans_le hmulti
    · exact ht

/-! ## New things on the bench -/

/-- The bench is extended, and no reference leads off it if none did before. -/
structure Grows (b b' : Workbench) : Prop where
  ext : b.Extends b'
  closed : b.Closed → b'.Closed

theorem Grows.refl (b : Workbench) : b.Grows b := ⟨.refl b, id⟩

theorem Grows.trans (h : b.Grows b') (h' : b'.Grows b'') : b.Grows b'' :=
  ⟨h.ext.trans h'.ext, fun hb => h'.closed (h.closed hb)⟩

theorem Extends.grows (h : b.Extends b') (hslots : ∀ t ∈ b'.multiLabels, t ∈ b.multiLabels ∨ b'.Fits t)
    (hbindings : ∀ t ∈ b'.labellings, t ∈ b.labellings ∨ b'.Binds t) : b.Grows b' :=
  ⟨h, fun hb => hb.of_le h.patterns.length_le h.labels.length_le h.multiLabels.length_le hslots hbindings⟩

/-- The slot leads to this pattern and this label. -/
structure Leads (b : Workbench) (s : Slot) (p : Pattern) (l : Label) : Prop where
  pattern_lt : s.pattern < b.patterns.length
  label_lt : s.label < b.labels.length
  pattern_eq : b.pattern s.pattern = p
  label_eq : b.label s.label = l

theorem Leads.mono {s : Slot} {p : Pattern} {l : Label} (hs : b.Leads s p l) (h : b.Extends b') : b'.Leads s p l where
  pattern_lt := hs.pattern_lt.trans_le h.patterns.length_le
  label_lt := hs.label_lt.trans_le h.labels.length_le
  pattern_eq := (h.pattern hs.pattern_lt).trans hs.pattern_eq
  label_eq := (h.label hs.label_lt).trans hs.label_eq

theorem Closed.leads (hb : b.Closed) {i : Nat} {name : String} {s : Slot} (hs : (b.slots i).get? name = some s) :
    b.Leads s (b.pattern s.pattern) (b.label s.label) :=
  ⟨(hb.fits_slots i name s hs).1, (hb.fits_slots i name s hs).2, rfl, rfl⟩

/-- An entry of a closed bench shows a multilabel, or nothing. -/
structure Shows (b : Workbench) (o : Option Nat) (m : Option (MultiLabel Pattern)) : Prop where
  closed : b.Closed
  lt : ∀ k, o = some k → k < b.multiLabels.length
  map_content : o.map b.content = m

theorem Shows.mono {o : Option Nat} {m : Option (MultiLabel Pattern)} (h : b.Shows o m) (hb : b.Grows b') :
    b'.Shows o m where
  closed := hb.closed h.closed
  lt k hk := (h.lt k hk).trans_le hb.ext.multiLabels.length_le
  map_content := by
    rw [← h.map_content]
    refine Option.map_congr fun k hk => ?_
    exact hb.ext.content h.closed (h.lt k hk)

theorem Closed.shows_taint? (hb : b.Closed) (i : Nat) (x : String) :
    b.Shows ((b.bindings i).get? x).join (b.taint? i x) where
  closed := hb
  lt k hk := hb.binds_bindings i x k (Option.join_eq_some_iff.1 hk)
  map_content := rfl

/-! ## One more multilabel -/

/-- Entries with numbers for their labels, from `n` on. -/
def numbered (n : Nat) (l : List (String × Tracked Nat)) : List (String × Slot) :=
  (l.zipIdx n).map fun e => (e.1.1, { pattern := e.1.2.pattern, label := e.2 })

/-- The bench with one more multilabel, which has labels of its own. -/
def adding (b : Workbench) (m : MultiLabel Nat) : Workbench :=
  { b with
    labels := b.labels ++ m.entries.entries.map (·.2.label)
    multiLabels := b.multiLabels ++ [.ofList (numbered b.labels.length m.entries.entries)] }

/-- The numbers lead to the labels of the entries, once these stand behind the others. -/
theorem forall₂_numbered (l : List (String × Tracked Nat)) (before : List Label) :
    List.Forall₂ (fun e x => x.1 = e.1 ∧
      ({ pattern := x.2.pattern, label := (before ++ l.map (·.2.label)).getD x.2.label default } : Tracked Nat) = e.2)
      l (numbered before.length l) := by
  induction l generalizing before with
  | nil => exact .nil
  | cons e l ih =>
    have hrest := ih (before ++ [e.2.label])
    rw [List.length_append, List.append_assoc] at hrest
    refine .cons ⟨rfl, ?_⟩ hrest
    rw [List.map_cons, List.getD_append_right _ _ _ _ (Nat.le_refl _), Nat.sub_self]
    rfl

theorem slots_adding (b : Workbench) (m : MultiLabel Nat) :
    (b.adding m).slots b.multiLabels.length = .ofList (numbered b.labels.length m.entries.entries) :=
  getD_length _ _ _

theorem multiLabel_adding (b : Workbench) (m : MultiLabel Nat) : (b.adding m).multiLabel b.multiLabels.length = m := by
  unfold multiLabel
  rw [slots_adding]
  exact congrArg MultiLabel.mk (Table.map_ofList_eq (forall₂_numbered m.entries.entries b.labels))

/-- A new entry has the pattern of the entry it was made for, and a label that was not there. -/
theorem of_mem_numbered {n : Nat} {l : List (String × Tracked Nat)} {name : String} {s : Slot}
    (h : (name, s) ∈ numbered n l) :
    n ≤ s.label ∧ ∃ t, l[s.label - n]? = some (name, t) ∧ s.pattern = t.pattern := by
  obtain ⟨⟨⟨name, t⟩, j⟩, hj, he⟩ := List.mem_map.1 h
  cases he
  obtain ⟨hle, hget⟩ := List.mk_mem_zipIdx_iff_le_and_getElem?_sub.1 hj
  exact ⟨hle, t, hget, rfl⟩

theorem grows_adding {m : MultiLabel Nat}
    (hm : ∀ name t, m.entries.get? name = some t → t.pattern < b.patterns.length) : b.Grows (b.adding m) := by
  refine Extends.grows { Extends.refl b with
    labels := List.prefix_append .., multiLabels := List.prefix_append .. } (fun t ht => ?_) fun t ht => .inl ht
  rcases List.mem_append.1 ht with ht | ht
  · exact .inl ht
  · rw [List.mem_singleton.1 ht]
    refine .inr fun name s hs => ?_
    obtain ⟨hle, t, hget, hpattern⟩ := of_mem_numbered (Table.mem_of_get?_ofList hs)
    have hlt := (List.getElem?_eq_some_iff.1 hget).1
    refine ⟨?_, ?_⟩
    · rw [hpattern]
      exact hm name t (Table.mem_entries.1 (List.mem_of_getElem? hget))
    · rw [adding, List.length_append, List.length_map]
      omega

end Workbench

namespace Work

open Workbench

variable {b : Workbench}

theorem addPattern_grows (b : Workbench) (p : Pattern) :
    ∃ b', (addPattern p).Yields b b.patterns.length b' ∧ b.Grows b' ∧ b.patterns.length < b'.patterns.length ∧
      b'.pattern b.patterns.length = p := by
  refine ⟨{ b with patterns := b.patterns ++ [p] }, rfl, ?_, by simp, getD_length _ _ _⟩
  exact Extends.grows { Extends.refl b with patterns := List.prefix_append .. } (fun t ht => .inl ht)
    fun t ht => .inl ht

theorem addLabel_grows (b : Workbench) (l : Label) :
    ∃ b', (addLabel l).Yields b b.labels.length b' ∧ b.Grows b' ∧ b.labels.length < b'.labels.length ∧
      b'.label b.labels.length = l := by
  refine ⟨{ b with labels := b.labels ++ [l] }, rfl, ?_, by simp, getD_length _ _ _⟩
  exact Extends.grows { Extends.refl b with labels := List.prefix_append .. } (fun t ht => .inl ht) fun t ht => .inl ht

theorem addSlots_grows {t : Table String Slot} (ht : b.Fits t) :
    ∃ b', (addSlots t).Yields b b.multiLabels.length b' ∧ b.Grows b' ∧ b.multiLabels.length < b'.multiLabels.length ∧
      b'.slots b.multiLabels.length = t := by
  refine ⟨{ b with multiLabels := b.multiLabels ++ [t] }, rfl, ?_, by simp, getD_length _ _ _⟩
  refine Extends.grows { Extends.refl b with multiLabels := List.prefix_append .. } (fun u hu => ?_) fun u hu => .inl hu
  rcases List.mem_append.1 hu with hu | hu
  · exact .inl hu
  · rw [List.mem_singleton.1 hu]
    exact .inr ht

theorem addVariables_grows {t : Table String (Option Nat)} (ht : b.Binds t) :
    ∃ b', (addVariables t).Yields b b.labellings.length b' ∧ b.Grows b' ∧ b'.bindings b.labellings.length = t := by
  refine ⟨{ b with labellings := b.labellings ++ [t] }, rfl, ?_, getD_length _ _ _⟩
  refine Extends.grows { Extends.refl b with labellings := List.prefix_append .. } (fun u hu => .inl hu) fun u hu => ?_
  rcases List.mem_append.1 hu with hu | hu
  · exact .inl hu
  · rw [List.mem_singleton.1 hu]
    exact .inr ht

/-- Work for the elements of a list that makes the bench grow. -/
theorem mapM_grows {α β : Type} {f : α → Work β} {Q : α → β → Workbench → Prop}
    (hlast : ∀ a x b b', b.Grows b' → Q a x b → Q a x b') (l : List α) (b : Workbench)
    (hstep : ∀ a ∈ l, ∀ b₁, b.Grows b₁ → ∃ x b₂, (f a).Yields b₁ x b₂ ∧ b₁.Grows b₂ ∧ Q a x b₂) :
    ∃ xs b', Yields (l.mapM f) b xs b' ∧ b.Grows b' ∧ List.Forall₂ (fun a x => Q a x b') l xs :=
  runs.mapM Grows.refl (fun _ _ _ => Grows.trans) hlast l b hstep

/-- The labels of entries are put on the bench one after the other. -/
theorem mapM_addLabel (l : List (String × Tracked Nat)) (b : Workbench) :
    Yields (l.mapM fun e => do return (e.1, ({ pattern := e.2.pattern, label := ← addLabel e.2.label } : Slot))) b
      (numbered b.labels.length l) { b with labels := b.labels ++ l.map (·.2.label) } := by
  induction l generalizing b with
  | nil =>
    rw [List.mapM_nil, List.map_nil, List.append_nil]
    exact .pure _ _
  | cons e l ih =>
    have hrest := ih { b with labels := b.labels ++ [e.2.label] }
    rw [List.length_append, List.append_assoc] at hrest
    have hfirst : Yields (do return (e.1, ({ pattern := e.2.pattern, label := ← addLabel e.2.label } : Slot))) b
        (e.1, ⟨e.2.pattern, b.labels.length⟩) { b with labels := b.labels ++ [e.2.label] } := rfl
    rw [List.mapM_cons]
    refine hfirst.bind (hrest.bind ?_)
    exact .pure _ _

/-- A multilabel is put on the bench with labels of its own. -/
theorem addMultiLabel_yields (b : Workbench) (m : MultiLabel Nat) :
    (addMultiLabel m).Yields b b.multiLabels.length (b.adding m) :=
  (mapM_addLabel m.entries.entries b).bind rfl

theorem addMultiLabel_grows {m : MultiLabel Nat}
    (hm : ∀ name t, m.entries.get? name = some t → t.pattern < b.patterns.length) :
    ∃ k b', (addMultiLabel m).Yields b k b' ∧ b.Grows b' ∧ k < b'.multiLabels.length ∧ b'.multiLabel k = m :=
  ⟨_, _, addMultiLabel_yields b m, grows_adding hm, by simp [adding], multiLabel_adding b m⟩

/-- The labels of both multilabels are merged into new ones. -/
theorem combineMultiLabels_grows [SetOrder] (hb : b.Closed) (i j : Nat) :
    ∃ k b', (combineMultiLabels i j).Yields b k b' ∧ b.Grows b' ∧ k < b'.multiLabels.length ∧
      b'.multiLabel k = (b.multiLabel i).combine (b.multiLabel j) ∧
      b'.content k = (b.content i).combine (b.content j) := by
  have hpattern : ∀ name t, ((b.multiLabel i).combine (b.multiLabel j)).entries.get? name = some t →
      t.pattern < b.patterns.length := by
    intro name t ht
    rcases MultiLabel.get?_combine_some ht with ⟨u, hu, htu⟩ | ⟨-, hu⟩
    · rw [htu]
      exact hb.pattern_lt hu
    · exact hb.pattern_lt hu
  obtain ⟨k, b', hyield, hb', hlt, hk⟩ := addMultiLabel_grows hpattern
  refine ⟨k, b', hyield, hb', hlt, hk, ?_⟩
  -- the new multilabel refers to patterns that were there, and these did not change
  unfold Workbench.content
  rw [hk, hb'.ext.mapPatterns hpattern, MultiLabel.mapPatterns_combine]

end Work

/-! ## Copies -/

/-- Numbers of things in a list, each with the number of a copy in the same list. -/
def Mirrors {α : Type} [Inhabited α] (t : Table Nat Nat) (l : List α) : Prop :=
  ∀ i j, t.get? i = some j → i < l.length ∧ j < l.length ∧ l.getD j default = l.getD i default

namespace Mirrors

variable {α : Type} [Inhabited α] {t : Table Nat Nat} {l l' : List α}

theorem mono (h : Mirrors t l) (hl : l <+: l') : Mirrors t l' := by
  intro i j hij
  obtain ⟨hi, hj, he⟩ := h i j hij
  refine ⟨hi.trans_le hl.length_le, hj.trans_le hl.length_le, ?_⟩
  rw [getD_extended hl hi, getD_extended hl hj, he]

theorem insert (h : Mirrors t l) {i j : Nat} (hi : i < l.length) (hj : j < l.length)
    (he : l.getD j default = l.getD i default) : Mirrors (t.insert i j) l := by
  intro i' j' hij
  rw [Table.get?_insert] at hij
  split at hij
  · rename_i heq
    cases heq
    cases hij
    exact ⟨hi, hj, he⟩
  · exact h i' j' hij

end Mirrors

/-- The parts copied so far show the same as their copies. -/
structure Copied.Faithful (c : Copied) (b : Workbench) : Prop where
  patterns : Mirrors c.patterns b.patterns
  labels : Mirrors c.labels b.labels

theorem Copied.Faithful.mono {c : Copied} {b b' : Workbench} (hc : c.Faithful b) (h : b.Extends b') : c.Faithful b' :=
  ⟨hc.patterns.mono h.patterns, hc.labels.mono h.labels⟩

namespace Copying

open Workbench

variable {s s' s'' : Copied × Workbench}

/-- Copying goes on: the bench grows, and the copies stay faithful. -/
structure Proceeds (s s' : Copied × Workbench) : Prop where
  grows : s.2.Grows s'.2
  faithful : s.1.Faithful s.2 → s'.1.Faithful s'.2

theorem Proceeds.refl (s : Copied × Workbench) : Proceeds s s := ⟨.refl s.2, id⟩

theorem Proceeds.trans (h : Proceeds s s') (h' : Proceeds s' s'') : Proceeds s s'' :=
  ⟨h.grows.trans h'.grows, fun hs => h'.faithful (h.faithful hs)⟩

theorem Yields.get (s : Copied × Workbench) : Yields get s s.1 s := rfl

theorem Yields.bench (s : Copied × Workbench) : Yields bench s s.2 s := rfl

theorem Yields.lift {α : Type} {w : Work α} {a : α} {b : Workbench} (c : Copied) (h : w.Yields s.2 a b) :
    Yields (liftM w) (c, s.2) a (c, b) :=
  Work.Yields.bind h (.pure _ _)

theorem Yields.modify (f : Copied → Copied) (s : Copied × Workbench) : Yields (modify f) s () (f s.1, s.2) := rfl

/-- A pattern is copied, or was copied before. -/
theorem pattern_proceeds {i : Nat} (hs : s.1.Faithful s.2) (hi : i < s.2.patterns.length) :
    ∃ j s', (pattern i).Yields s j s' ∧ Proceeds s s' ∧ j < s'.2.patterns.length ∧ s'.2.pattern j = s.2.pattern i := by
  unfold pattern
  cases h : s.1.patterns.get? i with
  | some j =>
    obtain ⟨-, hj, he⟩ := hs.patterns i j h
    refine ⟨j, s, (Yields.get s).bind ?_, .refl s, hj, he⟩
    rw [h]
    exact .pure j s
  | none =>
    obtain ⟨b', hadd, hb', hlt, hnew⟩ := Work.addPattern_grows s.2 (s.2.pattern i)
    refine ⟨s.2.patterns.length, ({ s.1 with patterns := s.1.patterns.insert i s.2.patterns.length }, b'),
      (Yields.get s).bind ?_, ⟨hb', fun hc => ?_⟩, hlt, hnew⟩
    · rw [h]
      exact (Yields.bench s).bind ((Yields.lift s.1 hadd).bind ((Yields.modify _ _).bind (.pure _ _)))
    · have hmono := hc.mono hb'.ext
      exact ⟨hmono.patterns.insert (hi.trans hlt) hlt (hnew.trans (hb'.ext.pattern hi).symm), hmono.labels⟩

/-- A label is copied, or was copied before. -/
theorem label_proceeds {i : Nat} (hs : s.1.Faithful s.2) (hi : i < s.2.labels.length) :
    ∃ j s', (label i).Yields s j s' ∧ Proceeds s s' ∧ j < s'.2.labels.length ∧ s'.2.label j = s.2.label i := by
  unfold label
  cases h : s.1.labels.get? i with
  | some j =>
    obtain ⟨-, hj, he⟩ := hs.labels i j h
    refine ⟨j, s, (Yields.get s).bind ?_, .refl s, hj, he⟩
    rw [h]
    exact .pure j s
  | none =>
    obtain ⟨b', hadd, hb', hlt, hnew⟩ := Work.addLabel_grows s.2 (s.2.label i)
    refine ⟨s.2.labels.length, ({ s.1 with labels := s.1.labels.insert i s.2.labels.length }, b'),
      (Yields.get s).bind ?_, ⟨hb', fun hc => ?_⟩, hlt, hnew⟩
    · rw [h]
      exact (Yields.bench s).bind ((Yields.lift s.1 hadd).bind ((Yields.modify _ _).bind (.pure _ _)))
    · have hmono := hc.mono hb'.ext
      exact ⟨hmono.patterns, hmono.labels.insert (hi.trans hlt) hlt (hnew.trans (hb'.ext.label hi).symm)⟩

/-- An entry is copied into one that leads to the same pattern and the same label. -/
theorem entry_proceeds (name : String) {slot : Slot} {p : Pattern} {l : Label} (hs : s.1.Faithful s.2)
    (h : s.2.Leads slot p l) :
    ∃ x s', Yields (do return (name, ({ pattern := ← pattern slot.pattern, label := ← label slot.label } : Slot))) s
      (name, x) s' ∧ Proceeds s s' ∧ s'.2.Leads x p l := by
  obtain ⟨j₁, s₁, hyield₁, hs₁, hlt₁, he₁⟩ := pattern_proceeds hs h.pattern_lt
  have h₁ := h.mono hs₁.grows.ext
  obtain ⟨j₂, s₂, hyield₂, hs₂, hlt₂, he₂⟩ := label_proceeds (hs₁.faithful hs) h₁.label_lt
  refine ⟨⟨j₁, j₂⟩, s₂, hyield₁.bind (hyield₂.bind (.pure _ _)), hs₁.trans hs₂, ?_, hlt₂, ?_, he₂.trans h₁.label_eq⟩
  · exact hlt₁.trans_le hs₂.grows.ext.patterns.length_le
  · exact ((hs₂.grows.ext.pattern hlt₁).trans he₁).trans h.pattern_eq

/-- A copy of a multilabel shows the same, with patterns and labels of its own. -/
theorem make_multiLabel_grows {b : Workbench} (hb : b.Closed) (i : Nat) :
    ∃ k b', (make (multiLabel i)).Yields b k b' ∧ b.Grows b' ∧ k < b'.multiLabels.length ∧
      b'.content k = b.content i := by
  have hstart : ({} : Copied).Faithful b := ⟨fun _ _ h => (by cases h), fun _ _ h => (by cases h)⟩
  obtain ⟨entries, s₁, hentries, hs₁, hall⟩ := runs.mapM Proceeds.refl (fun _ _ _ => Proceeds.trans)
    (f := fun (e : String × Slot) => do
      return (e.1, ({ pattern := ← pattern e.2.pattern, label := ← label e.2.label } : Slot)))
    (Q := fun e x s => x.1 = e.1 ∧ s.2.Leads x.2 (b.pattern e.2.pattern) (b.label e.2.label))
    (fun _ _ _ _ hs hx => ⟨hx.1, hx.2.mono hs.grows.ext⟩)
    (b.slots i).entries ({}, b) fun e he s hs => by
      have hleads := (hb.leads (Table.mem_entries.1 he)).mono hs.grows.ext
      obtain ⟨x, s', hyield, hs', hx⟩ := entry_proceeds e.1 (hs.faithful hstart) hleads
      exact ⟨(e.1, x), s', hyield, hs', rfl, hx⟩
  have hfits : s₁.2.Fits (.ofList entries) := by
    intro name s hs
    obtain ⟨e, -, -, hleads⟩ := forall₂_mem_right hall (name, s) (Table.mem_of_get?_ofList hs)
    exact ⟨hleads.pattern_lt, hleads.label_lt⟩
  obtain ⟨b₂, hadd, hb₂, hlt, hslots⟩ := Work.addSlots_grows hfits
  refine ⟨_, b₂, ?_, hs₁.grows.trans hb₂, hlt, ?_⟩
  · -- nothing was copied before, so the multilabel is not among the copies
    have hcopy : (multiLabel i).Yields ({}, b) _ (_, b₂) := (Yields.get _).bind ((Yields.bench _).bind
      (hentries.bind ((Yields.lift s₁.1 hadd).bind ((Yields.modify _ _).bind (.pure _ _)))))
    exact Work.Yields.bind hcopy (.pure _ _)
  · rw [content_eq, content_eq, hslots]
    refine congrArg MultiLabel.mk (Table.map_ofList_eq (List.forall₂_map_left_iff.2 ?_))
    refine hall.imp fun e x hx => ⟨hx.1, ?_⟩
    have hleads := hx.2.mono hb₂.ext
    rw [hleads.pattern_eq, hleads.label_eq]

end Copying

namespace Work

open Workbench

variable {b : Workbench}

/-! ## Combining labellings -/

theorem map_some_grows {w : Work Nat} {m : MultiLabel Pattern} (hb : b.Closed)
    (h : ∃ k b', w.Yields b k b' ∧ b.Grows b' ∧ k < b'.multiLabels.length ∧ b'.content k = m) :
    ∃ r b', Yields (some <$> w) b r b' ∧ b.Grows b' ∧ b'.Shows r (some m) := by
  obtain ⟨k, b', hyield, hb', hlt, rfl⟩ := h
  refine ⟨some k, b', hyield.bind (.pure _ _), hb', hb'.closed hb, fun k' hk' => ?_, rfl⟩
  cases hk'
  exact hlt

/-- Of the multilabels of a variable, two are combined, and one alone is copied. -/
theorem combineEntries_grows [SetOrder] {o o' : Option Nat} {m m' : Option (MultiLabel Pattern)} (h : b.Shows o m)
    (h' : b.Shows o' m') :
    ∃ r b', (combineEntries o o').Yields b r b' ∧ b.Grows b' ∧ b'.Shows r (m.merge MultiLabel.combine m') := by
  obtain ⟨hb, -, rfl⟩ := h
  obtain ⟨-, -, rfl⟩ := h'
  cases o with
  | none =>
    cases o' with
    | none => exact ⟨none, b, .pure _ _, .refl b, hb, fun k hk => (by cases hk), rfl⟩
    | some j => exact map_some_grows hb (Copying.make_multiLabel_grows hb j)
  | some i =>
    cases o' with
    | none => exact map_some_grows hb (Copying.make_multiLabel_grows hb i)
    | some j =>
      obtain ⟨k, b', hyield, hb', hlt, -, hk⟩ := combineMultiLabels_grows hb i j
      exact map_some_grows hb ⟨k, b', hyield, hb', hlt, hk⟩

/-- The labelling that is made shows, for each variable, the combination of what the two labellings show. -/
theorem combineLabellings_grows [SetOrder] (hb : b.Closed) (i j : Nat) :
    ∃ k b', (combineLabellings i j).Yields b k b' ∧ b.Grows b' ∧
      ∀ x, b'.taint? k x = (b.taint? i x).merge MultiLabel.combine (b.taint? j x) := by
  obtain ⟨made, b₁, hmade, hb₁, hall⟩ := mapM_grows
    (f := fun x => do
      let m ← combineEntries ((b.bindings i).get? x).join ((b.bindings j).get? x).join
      return m.map fun m => (x, some m))
    (Q := fun x r b₁ => ∃ o : Option (Option Nat), r = o.map (x, ·) ∧ ∃ m : Option Nat, o = m.map some ∧
      b₁.Shows m ((b.taint? i x).merge MultiLabel.combine (b.taint? j x)))
    (fun _ _ _ _ hb' hx => hx.imp fun _ ho => ⟨ho.1, ho.2.imp fun _ hm => ⟨hm.1, hm.2.mono hb'⟩⟩)
    (SetOrder.members (b.bindings i).keys (b.bindings j).keys) b fun x _ b₁ hb₁ => by
      obtain ⟨m, b₂, hyield, hb₂, hm⟩ :=
        combineEntries_grows ((hb.shows_taint? i x).mono hb₁) ((hb.shows_taint? j x).mono hb₁)
      exact ⟨_, b₂, hyield.bind (.pure _ _), hb₂, m.map some, (Option.map_map ..).symm, m, rfl, hm⟩
  -- a variable that has nothing on either side comes to no entry
  have htable := Table.get?_ofList_filterMap hall
  have hbinds : b₁.Binds (.ofList (made.filterMap id)) := by
    intro x k hx
    rcases htable x with ⟨-, m, hm, hshows⟩ | ⟨-, hnone⟩
    · rw [hx] at hm
      cases m with
      | none => cases hm
      | some k' =>
        cases hm
        exact hshows.lt k rfl
    · rw [hx] at hnone
      cases hnone
  obtain ⟨b₂, hadd, hb₂, hbindings⟩ := addVariables_grows hbinds
  refine ⟨_, b₂, (Yields.bench b).bind (Yields.bind hmade hadd), hb₁.trans hb₂, fun x => ?_⟩
  unfold Workbench.taint?
  rw [hbindings]
  rcases htable x with ⟨-, m, hm, hshows⟩ | ⟨hmem, hnone⟩
  · have hjoin : (m.map some).join = m := by cases m <;> rfl
    rw [hm, hjoin]
    exact (hshows.mono hb₂).map_content
  · rw [SetOrder.mem_members, not_or] at hmem
    have hi : (b.bindings i).get? x = none := Table.find_eq_none.2 hmem.1
    have hj : (b.bindings j).get? x = none := Table.find_eq_none.2 hmem.2
    rw [hnone, hi, hj]
    rfl

end Work

end TaintFlow
