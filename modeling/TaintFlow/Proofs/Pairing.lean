import Mathlib
import TaintFlow.Proofs.Sameness

/-
Comparing reports. The entries of a report take targets off a list, one after the other, each the first one that is the
same entry. What comes out is as good as any pairing of entries with targets, one to one, can be: no entry that found no
target is the same as a target that is left over. So the entries and the targets fall in two parts, of which one has no
entry and the other no target left over, and no pairing has more pairs than there are entries in the one part
and targets in the other.
-/
namespace TaintFlow.Check

open Document

/-! ## Pairings -/

section

variable {α β : Type} {R : α → β → Prop} {xs : List α} {ys : List β}

/-- Some items of `xs` with related items of `ys`, one to one. -/
structure Pairing (R : α → β → Prop) (xs : List α) (ys : List β) where
  pairs : List (α × β)
  left : (pairs.map (·.1)).Subperm xs
  right : (pairs.map (·.2)).Subperm ys
  related : ∀ c ∈ pairs, R c.1 c.2

def Pairing.size (P : Pairing R xs ys) : Nat := P.pairs.length

/-- A pairing for one relation is one for every relation that is weaker on the lists. -/
theorem Pairing.exists_of_imp {S : α → β → Prop} (P : Pairing R xs ys) (h : ∀ x ∈ xs, ∀ y ∈ ys, R x y → S x y) :
    ∃ Q : Pairing S xs ys, Q.size = P.size := by
  refine ⟨⟨P.pairs, P.left, P.right, fun c hc => ?_⟩, rfl⟩
  have hx : c.1 ∈ xs := P.left.subset (List.mem_map.2 ⟨c, hc, rfl⟩)
  have hy : c.2 ∈ ys := P.right.subset (List.mem_map.2 ⟨c, hc, rfl⟩)
  exact h c.1 hx c.2 hy (P.related c hc)

/-- If each pair has its first item in `U` or its second in `V`, there are no more pairs than such items. -/
theorem Pairing.size_le_of_cover (P : Pairing R xs ys) {U : α → Bool} {V : β → Bool}
    (h : ∀ c ∈ P.pairs, U c.1 = true ∨ V c.2 = true) : P.size ≤ xs.countP U + ys.countP V := by
  have hright : P.pairs.countP (fun c => !U c.1) ≤ P.pairs.countP (fun c => V c.2) := by
    refine List.countP_mono_left fun c hc hU => ?_
    rcases h c hc with hc | hc
    · simp [hc] at hU
    · exact hc
  have hU : P.pairs.countP (fun c => U c.1) ≤ xs.countP U := by
    rw [← Function.comp_def U, ← List.countP_map]
    exact P.left.countP_le U
  have hV : P.pairs.countP (fun c => V c.2) ≤ ys.countP V := by
    rw [← Function.comp_def V, ← List.countP_map]
    exact P.right.countP_le V
  have hsum := List.length_eq_countP_add_countP (fun c : α × β => U c.1) (l := P.pairs)
  unfold Pairing.size
  simp only [Bool.not_eq_true, Bool.decide_eq_false] at hsum
  omega

end

/-! ## Taking targets one after the other -/

section

variable {κ : Type} {view : Document → κ} {output target good extra missing : List Document}

/-- What becomes of `output` and `target` if each item of `output` takes a target of the same view, where there
is one: the items that took one, the items that did not, and the targets left over. -/
structure Greedy (view : Document → κ) (output target good extra missing : List Document) : Prop where
  good_sublist : good.Sublist output
  extra_sublist : extra.Sublist output
  perm : (good ++ extra).Perm output
  taken : ∃ taken, (taken ++ missing).Perm target ∧ List.Forall₂ (fun o t => view o = view t) good taken
  apart : ∀ o ∈ extra, ∀ t ∈ missing, view o ≠ view t

theorem Greedy.nil (view : Document → κ) (target : List Document) : Greedy view [] target [] [] target :=
  ⟨.refl _, .refl _, .refl _, ⟨[], .refl _, .nil⟩, List.forall_mem_nil _⟩

theorem Greedy.missing_subset (h : Greedy view output target good extra missing) : missing ⊆ target := by
  obtain ⟨taken, hperm, -⟩ := h.taken
  exact fun t ht => hperm.subset (List.mem_append_right _ ht)

/-- One more item, which takes a target. -/
theorem Greedy.hit {o t : Document} {rest : List Document} (htarget : (t :: rest).Perm target) (hot : view o = view t)
    (h : Greedy view output rest good extra missing) : Greedy view (o :: output) target (o :: good) extra missing := by
  obtain ⟨taken, hperm, htaken⟩ := h.taken
  refine ⟨h.good_sublist.cons_cons o, h.extra_sublist.cons o, h.perm.cons o, ⟨t :: taken, ?_, .cons hot htaken⟩,
    h.apart⟩
  exact (hperm.cons t).trans htarget

/-- One more item, for which there is no target. -/
theorem Greedy.miss {o : Document} (ho : ∀ t ∈ target, view o ≠ view t)
    (h : Greedy view output target good extra missing) :
    Greedy view (o :: output) target good (o :: extra) missing := by
  refine ⟨h.good_sublist.cons o, h.extra_sublist.cons_cons o, List.perm_middle.trans (h.perm.cons o), h.taken, ?_⟩
  exact List.forall_mem_cons.2 ⟨fun t ht => ho t (h.missing_subset ht), h.apart⟩

theorem Greedy.length (h : Greedy view output target good extra missing) :
    good.length + extra.length = output.length ∧ good.length + missing.length = target.length := by
  obtain ⟨taken, hperm, htaken⟩ := h.taken
  have hout := h.perm.length_eq
  have htarget := hperm.length_eq
  have heq := htaken.length_eq
  simp only [List.length_append] at hout htarget
  omega

/-- The items that took a target, with their targets. -/
theorem Greedy.exists_pairing (h : Greedy view output target good extra missing) :
    ∃ P : Pairing (fun o t => view o = view t) output target, P.size = good.length := by
  obtain ⟨taken, hperm, htaken⟩ := h.taken
  have hlength := htaken.length_eq
  refine ⟨⟨good.zip taken, ?_, ?_, ?_⟩, ?_⟩
  · rw [List.map_fst_zip hlength.le]
    exact h.good_sublist.subperm
  · rw [List.map_snd_zip hlength.ge]
    exact (List.sublist_append_left taken missing).subperm.trans hperm.subperm
  · intro c hc
    exact List.forall₂_iff_zip.1 htaken |>.2 hc
  · simp [Pairing.size, hlength]

/-- No pairing has more pairs. -/
theorem Greedy.size_le (h : Greedy view output target good extra missing)
    (P : Pairing (fun o t => view o = view t) output target) : P.size ≤ good.length := by
  classical
  obtain ⟨taken, hperm, htaken⟩ := h.taken
  -- the parts: the views of items without a target, and all other views
  let short : Document → Bool := fun d => decide (∃ e ∈ extra, view e = view d)
  have hcover : ∀ c ∈ P.pairs, (!short c.1) = true ∨ short c.2 = true := by
    intro c hc
    have hview : view c.1 = view c.2 := P.related c hc
    by_cases hs : short c.2 = true
    · exact .inr hs
    · refine .inl ?_
      simp only [short, hview] at hs ⊢
      simpa using hs
  have hbound := P.size_le_of_cover (U := fun d => !short d) (V := short) hcover
  have hextra : extra.countP (fun d => !short d) = 0 := by
    rw [List.countP_eq_zero]
    intro e he
    simp only [short, Bool.not_eq_true', decide_eq_false_iff_not, not_not]
    exact ⟨e, he, rfl⟩
  have hmissing : missing.countP short = 0 := by
    rw [List.countP_eq_zero]
    intro t ht hs
    obtain ⟨e, he, het⟩ := of_decide_eq_true hs
    exact h.apart e he t ht het
  have htaken : taken.countP short = good.countP short := by
    clear hperm h
    induction htaken with
    | nil => rfl
    | cons hot _ ih =>
      rw [List.countP_cons, List.countP_cons, ih]
      simp only [short, hot]
  rw [← h.perm.countP_eq, ← hperm.countP_eq, List.countP_append, List.countP_append, hextra, hmissing, htaken] at hbound
  have hgood := List.length_eq_countP_add_countP short (l := good)
  simp only [Bool.not_eq_true, Bool.decide_eq_false] at hgood
  omega

end

/-! ## Comparing reports -/

variable {edition : Edition} (t : Tolerance)

/-- An entry finds the first target that is the same. -/
theorem findEntry_cases {entry : Document} (hentry : isEntry edition entry = .ok true) : ∀ {targets : List Document},
    (∀ d ∈ targets, isEntry edition d = .ok true) →
    (findEntry edition t entry targets = .ok none ∧ ∀ d ∈ targets, t.entry entry ≠ t.entry d) ∨
      ∃ before d after, targets = before ++ d :: after ∧ t.entry entry = t.entry d ∧
        (∀ e ∈ before, t.entry entry ≠ t.entry e) ∧ findEntry edition t entry targets = .ok (some d)
  | [], _ => .inl ⟨rfl, List.forall_mem_nil _⟩
  | d :: targets, htargets => by
    rw [List.forall_mem_cons] at htargets
    rw [findEntry]
    by_cases hd : t.entry entry = t.entry d
    · rw [((tells_sameEntry t).same_iff hentry htargets.1).2 hd]
      exact .inr ⟨[], d, targets, rfl, hd, List.forall_mem_nil _, rfl⟩
    · rw [(tells_sameEntry t).same_of_ne hentry htargets.1 hd]
      rcases findEntry_cases hentry htargets.2 with ⟨hnone, hne⟩ | ⟨before, e, after, rfl, he, hne, hsome⟩
      · exact .inl ⟨hnone, List.forall_mem_cons.2 ⟨hd, hne⟩⟩
      · exact .inr ⟨d :: before, e, after, rfl, he, List.forall_mem_cons.2 ⟨hd, hne⟩, hsome⟩

/-- Dropping the first item that is alike drops an item, if no item before it has its view. -/
theorem erase_append {before after : List Document} {d : Document}
    (hd : isEntry edition d = .ok true) (hbefore : ∀ e ∈ before, isEntry edition e = .ok true)
    (hne : ∀ e ∈ before, t.entry d ≠ t.entry e) : erase d (before ++ d :: after) = before ++ after := by
  induction before with
  | nil =>
    rw [List.nil_append, erase, (reflects_entry t).self hd]
    rfl
  | cons e before ih =>
    rw [List.forall_mem_cons] at hbefore hne
    have halike : ¬ alike e d = true := fun h => hne.1 ((reflects_entry t).view_eq hbefore.1 hd h).symm
    rw [List.cons_append, erase, if_neg halike, ih hbefore.2 hne.2, List.cons_append]

theorem matchTarget_cases {entry : Document} (hentry : isEntry edition entry = .ok true) {targets : List Document}
    (htargets : ∀ d ∈ targets, isEntry edition d = .ok true) :
    (matchTarget edition t entry (.list targets) = .ok (false, .list targets) ∧
        ∀ d ∈ targets, t.entry entry ≠ t.entry d) ∨
      ∃ d rest, matchTarget edition t entry (.list targets) = .ok (true, .list rest) ∧ (d :: rest).Perm targets ∧
        t.entry entry = t.entry d := by
  rcases findEntry_cases t hentry htargets with ⟨hnone, hne⟩ | ⟨before, d, after, rfl, hd, hne, hsome⟩
  · refine .inl ⟨?_, hne⟩
    unfold matchTarget
    change (findEntry edition t entry targets >>= _) = _
    rw [hnone]
    rfl
  · have hd' := htargets d (List.mem_append_right _ (List.mem_cons_self ..))
    have hbefore := fun e he => htargets e (List.mem_append_left _ he)
    have herase : erase d (before ++ d :: after) = before ++ after := erase_append t hd' hbefore (hd ▸ hne)
    refine .inr ⟨d, before ++ after, ?_, List.perm_middle.symm, hd⟩
    unfold matchTarget
    change (findEntry edition t entry (before ++ d :: after) >>= _) = _
    rw [hsome, ← herase]
    rfl

/-- Comparing goes through the entries and lets each take a target. -/
theorem compare_greedy : ∀ {output : List Document} {c : Comparison} {target : List Document},
    c.missing = .list target → (∀ d ∈ output, isEntry edition d = .ok true) →
    (∀ d ∈ target, isEntry edition d = .ok true) → ∃ good extra missing,
      compare edition t output c = .ok ⟨c.good ++ good, c.extra ++ extra, .list missing⟩ ∧
      Greedy t.entry output target good extra missing
  | [], c, target, hc, _, _ => by
    refine ⟨[], [], target, ?_, .nil _ _⟩
    rw [List.append_nil, List.append_nil, ← hc]
    rfl
  | entry :: output, c, target, hc, houtput, htarget => by
    rw [List.forall_mem_cons] at houtput
    rw [compare, hc]
    rcases matchTarget_cases t houtput.1 htarget with ⟨hmatch, hne⟩ | ⟨d, rest, hmatch, hperm, hd⟩
    · obtain ⟨good, extra, missing, hcompare, hgreedy⟩ :=
        compare_greedy (c := { c with extra := c.extra ++ [entry], missing := .list target }) rfl houtput.2 htarget
      refine ⟨good, entry :: extra, missing, ?_, hgreedy.miss hne⟩
      rw [hmatch]
      rw [List.append_assoc] at hcompare
      exact hcompare
    · have hrest : ∀ e ∈ rest, isEntry edition e = .ok true :=
        fun e he => htarget e (hperm.subset (List.mem_cons_of_mem _ he))
      obtain ⟨good, extra, missing, hcompare, hgreedy⟩ :=
        compare_greedy (c := { c with good := c.good ++ [entry], missing := .list rest }) rfl houtput.2 hrest
      refine ⟨entry :: good, extra, missing, ?_, hgreedy.hit hperm hd⟩
      rw [hmatch]
      rw [List.append_assoc] at hcompare
      exact hcompare

/-- Pairings of entries that have the same view are those of entries that are the same. -/
theorem exists_pairing_iff {output target : List Document} (houtput : ∀ d ∈ output, isEntry edition d = .ok true)
    (htarget : ∀ d ∈ target, isEntry edition d = .ok true) (n : Nat) :
    (∃ P : Pairing (fun o d => sameEntry edition t o d = .ok true) output target, P.size = n) ↔
      ∃ P : Pairing (fun o d => t.entry o = t.entry d) output target, P.size = n := by
  have hiff : ∀ o ∈ output, ∀ d ∈ target, sameEntry edition t o d = .ok true ↔ t.entry o = t.entry d :=
    fun o ho d hd => (tells_sameEntry t).same_iff (houtput o ho) (htarget d hd)
  constructor
  · rintro ⟨P, rfl⟩
    exact P.exists_of_imp fun o ho d hd => (hiff o ho d hd).1
  · rintro ⟨P, rfl⟩
    exact P.exists_of_imp fun o ho d hd => (hiff o ho d hd).2

/-- Comparing a report with targets is exact. No comparison of entries that pass the check faults. Every entry is good
or extra, and the targets that no good entry took are missing. As many entries are good as entries and targets
can be paired, one to one, with an entry that is the same. Nothing is missing and nothing extra exactly if a pairing
covers both lists. -/
theorem comparison_is_exact (edition : Edition) (t : Tolerance) {output target : List Document}
    (houtput : ∀ d ∈ output, isEntry edition d = .ok true) (htarget : ∀ d ∈ target, isEntry edition d = .ok true) :
    ∃ good extra missing,
      compare edition t output { missing := .list target } = .ok ⟨good, extra, .list missing⟩ ∧
      good.Sublist output ∧ extra.Sublist output ∧ (good ++ extra).Perm output ∧
      good.length + missing.length = target.length ∧
      IsGreatest {n | ∃ P : Pairing (fun o d => sameEntry edition t o d = .ok true) output target, P.size = n}
        good.length ∧
      (missing = [] ∧ extra = [] ↔ ∃ P : Pairing (fun o d => sameEntry edition t o d = .ok true) output target,
        P.size = output.length ∧ P.size = target.length) := by
  obtain ⟨good, extra, missing, hcompare, hgreedy⟩ :=
    compare_greedy (c := { missing := .list target }) t rfl houtput htarget
  obtain ⟨hlength, hlength'⟩ := hgreedy.length
  have hsize := exists_pairing_iff t houtput htarget
  have hexists := (hsize good.length).2 hgreedy.exists_pairing
  have hbound : ∀ P : Pairing (fun o d => sameEntry edition t o d = .ok true) output target, P.size ≤ good.length := by
    intro P
    obtain ⟨Q, hQ⟩ := (hsize P.size).1 ⟨P, rfl⟩
    rw [← hQ]
    exact hgreedy.size_le Q
  refine ⟨good, extra, missing, hcompare, hgreedy.good_sublist, hgreedy.extra_sublist, hgreedy.perm, hlength',
    ⟨hexists, ?_⟩, ?_, ?_⟩
  · rintro n ⟨P, rfl⟩
    exact hbound P
  · rintro ⟨rfl, rfl⟩
    obtain ⟨P, hP⟩ := hexists
    simp only [List.length_nil, Nat.add_zero] at hlength hlength'
    exact ⟨P, hP.trans hlength, hP.trans hlength'⟩
  · rintro ⟨P, hP, hP'⟩
    have := hbound P
    exact ⟨List.eq_nil_of_length_eq_zero (by omega), List.eq_nil_of_length_eq_zero (by omega)⟩

/-- With lines left out, the first of two entries takes the second of two targets, whose flows stand in another
order. -/
theorem comparison_of_reordered_flows_is_exact :
    let place (name : String) (line : Int) : Document := .list [.text name, .int line]
    let flow (tag : String) (calls : List Document) : Document := .list [.text tag, .list calls]
    let entry (name : String) (line : Int) (flows : List Document) : Document :=
      .record [("vulnerability", .text name), ("source", place "get" line), ("sink", place "sink" line),
        ("flows", .list flows)]
    let a (line : Int) := flow "explicit" [place "esc" line]
    let b := flow "implicit" []
    let output := [entry "A" 1 [a 2, b], entry "A" 2 [b]]
    let target := [entry "B" 1 [b], entry "A" 7 [b, a 8]]
    (∀ d ∈ output, isEntry .plain d = .ok true) ∧ (∀ d ∈ target, isEntry .plain d = .ok true) ∧
      ∃ c, compare .plain { lines := true } output { missing := .list target } = .ok c ∧
        c.good = [entry "A" 1 [a 2, b]] ∧ c.extra = [entry "A" 2 [b]] ∧ c.missing = .list [entry "B" 1 [b]] ∧
        IsGreatest {n | ∃ P : Pairing (fun o d => sameEntry .plain { lines := true } o d = .ok true) output target,
          P.size = n} 1 := by
  intro place flow entry a b output target
  have houtput : ∀ d ∈ output, isEntry .plain d = .ok true := by
    simp only [output, List.forall_mem_cons]
    exact ⟨rfl, rfl, List.forall_mem_nil _⟩
  have htarget : ∀ d ∈ target, isEntry .plain d = .ok true := by
    simp only [target, List.forall_mem_cons]
    exact ⟨rfl, rfl, List.forall_mem_nil _⟩
  have hcompare : (compare .plain { lines := true } output { missing := .list target }).toOption.map
      (fun c => (c.good, c.extra, c.missing)) =
        some ([entry "A" 1 [a 2, b]], [entry "A" 2 [b]], .list [entry "B" 1 [b]]) := by
    cbv
  obtain ⟨good, extra, missing, hok, -, -, -, -, hgreatest, -⟩ :=
    comparison_is_exact .plain { lines := true } houtput htarget
  rw [hok] at hcompare
  cases hcompare
  exact ⟨houtput, htarget, _, hok, rfl, rfl, rfl, hgreatest⟩

end TaintFlow.Check
