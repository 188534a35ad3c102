import Mathlib.Data.Fintype.EquivFin
import Mathlib.Data.List.FinRange
import TaintFlow.Proofs.Sameness

/-
Lists compared in any order. Two lists correspond if their places can be put in one-to-one correspondence, such that the
items at places that belong together are related. The comparison does not look for a correspondence: each item of
the first list takes the first item of the second that is the same, and never gives it back. It finds a correspondence
if there is one, because items that are the same have the same view, so that any of them serves as well.
-/
namespace TaintFlow.Check

open Document

/-- The items of the two lists are related, one to one. -/
def Matched (R : Document → Document → Prop) (xs ys : List Document) : Prop :=
  ∃ e : Fin xs.length ≃ Fin ys.length, ∀ i, R (xs.get i) (ys.get (e i))

/-! ## Correspondences of views -/

section

variable {κ : Type} {view : Document → κ} {xs ys : List Document}

theorem ofFn_comp_equiv {n m : Nat} (e : Fin n ≃ Fin m) (f : Fin m → κ) : (List.ofFn (f ∘ e)).Perm (List.ofFn f) := by
  obtain rfl : n = m := by simpa using Fintype.card_congr e
  exact Equiv.Perm.ofFn_comp_perm e f

theorem map_eq_ofFn (view : Document → κ) (xs : List Document) : xs.map view = List.ofFn fun i => view (xs.get i) :=
  (List.ofFn_getElem_eq_map xs view).symm

/-- As many places have a view as the view occurs in the list. -/
theorem card_places [DecidableEq κ] (view : Document → κ) (xs : List Document) (k : κ)
    [Fintype { i : Fin xs.length // view (xs.get i) = k }] :
    Fintype.card { i : Fin xs.length // view (xs.get i) = k } = (xs.map view).count k := by
  rw [Fintype.card_of_subtype (Finset.univ.filter fun i => view (xs.get i) = k) (by simp), map_eq_ofFn,
    List.ofFn_eq_map, List.count, List.countP_map, List.countP_eq_length_filter]
  rfl

/-- Lists correspond by their views if and only if the views of one are those of the other, in some order. -/
theorem matched_iff_perm : Matched (fun x y => view x = view y) xs ys ↔ (xs.map view).Perm (ys.map view) := by
  classical
  constructor
  · rintro ⟨e, he⟩
    have hcomp : (fun i => view (xs.get i)) = (fun j => view (ys.get j)) ∘ e := funext he
    rw [map_eq_ofFn, map_eq_ofFn, hcomp]
    exact ofFn_comp_equiv e _
  · intro hperm
    have hcard : ∀ k, Fintype.card { i : Fin xs.length // view (xs.get i) = k } =
        Fintype.card { j : Fin ys.length // view (ys.get j) = k } := by
      intro k
      rw [card_places, card_places, hperm.count_eq]
    -- places with the same view are matched among each other
    let fibers : ∀ k, { i : Fin xs.length // view (xs.get i) = k } ≃ { j : Fin ys.length // view (ys.get j) = k } :=
      fun k => Fintype.equivOfCardEq (hcard k)
    exact ⟨Equiv.ofFiberEquiv fibers, fun i => (Equiv.ofFiberEquiv_map fibers i).symm⟩

end

/-! ## Comparisons -/

section

variable {κ : Type} {D : Document → Prop} {view : Document → κ} {same : Document → Document → Except Fault Bool}

/-- A comparison that tells a view finds a correspondence of two lists if there is one. -/
theorem Tells.matched (h : Tells D view same) {xs ys : List Document} (hxs : ∀ x ∈ xs, D x) (hys : ∀ y ∈ ys, D y) :
    ∃ v, Check.samePairs same (.list xs) (.list ys) = .ok v ∧
      (v = true ↔ Matched (fun x y => same x y = .ok true) xs ys) := by
  obtain ⟨v, hv, hiff⟩ := h.pairOff hxs hys
  refine ⟨v, (samePairs_list same xs ys).trans hv, hiff.trans (matched_iff_perm.symm.trans ?_)⟩
  refine exists_congr fun e => forall_congr' fun i => ?_
  exact (h.same_iff (hxs _ (xs.get_mem i)) (hys _ (ys.get_mem (e i)))).symm

/-- Such a comparison is an equivalence, because equality of views is one. -/
theorem Tells.equivalence (h : Tells D view same) : Equivalence fun a b : { d // D d } => same a b = .ok true := by
  have hview : ∀ a b : { d // D d }, same a b = .ok true ↔ view a = view b := fun a b => h.same_iff a.2 b.2
  refine ⟨fun a => (hview a a).2 rfl, fun {a b} hab => ?_, fun {a b c} hab hbc => ?_⟩
  · rw [hview] at hab ⊢
    exact hab.symm
  · rw [hview] at hab hbc ⊢
    exact hab.trans hbc

end

/-- Whatever is left out of the comparison, two lists of sanitizers are the same if and only if they are matched by
sanitizers that are the same, or if sanitizers are left out altogether. Two lists of flows are the same if and only if
they are matched by flows that are the same. Entries that are the same are an equivalence. No comparison faults on
documents that pass the check. -/
theorem lists_compared_one_to_one (edition : Edition) (t : Tolerance) :
    (∀ xs ys, isSanitizers edition (.list xs) = true → isSanitizers edition (.list ys) = true →
      ∃ v, sameSanitizers edition t (.list xs) (.list ys) = .ok v ∧
        (v = true ↔ t.sanitizers = true ∨ Matched (fun x y => sameInstruction edition t x y = .ok true) xs ys)) ∧
    (∀ xs ys, (∀ x ∈ xs, isFlow edition x = true) → (∀ y ∈ ys, isFlow edition y = true) →
      ∃ v, sameFlows edition t (.list xs) (.list ys) = .ok v ∧
        (v = true ↔ Matched (fun x y => sameFlow edition t x y = .ok true) xs ys)) ∧
    (∀ a b, isEntry edition a = .ok true → isEntry edition b = .ok true → ∃ v, sameEntry edition t a b = .ok v) ∧
    Equivalence fun a b : { d // isEntry edition d = .ok true } => sameEntry edition t a b = .ok true := by
  refine ⟨fun xs ys hxs hys => ?_, fun xs ys hxs hys => (tells_sameFlow t).matched hxs hys, fun a b ha hb => ?_,
    (tells_sameEntry t).equivalence⟩
  · unfold sameSanitizers
    by_cases hs : t.sanitizers = true
    · exact ⟨true, if_pos hs, by simp [hs]⟩
    · rw [if_neg hs]
      simp only [hs, Bool.false_eq_true, false_or]
      exact (tells_sameInstruction t).matched (List.all_eq_true.1 hxs) (List.all_eq_true.1 hys)
  · obtain ⟨v, hv, -⟩ := tells_sameEntry t a b ha hb
    exact ⟨v, hv⟩

/-- Flows that are repeated, with their sanitizers in another order and at other columns, are matched; it matters how
often each of them stands in the lists. -/
theorem repeated_flows_compared_one_to_one :
    let place (name : String) (line column : Int) : Document := .list [.text name, .int line, .int column]
    let both (column : Int) : Document := .list [.text "explicit", .list [place "esc" 1 column, place "cut" 2 column]]
    let swapped : Document := .list [.text "explicit", .list [place "cut" 2 8, place "esc" 1 9]]
    let none : Document := .list [.text "implicit", .list []]
    let same (x y : Document) : Prop := sameFlow .scoped {} x y = .ok true
    Matched same [both 0, none, swapped] [none, both 3, both 4] ∧
      ¬ Matched same [both 0, none, swapped] [none, both 3, none] := by
  intro place both swapped none same
  obtain ⟨-, hflows, -⟩ := lists_compared_one_to_one .scoped {}
  have hyes : sameFlows .scoped {} (.list [both 0, none, swapped]) (.list [none, both 3, both 4]) = .ok true := by rfl
  have hno : sameFlows .scoped {} (.list [both 0, none, swapped]) (.list [none, both 3, none]) = .ok false := by rfl
  obtain ⟨v, hv, hiff⟩ := hflows [both 0, none, swapped] [none, both 3, both 4] (by decide) (by decide)
  obtain ⟨v', hv', hiff'⟩ := hflows [both 0, none, swapped] [none, both 3, none] (by decide) (by decide)
  rw [hyes] at hv
  rw [hno] at hv'
  cases hv
  cases hv'
  exact ⟨hiff.1 rfl, fun h => Bool.noConfusion (hiff'.2 h)⟩

end TaintFlow.Check
