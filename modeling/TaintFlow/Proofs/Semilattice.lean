import TaintFlow.Proofs.Ownership

/-
Labels form a semilattice, also as things on a bench that are changed in place and refer to each other. A deed is one of
the operations on labels, multilabels and labellings; no deed on things of a bench comes to a fault or leaves a loose
reference. So whatever was done before, in any order, what is combined on a bench shows the combination of the values.
-/
namespace TaintFlow

/-! ## Deeds -/

/-- An operation on the things of a bench, which it names by number. -/
inductive Deed where
  | newLabel
  | sourceLabel (i : Nat) (source : String) (position : Position)
  | sanitizeLabel (i : Nat) (name : String) (line : Int)
  | combineLabels (i j : Nat)
  | newMultiLabel (patterns : List Nat)
  | track (i pattern : Nat)
  | addSource (i : Nat) (source : String) (position : Position)
  | addSanitizer (i : Nat) (name : String) (line : Int)
  | setLabel (i : Nat) (name : String) (label : Nat)
  | combineMultiLabels (i j : Nat)
  | newLabelling
  | assign (i : Nat) (x : String) (m : Option Nat)
  | combineLabellings (i j : Nat)

namespace Deed

def work [SetOrder] : Deed → Work Unit
  | newLabel => discard (Work.addLabel .empty)
  | sourceLabel i source position => Work.changeLabel i (·.addSource source position)
  | sanitizeLabel i name line => Work.changeLabel i (·.addSanitizer name line)
  | combineLabels i j => discard (Work.combineLabels i j)
  | newMultiLabel patterns => discard (Work.newMultiLabel patterns)
  | track i pattern => Work.track i pattern
  | addSource i source position => Work.addSource i source position
  | addSanitizer i name line => Work.addSanitizer i name line
  | setLabel i name label => Work.setLabel i name label
  | combineMultiLabels i j => discard (Work.combineMultiLabels i j)
  | newLabelling => discard (Work.addVariables {})
  | assign i x m => Work.changeVariables i (·.insert x m)
  | combineLabellings i j => discard (Work.combineLabellings i j)

/-- What the deed makes another thing refer to is on the bench. -/
def Allowed (b : Workbench) : Deed → Prop
  | newMultiLabel patterns => ∀ p ∈ patterns, p < b.patterns.length
  | track _ pattern => pattern < b.patterns.length
  | setLabel _ _ label => label < b.labels.length
  | assign _ _ m => ∀ k, m = some k → k < b.multiLabels.length
  | _ => True

end Deed

/-- The benches that deeds lead to, from one with patterns alone. -/
inductive Workbench.Reached [SetOrder] : Workbench → Prop where
  | start (edition : Edition) (patterns : List Pattern) : Reached { edition, patterns }
  | deed {b b' : Workbench} (d : Deed) : Reached b → d.Allowed b → d.work.Yields b () b' → Reached b'

namespace Work

open Workbench

variable {b : Workbench}

theorem Yields.discard {α : Type} {w : Work α} {a : α} {b' : Workbench} (h : w.Yields b a b') :
    Yields (discard w) b () b' :=
  h.bind (.pure _ _)

/-! ## Changes in place -/

theorem changeSlots_closed (hb : b.Closed) (i : Nat) {f : Table String Slot → Table String Slot}
    (hf : b.Fits (f (b.slots i))) : ∃ b', (changeSlots i f).Yields b () b' ∧ b'.Closed := by
  refine ⟨_, rfl, hb.of_le (Nat.le_refl _) (Nat.le_refl _) (Nat.le_of_eq List.length_set.symm) (fun t ht => ?_)
    fun t ht => .inl ht⟩
  rcases List.mem_or_eq_of_mem_set ht with ht | rfl
  · exact .inl ht
  · exact .inr hf

theorem fits_insert {t : Table String Slot} (ht : b.Fits t) (name : String) {s : Slot}
    (hs : s.pattern < b.patterns.length ∧ s.label < b.labels.length) : b.Fits (t.insert name s) := by
  intro name' s' h
  rw [Table.get?_insert] at h
  split at h
  · cases h
    exact hs
  · exact ht name' s' h

theorem track_closed (hb : b.Closed) (i : Nat) {pattern : Nat} (hp : pattern < b.patterns.length) :
    ∃ b', (track i pattern).Yields b () b' ∧ b'.Closed := by
  unfold track
  by_cases hc : (b.slots i).contains (b.pattern pattern).name = true
  · refine ⟨b, (Yields.bench b).bind ?_, hb⟩
    rw [if_pos hc]
    exact .pure _ _
  · obtain ⟨b₁, hadd, hb₁, hlt, -⟩ := addLabel_grows b {}
    have hfits := fits_insert ((hb₁.closed hb).fits_slots i) (b.pattern pattern).name (s := ⟨pattern, b.labels.length⟩)
      ⟨hp.trans_le hb₁.ext.patterns.length_le, hlt⟩
    obtain ⟨b₂, hchange, hb₂⟩ := changeSlots_closed (hb₁.closed hb) i
      (f := (·.insert (b.pattern pattern).name ⟨pattern, b.labels.length⟩)) hfits
    refine ⟨b₂, (Yields.bench b).bind ?_, hb₂⟩
    rw [if_neg hc]
    exact hadd.bind hchange

theorem setLabel_closed (hb : b.Closed) (i : Nat) (name : String) {label : Nat} (hl : label < b.labels.length) :
    ∃ b', (setLabel i name label).Yields b () b' ∧ b'.Closed := by
  refine changeSlots_closed hb i ?_
  have hfits := hb.fits_slots i
  cases hs : (b.slots i).get? name with
  | none => exact hfits
  | some s => exact fits_insert hfits name ⟨(hfits name s hs).1, hl⟩

theorem changeVariables_closed (hb : b.Closed) (i : Nat) (x : String) {m : Option Nat}
    (hm : ∀ k, m = some k → k < b.multiLabels.length) :
    ∃ b', (changeVariables i (·.insert x m)).Yields b () b' ∧ b'.Closed := by
  refine ⟨_, rfl, hb.of_le (Nat.le_refl _) (Nat.le_refl _) (Nat.le_refl _) (fun t ht => .inl ht) fun t ht => ?_⟩
  rcases List.mem_or_eq_of_mem_set ht with ht | rfl
  · exact .inl ht
  · refine .inr fun y k hk => ?_
    rw [Table.get?_insert] at hk
    split at hk
    · cases hk
      exact hm k rfl
    · exact hb.binds_bindings i y k hk

end Work

namespace Deed

open Work Workbench

variable {b : Workbench}

/-- A deed that is allowed on a closed bench is done without a fault, and leaves no loose reference. -/
theorem closed [SetOrder] (hb : b.Closed) (d : Deed) (hd : d.Allowed b) : ∃ b', d.work.Yields b () b' ∧ b'.Closed := by
  cases d with
  | newLabel =>
    obtain ⟨b', hyield, hb', -⟩ := addLabel_grows b .empty
    exact ⟨b', hyield.discard, hb'.closed hb⟩
  | sourceLabel i source position => exact ⟨_, rfl, hb.relabelled List.length_set⟩
  | sanitizeLabel i name line => exact ⟨_, rfl, hb.relabelled List.length_set⟩
  | combineLabels i j =>
    obtain ⟨b', hyield, hb', -⟩ := addLabel_grows b ((b.label i).combine (b.label j))
    exact ⟨b', ((Yields.bench b).bind hyield).discard, hb'.closed hb⟩
  | newMultiLabel patterns =>
    have hm : ∀ name t, (MultiLabel.ofPatterns b.pattern patterns).entries.get? name = some t →
        t.pattern < b.patterns.length := by
      intro name t ht
      obtain ⟨p, hp, he⟩ := List.mem_map.1 (Table.mem_of_get?_ofList ht)
      cases he
      exact hd p hp
    obtain ⟨k, b', hyield, hb', -⟩ := addMultiLabel_grows hm
    exact ⟨b', ((Yields.bench b).bind hyield).discard, hb'.closed hb⟩
  | track i pattern => exact track_closed hb i hd
  | addSource i source position =>
    have hyield := forM_changeLabel (fun s => (b.pattern s.pattern).isSource source) (·.addSource source position)
      (b.slots i).values b
    exact ⟨_, (Yields.bench b).bind hyield, hb.relabelled (length_setEach ..)⟩
  | addSanitizer i name line =>
    have hyield := forM_changeLabel (fun s => (b.pattern s.pattern).isSanitizer name) (·.addSanitizer name line)
      (b.slots i).values b
    exact ⟨_, (Yields.bench b).bind hyield, hb.relabelled (length_setEach ..)⟩
  | setLabel i name label => exact setLabel_closed hb i name hd
  | combineMultiLabels i j =>
    obtain ⟨k, b', hyield, hb', -⟩ := combineMultiLabels_grows hb i j
    exact ⟨b', hyield.discard, hb'.closed hb⟩
  | newLabelling =>
    obtain ⟨b', hyield, hb', -⟩ := addVariables_grows (b := b) (t := {}) fun x m h => (by cases h)
    exact ⟨b', hyield.discard, hb'.closed hb⟩
  | assign i x m => exact changeVariables_closed hb i x hd
  | combineLabellings i j =>
    obtain ⟨k, b', hyield, hb', -⟩ := combineLabellings_grows hb i j
    exact ⟨b', hyield.discard, hb'.closed hb⟩

end Deed

/-- The bench after a deed. -/
def Deed.after [SetOrder] (d : Deed) (b : Workbench) : Workbench := (d.work.run.run b).2

theorem Workbench.Reached.closed [SetOrder] {b : Workbench} (hb : b.Reached) : b.Closed := by
  induction hb with
  | start edition patterns => exact ⟨List.forall_mem_nil _, List.forall_mem_nil _⟩
  | deed d _ hd hyield ih =>
    -- a deed has one outcome, so the bench is the one without loose references
    obtain ⟨b₁, hyield₁, hb₁⟩ := d.closed ih hd
    rwa [(hyield.unique hyield₁).2]

theorem Workbench.Reached.after [SetOrder] {b : Workbench} (hb : b.Reached) (d : Deed) (hd : d.Allowed b) :
    (d.after b).Reached := by
  obtain ⟨b', hyield, -⟩ := d.closed hb.closed hd
  have hafter : d.after b = b' := congrArg Prod.snd hyield
  rw [hafter]
  exact .deed d hb hd hyield

/-! ## The laws -/

/-- Labels are sets of strands and combining is their union; a sanitizer is passed by every strand, so it respects
unions, other sanitizers and itself. Multilabels are combined name by name and labellings variable by variable, with
what one side has alone as it is there. On a bench that deeds led to, combining makes a new thing with that content, and
leaves everything else. -/
theorem labels_form_semilattice [SetOrder] :
    -- labels
    Joins Label.strands Label.combine .empty ∧
    (∀ (l : Label) (source : String) (position : Position),
      (l.addSource source position).strands = insert ⟨source, position, ∅⟩ l.strands) ∧
    (∀ (l k : Label) (name name' : String) (line line' : Int),
      (l.addSanitizer name line).strands = l.strands.image (Strand.pass (.sanitizer name line)) ∧
      ((l.combine k).addSanitizer name line).strands =
        ((l.addSanitizer name line).combine (k.addSanitizer name line)).strands ∧
      ((l.addSanitizer name line).addSanitizer name' line').strands =
        ((l.addSanitizer name' line').addSanitizer name line).strands ∧
      ((l.addSanitizer name line).addSanitizer name line).strands = (l.addSanitizer name line).strands) ∧
    (∀ (l : Label) (s : String), l.isTaintedBy s = true ↔ ∃ position, ⟨s, position, ∅⟩ ∈ l.strands) ∧
    -- multilabels and labellings
    (∀ π : Type,
      Joins MultiLabel.strands (MultiLabel.combine (π := π)) {} ∧
      (∀ (m k : MultiLabel π) (name : String), (m.combine k).entries.get? name =
        (m.entries.get? name).merge (fun t u => { t with label := t.label.combine u.label }) (k.entries.get? name)) ∧
      Joins Labelling.strands (Labelling.combine (π := π)) {} ∧
      ∀ (g h : Labelling π) (x : String), (g.combine h).get? x = (g.get? x).merge MultiLabel.combine (h.get? x)) ∧
    -- things on a bench
    ∀ b : Workbench, b.Reached → ∀ i j,
      (∃ k b', (Work.combineLabels i j).Yields b k b' ∧ b.Extends b' ∧
        b'.label k = (b.label i).combine (b.label j)) ∧
      (∃ k b', (Work.combineMultiLabels i j).Yields b k b' ∧ b.Extends b' ∧
        b'.multiLabel k = (b.multiLabel i).combine (b.multiLabel j)) ∧
      ∃ k b', (Work.combineLabellings i j).Yields b k b' ∧ b.Extends b' ∧
        ∀ x, b'.taint? k x = (b.taint? i x).merge MultiLabel.combine (b.taint? j x) := by
  refine ⟨Label.joins_combine, Label.strands_addSource, fun l k name name' line line' => ?_,
    fun l s => Label.isTaintedBy_iff,
    fun π => ⟨MultiLabel.joins_combine, MultiLabel.get?_combine, Labelling.joins_combine, Labelling.get?_combine⟩,
    fun b hb i j => ⟨?_, ?_, ?_⟩⟩
  · exact ⟨Label.strands_addSanitizer l name line, Label.strands_addSanitizer_combine l k name line,
      Label.strands_addSanitizer_comm l name name' line line', Label.strands_addSanitizer_self l name line⟩
  · obtain ⟨b', hyield, hb', -, hlabel⟩ := Work.addLabel_grows b ((b.label i).combine (b.label j))
    exact ⟨_, b', (Work.Yields.bench b).bind hyield, hb'.ext, hlabel⟩
  · obtain ⟨k, b', hyield, hb', -, hk, -⟩ := Work.combineMultiLabels_grows hb.closed i j
    exact ⟨k, b', hyield, hb'.ext, hk⟩
  · obtain ⟨k, b', hyield, hb', htaint⟩ := Work.combineLabellings_grows hb.closed i j
    exact ⟨k, b', hyield, hb'.ext, htaint⟩

namespace Gathering

/-- Calls to `get` are sources, and `esc` is a sanitizer. -/
def policy : List Pattern :=
  [{ name := "SQL", sources := ["get"], sinks := ["exec"], modes := [("esc", .text "show")], implicit := false }]

/-- Two labellings with a flow for `x` in each, which is raw in the first; in the second `y` shares the multilabel of
`x`. -/
def deeds : List Deed :=
  [.newMultiLabel [0], .addSource 0 "get" { line := 1 }, .newMultiLabel [0], .addSource 1 "get" { line := 2 },
    .addSanitizer 1 "esc" 3, .newLabelling, .assign 0 "x" (some 0), .newLabelling, .assign 1 "x" (some 1),
    .assign 1 "y" (some 1)]

/-- The bench after the deeds. -/
def bench : Workbench := deeds.foldl (fun b d => d.after b) { edition := .scoped, patterns := policy }

theorem reached_bench : bench.Reached := by
  have h₀ := Workbench.Reached.start .scoped policy
  have h₁ := h₀.after (.newMultiLabel [0]) (List.forall_mem_singleton.2 Nat.one_pos)
  have h₂ := h₁.after (.addSource 0 "get" { line := 1 }) trivial
  have h₃ := h₂.after (.newMultiLabel [0]) (List.forall_mem_singleton.2 (by decide +kernel))
  have h₄ := h₃.after (.addSource 1 "get" { line := 2 }) trivial
  have h₅ := h₄.after (.addSanitizer 1 "esc" 3) trivial
  have h₆ := h₅.after .newLabelling trivial
  have h₇ := h₆.after (.assign 0 "x" (some 0)) (by rintro _ ⟨⟩; decide +kernel)
  have h₈ := h₇.after .newLabelling trivial
  have h₉ := h₈.after (.assign 1 "x" (some 1)) (by rintro _ ⟨⟩; decide +kernel)
  exact h₉.after (.assign 1 "y" (some 1)) (by rintro _ ⟨⟩; decide +kernel)

/-- The strands of a variable for the pattern. -/
def strands? (b : Workbench) (i : Nat) (x : String) : Option (Finset Strand) :=
  ((b.taint? i x).bind (·.label? "SQL")).map Label.strands

end Gathering

/-- In the combination `x` has both flows and `y` the one that it has on its side. -/
theorem labellings_of_gathering_combine :
    ∃ k b', (Work.combineLabellings 0 1).Yields Gathering.bench k b' ∧ Gathering.bench.Extends b' ∧
      Gathering.strands? b' k "x" =
        some {⟨"get", { line := 1 }, ∅⟩, ⟨"get", { line := 2 }, {.sanitizer "esc" 3}⟩} ∧
      Gathering.strands? b' k "y" = some {⟨"get", { line := 2 }, {.sanitizer "esc" 3}⟩} ∧
      Gathering.strands? b' k "z" = none := by
  obtain ⟨k, b', hyield, hext, htaint⟩ :=
    (labels_form_semilattice.2.2.2.2.2 Gathering.bench Gathering.reached_bench 0 1).2.2
  refine ⟨k, b', hyield, hext, ?_⟩
  unfold Gathering.strands?
  rw [htaint, htaint, htaint]
  decide +kernel

end TaintFlow
