import Mathlib.Data.Set.Finite.List
import Mathlib.Data.String.Basic
import Mathlib.Order.Filter.AtTopBot.Basic
import Mathlib.Order.Filter.Finite
import TaintFlow.Proofs.Lockstep

/-
What a program has to work with. An analysis brings no names and no line numbers in that are not in the
program, the policy or the paths it starts from: a stock of these is enough for the whole run, and statements
about runs hold for every stock that is large enough. From a stock only finitely many flows can be made in the
plain edition, since no mark stands twice in a flow that passed a sanitizer, in whatever order its marks are
listed. In the scoped edition a position has a nesting level besides, which no stock bounds.
-/
namespace TaintFlow

open Filter

/-- The mark is a call of a sanitizer. -/
def Mark.IsCall (m : Mark) : Prop := ∃ function line, m = .sanitizer function line

/-! ## Stocks -/

/-- Names, numbers, lists of marks and patterns without their sources, from which flows and references are
made. -/
abbrev Stock := Finset String × Finset Int × Finset (List Mark) × Finset Pattern

namespace Stock

variable (S : Stock)

def names : Finset String := S.1

def numbers : Finset Int := S.2.1

def marks : Finset (List Mark) := S.2.2.1

def shapes : Finset Pattern := S.2.2.2

/-- The flow is made of what is in stock; nesting levels count in the plain edition only, where they are
all the same. -/
structure Makes (edition : Edition) (f : Flow) : Prop where
  line : f.position.line ∈ S.numbers
  column : f.position.column ∈ S.numbers
  scope : edition = .plain → f.position.scope ∈ S.numbers
  calls : ∀ k ∈ f.marks, ∃ function ∈ S.names, ∃ line ∈ S.numbers, k = .sanitizer function line
  once : f.marks.Nodup ∨ f.marks ∈ S.marks

/-- The reference is to a pattern of the path, or to one made of what is in stock. -/
def Refers : PatternRef → Prop
  | .own _ => True
  | .kept p => p.bare ∈ S.shapes ∧ ∀ s ∈ p.sources, s ∈ S.names

/-- The stock has the patterns of a policy, and the one behind references that point beyond it. -/
def Covers (policy : List Pattern) : Prop := ∀ i, ((Path.start policy).view (.own i)).bare ∈ S.shapes

theorem eventually_name (x : String) : ∀ᶠ S : Stock in atTop, x ∈ S.names :=
  (eventually_ge_atTop (({x}, ∅, ∅, ∅) : Stock)).mono fun _ h => h.1 (Finset.mem_singleton_self x)

theorem eventually_number (n : Int) : ∀ᶠ S : Stock in atTop, n ∈ S.numbers :=
  (eventually_ge_atTop ((∅, {n}, ∅, ∅) : Stock)).mono fun _ h => h.2.1 (Finset.mem_singleton_self n)

theorem eventually_marks (marks : List Mark) : ∀ᶠ S : Stock in atTop, marks ∈ S.marks :=
  (eventually_ge_atTop ((∅, ∅, {marks}, ∅) : Stock)).mono fun _ h => h.2.2.1 (Finset.mem_singleton_self marks)

theorem eventually_shape (p : Pattern) : ∀ᶠ S : Stock in atTop, p ∈ S.shapes :=
  (eventually_ge_atTop ((∅, ∅, ∅, {p}) : Stock)).mono fun _ h => h.2.2.2 (Finset.mem_singleton_self p)

/-- What large stocks have for each member of a list they have for all of them together. -/
theorem eventually_forall_mem {α β : Type} [Preorder β] (l : List α) {P : α → β → Prop}
    (h : ∀ a ∈ l, ∀ᶠ S in atTop, P a S) : ∀ᶠ S in atTop, ∀ a ∈ l, P a S :=
  (eventually_all_finite l.finite_toSet).2 h

theorem eventually_name_of_mem (o : Option String) : ∀ᶠ S : Stock in atTop, ∀ x ∈ o, x ∈ S.names := by
  cases o with
  | none => exact .of_forall fun _ x hx => (nomatch hx)
  | some x =>
    filter_upwards [eventually_name x] with S hx
    intro y hy
    cases hy
    exact hx

theorem eventually_makes (edition : Edition) {f : Flow} (h : ∀ k ∈ f.marks, k.IsCall) :
    ∀ᶠ S : Stock in atTop, S.Makes edition f := by
  have hcalls : ∀ᶠ S : Stock in atTop,
      ∀ k ∈ f.marks, ∃ function ∈ S.names, ∃ line ∈ S.numbers, k = .sanitizer function line := by
    refine eventually_forall_mem f.marks fun k hk => ?_
    obtain ⟨function, line, rfl⟩ := h k hk
    filter_upwards [eventually_name function, eventually_number line] with S hn hl
    exact ⟨function, hn, line, hl, rfl⟩
  filter_upwards [eventually_number f.position.line, eventually_number f.position.column,
    eventually_number f.position.scope, hcalls, eventually_marks f.marks] with S hl hc hs hk hm
  exact ⟨hl, hc, fun _ => hs, hk, .inr hm⟩

theorem eventually_refers : ∀ r : PatternRef, ∀ᶠ S : Stock in atTop, S.Refers r
  | .own _ => .of_forall fun _ => trivial
  | .kept p => (eventually_shape p.bare).and (eventually_forall_mem p.sources fun s _ => eventually_name s)

theorem eventually_covers (policy : List Pattern) : ∀ᶠ S : Stock in atTop, S.Covers policy := by
  filter_upwards [eventually_forall_mem policy fun p _ => eventually_shape p.bare,
    eventually_shape (default : Pattern).bare] with S hpolicy hdefault
  intro i
  rcases Path.view_own_mem_or_default (Path.start policy) i with h | h
  · exact hpolicy _ h
  · rw [h]
    exact hdefault

/-- What a reference shows on a path is made of what is in stock. -/
theorem view_mem {S : Stock} {policy : List Pattern} (hS : S.Covers policy) {p : Path}
    (hp : p.patterns.map Pattern.bare = policy.map Pattern.bare) (hs : ∀ q ∈ p.patterns, ∀ s ∈ q.sources, s ∈ S.names) :
    ∀ {r : PatternRef}, S.Refers r → (p.view r).bare ∈ S.shapes ∧ ∀ s ∈ (p.view r).sources, s ∈ S.names
  | .own i, _ => by
    refine ⟨Path.view_own_bare (q := Path.start policy) hp i ▸ hS i, ?_⟩
    rcases p.view_own_mem_or_default i with h | h
    · exact hs _ h
    · rw [h]
      exact fun s hs => (nomatch hs)
  | .kept _, hr => hr

end Stock

/-! ## Runs on a stock -/

namespace Accord

/-- Runs in which everything is made of what is in stock. -/
def stocked (edition : Edition) (policy : List Pattern) (strict full clear : Prop) (S : Stock) : Accord where
  edition := edition
  policy := policy
  strict := strict
  full := full
  clear := clear
  name := fun x => x ∈ S.names
  flow := fun name s f =>
    s ∈ S.names ∧ S.Makes edition f ∧ ∀ p ∈ policy, p.name = name → ∀ k ∈ f.marks, k.Listed edition p
  ref := fun name r => name ∈ policy.map (·.name) ∧ S.Refers r

variable {edition : Edition} {policy : List Pattern} {strict full clear : Prop}

theorem lawful_stocked (h : full → ¬ strict) {S : Stock} (hS : S.Covers policy) :
    (stocked edition policy strict full clear S).Lawful where
  listed := fun _ _ _ hf => hf.2.2
  own := fun _ hi => ⟨List.mem_map_of_mem (Path.view_own_mem (p := Path.start policy) hi), trivial⟩
  kept := fun _ _ _ hp hs hr => ⟨hr.1, Stock.view_mem hS hp hs hr.2⟩
  apart := h

theorem eventually_reads (id : String) (spot : Spot) :
    ∀ᶠ S : Stock in atTop, (stocked edition policy strict full clear S).Reads id spot := by
  filter_upwards [Stock.eventually_name id, Stock.eventually_number spot.line, Stock.eventually_number spot.column,
    Stock.eventually_number 0] with S hid hl hc h0
  refine ⟨hid, fun name scope => ⟨hid, ⟨?_, ?_, ?_, List.forall_mem_nil _, .inl List.nodup_nil⟩, ?_⟩⟩
  · cases edition <;> exact hl
  · cases edition
    · exact h0
    · exact hc
  · rintro rfl
    exact h0
  · exact fun _ _ _ => List.forall_mem_nil _

theorem eventually_sanitizes [SetOrder] (hpolicy : Policy.Coherent edition policy) (function : String) (line : Int) :
    ∀ᶠ S : Stock in atTop, (stocked edition policy strict full clear S).Sanitizes function line := by
  filter_upwards [Stock.eventually_name function, Stock.eventually_number line] with S hn hl
  rintro name s f ⟨hs, hf, hlisted⟩ hsan
  refine ⟨hs, { hf with
    calls := fun k hk => ?_
    once := .inl (Mark.nodup_extend _ _) }, fun p hp hname k hk => ?_⟩
  · rcases Mark.mem_extend.1 hk with hk | rfl
    · exact hf.calls k hk
    · exact ⟨function, hn, line, hl, rfl⟩
  · rcases Mark.mem_extend.1 hk with hk | rfl
    · exact hlisted p hp hname k hk
    · exact hpolicy.listed hsan hp hname line

/-! ## Programs fit large stocks -/

/-- Everything is allowed in a run, except perhaps that the program carries the fault of an unsettled
loop. -/
def lenient (clear : Prop) : Accord where
  edition := .plain
  policy := []
  strict := False
  full := False
  clear := clear
  name := fun _ => True
  flow := fun _ _ _ => True
  ref := fun _ _ => True

theorem open_lenient [SetOrder] (h : ¬ clear) : (lenient clear).Open :=
  ⟨fun _ => trivial, fun _ _ _ => trivial, fun _ _ _ _ _ _ _ => trivial, h⟩

mutual

theorem eventually_fits_expr [SetOrder] (hpolicy : Policy.Coherent edition policy) : ∀ e : Expr,
    e.Fits (lenient clear) → ∀ᶠ S : Stock in atTop, e.Fits (stocked edition policy strict full clear S)
  | .name id spot, _ => eventually_reads id spot
  | .attribute base attr spot, h => (eventually_fits_expr hpolicy base h.1).and (eventually_reads attr spot)
  | .subscript container index _, h =>
    (eventually_fits_expr hpolicy container h.1).and (eventually_fits_expr hpolicy index h.2)
  | .binary left right, h => (eventually_fits_expr hpolicy left h.1).and (eventually_fits_expr hpolicy right h.2)
  | .call receiver function args spot, h => by
    filter_upwards [eventually_reads receiver spot, eventually_reads function spot,
      eventually_sanitizes hpolicy function spot.line, eventually_fits_exprs hpolicy args h.2.2.2] with S hr hf hs ha
    exact ⟨fun _ => hr, hf, hs, ha⟩
  | .compare left rest, h => (eventually_fits_expr hpolicy left h.1).and (eventually_fits_exprs hpolicy rest h.2)
  | .unary operand, h => eventually_fits_expr hpolicy operand h
  | .boolean values, h => eventually_fits_exprs hpolicy values h
  | .inert, _ => .of_forall fun _ => trivial
  | .missing, _ => .of_forall fun _ => trivial
  | .fails _, h => .of_forall fun _ => h

theorem eventually_fits_exprs [SetOrder] (hpolicy : Policy.Coherent edition policy) : ∀ es : List Expr,
    Expr.FitAll (lenient clear) es → ∀ᶠ S : Stock in atTop, Expr.FitAll (stocked edition policy strict full clear S) es
  | [], _ => .of_forall fun _ => trivial
  | e :: rest, h => (eventually_fits_expr hpolicy e h.1).and (eventually_fits_exprs hpolicy rest h.2)

end

theorem eventually_fits_target [SetOrder] (hpolicy : Policy.Coherent edition policy) : ∀ t : Target,
    t.Fits (lenient clear) → ∀ᶠ S : Stock in atTop, t.Fits (stocked edition policy strict full clear S)
  | .name id, _ => Stock.eventually_name id
  | .attribute base attr, _ =>
    (Stock.eventually_name_of_mem base).and (Stock.eventually_name attr)
  | .subscript container whole, h =>
    (Stock.eventually_name_of_mem container).and (eventually_fits_expr hpolicy whole h.2)
  | .fails _, h => .of_forall fun _ => h

mutual

/-- A program fits every stock that is large enough. -/
theorem eventually_fits [SetOrder] (hpolicy : Policy.Coherent edition policy) : ∀ s : Stmt, s.Fits (lenient clear) →
    ∀ᶠ S : Stock in atTop, s.Fits (stocked edition policy strict full clear S)
  | .skip, _ => .of_forall fun _ => trivial
  | .block body, h => eventually_fits_all hpolicy body h
  | .assign targets value _, h =>
    (Stock.eventually_forall_mem targets fun t ht => eventually_fits_target hpolicy t (h.1 t ht)).and
      (eventually_fits_expr hpolicy value h.2)
  | .annotated target value _, h =>
    (eventually_fits_target hpolicy target h.1).and (eventually_fits_expr hpolicy value h.2)
  | .augmented target current value _, h =>
    (eventually_fits_target hpolicy target h.1).and
      ((eventually_fits_expr hpolicy current h.2.1).and (eventually_fits_expr hpolicy value h.2.2))
  | .eval value, h => eventually_fits_expr hpolicy value h
  | .branch test body orelse, h =>
    (eventually_fits_expr hpolicy test h.1).and
      ((eventually_fits hpolicy body h.2.1).and (eventually_fits hpolicy orelse h.2.2))
  | .loop test body orelse, h =>
    (eventually_fits_expr hpolicy test h.1).and
      ((eventually_fits hpolicy body h.2.1).and (eventually_fits hpolicy orelse h.2.2))
  | .each target iter body orelse _, h =>
    (eventually_fits_target hpolicy target h.1).and ((eventually_fits_expr hpolicy iter h.2.1).and
      ((eventually_fits hpolicy body h.2.2.1).and (eventually_fits hpolicy orelse h.2.2.2)))
  | .fails _, h => .of_forall fun _ => h

theorem eventually_fits_all [SetOrder] (hpolicy : Policy.Coherent edition policy) : ∀ body : List Stmt,
    Stmt.FitAll (lenient clear) body →
    ∀ᶠ S : Stock in atTop, Stmt.FitAll (stocked edition policy strict full clear S) body
  | [], _ => .of_forall fun _ => trivial
  | s :: rest, h => (eventually_fits hpolicy s h.1).and (eventually_fits_all hpolicy rest h.2)

end

end Accord

end TaintFlow
