import TaintFlow.Proofs.DirectFlow

/-
The flows that an evaluation takes in, for one pattern. Labels that are computed refer, under each name, to the last
pattern of the name that the path has. So what an operation adds for that pattern can be told exactly: a name that
is read and is a source, what is stored for a variable, and the sanitizer that flows pass in a call. A variable that
is assigned never becomes a source.

An expression that is neither a name nor a call evaluates its operands one after the other and pools their flows.
Only an attribute that is read as a value adds flows of its own.
-/
namespace TaintFlow

open Listing

/-! ## Labels that refer to a pattern -/

/-- Under the name the label refers to the path's own pattern at place `i`. -/
def MultiLabel.Refers (m : Taint) (name : String) (i : Nat) : Prop :=
  ∃ t, m.entries.get? name = some t ∧ t.pattern = .own i

namespace MultiLabel

instance {π : Type} (m : MultiLabel π) (name source : String) (f : Flow) : Decidable (m.Has name source f) :=
  decidable_of_iff (f ∈ ((m.entries.get? name).bind (·.label.flows.get? source)).getD []) (by
    unfold Has Label.Holds
    cases m.entries.get? name with
    | none => simp
    | some t => cases ht : t.label.flows.get? source <;> simp [ht])

variable {m : Taint} {name : String} {i : Nat}

theorem Refers.combine [SetOrder] (h : m.Refers name i) (k : Taint) : (m.combine k).Refers name i := by
  obtain ⟨t, ht, hp⟩ := h
  unfold Refers
  rw [get?_combine, ht]
  cases k.entries.get? name with
  | none => exact ⟨t, rfl, hp⟩
  | some u => exact ⟨join t u, rfl, hp⟩

theorem Refers.addSource (h : m.Refers name i) (view : PatternRef → Pattern) (source : String) (position : Position) :
    (m.addSource view source position).Refers name i := by
  obtain ⟨t, ht, hp⟩ := h
  unfold Refers
  rw [get?_addSource, ht]
  refine ⟨_, rfl, ?_⟩
  dsimp only
  split <;> exact hp

end MultiLabel

/-- A flow after a call, which sanitizes it if the function is a sanitizer of the pattern. -/
def Pattern.pass [SetOrder] (a : Pattern) (function : String) (line : Int) (f : Flow) : Flow :=
  if a.isSanitizer function then f.sanitize (.sanitizer function line) else f

theorem Pattern.position_pass [SetOrder] (a : Pattern) (function : String) (line : Int) (f : Flow) :
    (a.pass function line f).position = f.position := by
  unfold pass
  split <;> rfl

theorem Pattern.pass_of_bare [SetOrder] {a b : Pattern} (h : a.bare = b.bare) (function : String) (line : Int)
    (f : Flow) :
    a.pass function line f = b.pass function line f := by
  unfold pass
  rw [isSanitizer_of_bare h function]

/-- The variable has this flow from this source for this pattern name. -/
def Path.Has (p : Path) (x name source : String) (f : Flow) : Prop :=
  ∃ m, p.labels.get? x = some m ∧ m.Has name source f

namespace Path

variable {p : Path} {m : Taint} {name s x : String} {i : Nat} {f : Flow}

theorem lt_of_refers (h : p.clean.Refers name i) : i < p.patterns.length := by
  obtain ⟨t, ht, hp⟩ := h
  obtain ⟨j, hj, rfl, -⟩ := get?_clean ht
  cases hp
  exact hj

/-- Labels are for the last pattern of each name. -/
theorem exists_refers {a : Pattern} (h : (p.named a.name).getLast? = some a) :
    ∃ i, p.clean.Refers a.name i ∧ p.view (.own i) = a := by
  rw [← p.view_get?_clean a.name] at h
  obtain ⟨t, ht, hview⟩ := Option.map_eq_some_iff.1 h
  obtain ⟨i, -, rfl, -⟩ := get?_clean ht
  exact ⟨i, ⟨_, ht, rfl⟩, hview⟩

theorem exists_refers_of_mem {a : Pattern} (h : a ∈ p.patterns) : ∃ i, p.clean.Refers a.name i := by
  obtain ⟨b, hb⟩ := Option.isSome_iff_exists.1 (List.getLast?_isSome.2 (List.ne_nil_of_mem (mem_named.2 ⟨h, rfl⟩)))
  have hname := (mem_named.1 (List.mem_of_getLast? hb)).2
  obtain ⟨i, hi, -⟩ := exists_refers (a := b) (hname ▸ hb)
  exact ⟨i, hname ▸ hi⟩

/-- Growing changes no flow of a variable. -/
theorem Grows.has {N : String → Prop} {q : Path} (h : p.Grows N q) : q.Has x name s f ↔ p.Has x name s f := by
  constructor
  · rintro ⟨m, hm, hf⟩
    rcases h.filled x m hm with hm | ⟨-, -, rfl⟩
    · exact ⟨m, hm, hf⟩
    · exact absurd hf (p.not_has_clean name s f)
  · rintro ⟨m, hm, hf⟩
    exact ⟨m, h.labels x m hm, hf⟩

/-- A name that is read brings in a raw flow exactly if it is a source of the pattern. -/
theorem has_addSource (hm : m.Refers name i) {position : Position} :
    (p.addSource m x position).Has name s f ↔
      m.Has name s f ∨ (s = x ∧ f = { position } ∧ x ∈ (p.view (.own i)).sources) := by
  obtain ⟨t, ht, hp⟩ := hm
  unfold addSource
  rw [MultiLabel.has_addSource]
  refine or_congr_right (and_congr_right fun _ => and_congr_right fun _ => ?_)
  rw [ht]
  simp [hp, Pattern.isSource]

theorem has_addKnownSource (hm : m.Refers name i) (hi : i < p.patterns.length) {edition : Edition} {spot : Spot} :
    (p.addKnownSource edition m x spot).Has name s f ↔
      m.Has name s f ∨ (s = x ∧ f = { position := edition.place spot p.scope } ∧ x ∈ (p.view (.own i)).sources) := by
  unfold addKnownSource
  split
  · exact has_addSource hm
  · rename_i hknows
    refine (or_iff_left ?_).symm
    rintro ⟨-, -, hx⟩
    exact hknows (List.any_eq_true.2 ⟨_, view_own_mem hi, decide_eq_true hx⟩)

/-- A call passes every flow on. -/
theorem has_sanitize [SetOrder] (hm : m.Refers name i) (hi : i < p.patterns.length) {function : String} {line : Int} :
    (p.sanitize m function line).Has name s f ↔
      ∃ g, m.Has name s g ∧ f = (p.view (.own i)).pass function line g := by
  obtain ⟨t, ht, hp⟩ := hm
  unfold sanitize
  split
  · rw [MultiLabel.has_addSanitizer]
    unfold MultiLabel.Has Pattern.pass
    rw [ht]
    simp [hp]
  · rename_i hknows
    have hpass : ∀ g, (p.view (.own i)).pass function line g = g := fun g => by
      unfold Pattern.pass
      refine if_neg fun hs => hknows (List.any_eq_true.2 ⟨_, view_own_mem hi, hs⟩)
    simp [hpass]

end Path

/-- Labels that are computed refer to the patterns that the label without flows refers to. -/
theorem Accord.Fresh.refers {c : Accord} {m : Taint} {p : Path} {name : String} {i : Nat} (hm : c.Fresh m)
    (hp : p.patterns.map Pattern.bare = c.policy.map Pattern.bare) (h : p.clean.Refers name i) : m.Refers name i := by
  obtain ⟨t, ht, hi⟩ := h
  rw [Path.clean_eq (q := Path.start c.policy) hp] at ht
  obtain ⟨u, hu, hown⟩ := hm name t ht
  exact ⟨u, hu, hown.trans hi⟩

/-! ## Assigned variables -/

/-- The world has grown, but no variable that was assigned has become a source. -/
structure World.Spares (w v : World) : Prop where
  later : w.Later v
  sources : ∀ x ∈ w.path.initialized, ∀ i, x ∈ (v.path.view (.own i)).sources → x ∈ (w.path.view (.own i)).sources

namespace World

variable {u v w : World}

theorem Spares.trans (h : u.Spares v) (h' : v.Spares w) : u.Spares w :=
  ⟨h.later.trans h'.later, fun x hx i hs => h.sources x hx i (h'.sources x (h.later.path.initialized x hx) i hs)⟩

/-- Only the variable that is looked up becomes a source. -/
theorem spares_of_grows {x : String} {p : Path} (hx : x ∉ w.path.initialized) (h : w.path.Grows (· = x) p) :
    w.Spares { w with path := p } := by
  refine ⟨⟨h.mono fun _ _ => trivial, fun _ _ _ hr => hr⟩, fun y hy i hs => ?_⟩
  rcases (h.view_own i).new y hs with hs | rfl
  · exact hs
  · exact absurd hy hx

end World

/-- Worlds go on without making a source of a variable that is assigned. -/
def Discipline.sparing (edition : Edition) : Discipline where
  edition := edition
  Inv _ := True
  Later := World.Spares
  Value _ _ := True
  Stored _ _ := True
  refl w := ⟨.refl w, fun _ _ _ hs => hs⟩
  trans := .trans

theorem Discipline.lawful_sparing [SetOrder] (edition : Edition) : (sparing edition).Lawful fun _ => True := by
  constructor
  case discover =>
    exact fun {w x} _ _ hx => ⟨trivial, World.spares_of_grows hx (Path.grows_discover (N := (· = x)) rfl _)⟩
  case discoverImplicit =>
    exact fun {w x} _ _ hx => ⟨trivial, World.spares_of_grows hx (Path.grows_discoverImplicit (N := (· = x)) rfl _)⟩
  case fill =>
    exact fun _ _ hi hn => ⟨trivial, ⟨Path.grows_fill trivial hi hn, fun _ _ _ hr => hr⟩, fun _ _ _ hs => hs⟩
  case flag =>
    intro w x spot m kind _ _ _ _
    refine ⟨trivial, ⟨Eval.grows_flag edition x spot m kind w, fun y _ i hs => ?_⟩, fun _ _ => trivial⟩
    rwa [show (sparing edition).edition = edition from rfl, Eval.path_flag] at hs
  all_goals intros; trivial

/-- Evaluating an expression makes no source of a variable that is assigned. -/
theorem Expr.spares_evaluate [SetOrder] {edition : Edition} {e : Expr} {context : Context} {w v : World}
    {r : Except Fault Taint} (h : (e.evaluate edition context).run w = (r, v)) : w.Spares v := by
  have hholds := (Discipline.lawful_sparing edition).evaluate (e := e) (fun _ _ => trivial) context w trivial
  have hspares : w.Spares ((e.evaluate edition context).run w).2 := hholds.2.1
  rwa [h] at hspares

/-! ## Parts of expressions -/

namespace Expr

/-- The expressions that are evaluated for an expression. -/
def parts : Expr → List Expr
  | .call _ _ args _ => args
  | e => e.operands

theorem sizeOf_lt_of_mem_parts : ∀ {e part : Expr}, part ∈ e.parts → sizeOf part < sizeOf e
  | .attribute base attr spot, part, h | .unary base, part, h => by
    rw [List.mem_singleton.1 h]
    simp only [attribute.sizeOf_spec, unary.sizeOf_spec]
    omega
  | .subscript left right spot, part, h | .binary left right, part, h => by
    have hpart : part = left ∨ part = right := by simpa [parts, operands] using h
    rcases hpart with rfl | rfl <;> simp only [subscript.sizeOf_spec, binary.sizeOf_spec] <;> omega
  | .compare left rest, part, h => by
    have hlist : sizeOf part < sizeOf (left :: rest) := List.sizeOf_lt_of_mem h
    simp only [compare.sizeOf_spec, List.cons.sizeOf_spec] at hlist ⊢
    omega
  | .call _ _ values _, part, h | .boolean values, part, h => by
    have hlist : sizeOf part < sizeOf values := List.sizeOf_lt_of_mem h
    simp only [call.sizeOf_spec, boolean.sizeOf_spec]
    omega

/-- Induction over the parts of an expression. -/
theorem induction_on_parts {P : Expr → Prop} (h : ∀ e : Expr, (∀ part ∈ e.parts, P part) → P e) (e : Expr) : P e :=
  h e fun part _ => induction_on_parts h part
termination_by sizeOf e
decreasing_by exact sizeOf_lt_of_mem_parts ‹_›

theorem mem_allSites {es : List Expr} {e : Expr} {site : Site} (he : e ∈ es) (hs : site ∈ e.sites) :
    site ∈ allSites es := by
  induction es with
  | nil => cases he
  | cons e' es ih =>
    rw [allSites, List.mem_append]
    rcases List.mem_cons.1 he with rfl | he
    · exact .inl hs
    · exact .inr (ih he)

theorem mem_sites_of_mem_parts {site : Site} : ∀ {e part : Expr}, part ∈ e.parts → site ∈ part.sites → site ∈ e.sites
  | .attribute base attr spot, part, h, hs => by
    rw [List.mem_singleton.1 h] at hs
    rw [sites]
    exact List.mem_append_left _ hs
  | .unary operand, part, h, hs => by
    rw [List.mem_singleton.1 h] at hs
    rwa [sites]
  | .subscript container index spot, part, h, hs => by
    have hall : site ∈ allSites [container, index] := mem_allSites h hs
    rw [allSites, allSites, allSites, List.append_nil] at hall
    rw [sites]
    exact List.mem_append_left _ hall
  | .binary left right, part, h, hs => by
    have hall : site ∈ allSites [left, right] := mem_allSites h hs
    rwa [allSites, allSites, allSites, List.append_nil] at hall
  | .compare left rest, part, h, hs => by
    have hall : site ∈ allSites (left :: rest) := mem_allSites h hs
    rwa [allSites] at hall
  | .call _ _ args _, part, h, hs => by
    rw [sites]
    exact List.mem_append_left _ (mem_allSites h hs)
  | .boolean values, part, h, hs => by
    rw [sites]
    exact mem_allSites h hs

end Expr

/-! ## Names, receivers and functions -/

theorem Eval.bind_of_ok {α β : Type} {x : Eval α} {w u : World} {a : α} (h : x.run w = (.ok a, u)) (f : α → Eval β) :
    (x >>= f).run w = (f a).run u := by
  rw [run_bind, h]

theorem Eval.exists_ok_and {α : Type} {x : Eval α} {w : World} {P : α → Prop} (h : ∃ a ∈ (x.run w).1.toOption, P a) :
    ∃ a v, x.run w = (.ok a, v) ∧ P a := by
  generalize x.run w = r at h ⊢
  obtain ⟨r, v⟩ := r
  obtain ⟨a, ha, hp⟩ := h
  cases r with
  | error f => cases ha
  | ok b =>
    cases ha
    exact ⟨_, v, rfl, hp⟩

theorem Eval.path_of_flag [SetOrder] {edition : Edition} {sink : String} {spot : Spot} {m : Taint} {kind : FlowKind}
    {w v : World} {r : Except Fault Unit} (h : (flag edition sink spot m kind).run w = (r, v)) : v.path = w.path := by
  have hpath := path_flag edition sink spot m kind w
  rwa [h] at hpath

namespace Path

/-- The path after a name was read in a context. -/
def read (p : Path) (x : String) (context : Context) : Path :=
  if x ∉ p.initialized then
    if context = .value then (p.discover x).markInitialized x
    else if context = .condition then p.discoverImplicit x
    else p
  else if context = .control ∨ (p.labels.get? x).isSome then p
  else { p with labels := p.labels.update x p.clean }

/-- The path after a method of a variable was called. -/
def consult (p : Path) (receiver : String) : Path :=
  if receiver ≠ "" ∧ receiver ∉ p.initialized then (p.discover receiver).markInitialized receiver else p

theorem clean_discover (p : Path) (x : String) : ((p.discover x).markInitialized x).clean = p.clean := by
  have hgrows : p.Grows (fun _ => True) ((p.discover x).markInitialized x) := grows_discover trivial p
  exact hgrows.clean

theorem mem_sources_discover {p : Path} {i : Nat} (hi : i < p.patterns.length) (x : String) :
    x ∈ (((p.discover x).markInitialized x).view (.own i)).sources := by
  have hi' : i < ((p.discover x).markInitialized x).patterns.length := by
    show i < (p.patterns.map _).length
    rwa [List.length_map]
  obtain ⟨b, -, hb⟩ := List.mem_map.1 (view_own_mem hi')
  rw [← hb]
  exact mem_adjoin.2 (.inr rfl)

/-- A variable that is made a source brings in a raw flow for every pattern. -/
theorem has_discover {p : Path} {name x s : String} {i : Nat} {f : Flow} {position : Position}
    (hi : p.clean.Refers name i) :
    (((p.discover x).markInitialized x).addSource p.clean x position).Has name s f ↔ s = x ∧ f = { position } := by
  rw [has_addSource hi]
  simp [not_has_clean, mem_sources_discover (lt_of_refers hi)]

end Path

namespace Eval

variable {edition : Edition} {context : Context} {x r function : String} {spot : Spot} {w v : World} {m : Taint}
  {name s : String} {i : Nat} {f : Flow}

theorem readName_ok [SetOrder] (h : (readName edition x spot context).run w = (.ok m, v)) :
    v = { w with path := w.path.read x context } := by
  unfold readName at h
  rw [run_path_bind] at h
  unfold Path.read
  split at h
  · rename_i hx
    rw [if_pos hx]
    cases context <;> cases h <;> rfl
  · rename_i hx
    rw [if_neg hx]
    split at h
    · rename_i hc
      cases h
      rw [if_pos (.inl hc)]
    · rename_i hc
      rw [run_readAssigned] at h
      obtain ⟨-, rfl⟩ := Prod.mk.inj h
      simp only [hc, false_or]
      split <;> rfl

/-- Reading a name as a value brings in a raw flow if the name was not assigned or is a source, and what is stored
for an assigned variable; so does a test that reads an assigned variable. -/
theorem has_readName [SetOrder] (h : (readName edition x spot context).run w = (.ok m, v)) (hc : context ≠ .control)
    (hx : context = .value ∨ x ∈ w.path.initialized) (hi : w.path.clean.Refers name i) :
    m.Has name s f ↔
      (s = x ∧ f = { position := edition.place spot w.path.scope } ∧
        (x ∈ w.path.initialized → x ∈ (w.path.view (.own i)).sources)) ∨
      (x ∈ w.path.initialized ∧ w.path.Has x name s f) := by
  unfold readName at h
  rw [run_path_bind] at h
  by_cases hx' : x ∈ w.path.initialized
  · rw [if_neg (not_not_intro hx'), if_neg hc, run_readAssigned] at h
    cases h
    rw [MultiLabel.has_combine, Path.has_addKnownSource hi (Path.lt_of_refers hi)]
    have hlabel : ((w.path.labels.get? x).getD w.path.clean).Has name s f ↔ w.path.Has x name s f := by
      unfold Path.Has
      cases w.path.labels.get? x with
      | none => simp [Path.not_has_clean]
      | some l => simp
    rw [hlabel]
    simp [Path.not_has_clean, hx']
  · rw [if_pos hx'] at h
    obtain rfl := hx.resolve_right hx'
    cases h
    show (((w.path.discover x).markInitialized x).addSource ((w.path.discover x).markInitialized x).clean x
      (edition.place spot w.path.scope)).Has name s f ↔ _
    rw [Path.clean_discover, Path.has_discover hi]
    simp [hx']

theorem readReceiver_flows (h : (readReceiver edition r spot).run w = (.ok m, v)) :
    v = { w with path := w.path.consult r } ∧ ∀ {name i}, w.path.clean.Refers name i →
      ∀ {s f}, m.Has name s f ↔
        r ≠ "" ∧ r ∉ w.path.initialized ∧ s = r ∧ f = { position := edition.place spot w.path.scope } := by
  unfold readReceiver at h
  rw [run_path_bind] at h
  unfold Path.consult
  have hb : (decide (r ≠ "") && decide (r ∉ w.path.initialized)) = true ↔ r ≠ "" ∧ r ∉ w.path.initialized := by
    simp
  split at h
  · rename_i hr
    rw [hb] at hr
    rw [if_pos hr]
    cases h
    refine ⟨rfl, fun {name i} hi {s f} => ?_⟩
    show (((w.path.discover r).markInitialized r).addSource ((w.path.discover r).markInitialized r).clean r
      (edition.place spot w.path.scope)).Has name s f ↔ _
    rw [Path.clean_discover, Path.has_discover hi]
    simp [hr]
  · rename_i hr
    rw [hb] at hr
    rw [if_neg hr]
    cases h
    refine ⟨rfl, fun _ {s f} => ⟨fun hf => absurd hf (w.path.not_has_clean _ _ _), ?_⟩⟩
    rintro ⟨h₁, h₂, -⟩
    exact absurd ⟨h₁, h₂⟩ hr

end Eval

/-! ## Calls and operands -/

namespace Expr

variable {edition : Edition} {context : Context} {w v : World} {m : Taint}

/-- A call reads its receiver and then its arguments, and passes on their flows and its own. -/
theorem call_flows [SetOrder] {receiver function : String} {args : List Expr} {spot : Spot}
    (h : ((Expr.call receiver function args spot).evaluate edition context).run w = (.ok m, v)) :
    ∃ a w₁ m' k u, (Eval.readReceiver edition receiver spot).run w = (.ok a, w₁) ∧
      (Expr.evaluateArgs edition args a w₁.path.clean).run w₁ = (.ok (m', k), u) ∧ v.path = u.path ∧
      (context ≠ .control → ∀ {name i}, w.path.clean.Refers name i → ∀ {s f}, m.Has name s f ↔
        ∃ g, (m'.Has name s g ∨ (s = function ∧ g = { position := edition.place spot u.path.scope } ∧
          function ∈ (u.path.view (.own i)).sources)) ∧ f = (w.path.view (.own i)).pass function spot.line g) := by
  rw [Expr.evaluate.eq_def] at h
  obtain ⟨a, w₁, hr, h⟩ := Eval.bind_ok h
  obtain ⟨_, _, ho, h⟩ := Eval.bind_ok h
  cases ho
  obtain ⟨⟨m', k⟩, u, hargs, h⟩ := Eval.bind_ok h
  obtain ⟨⟨n, l⟩, v', happ, h⟩ := Eval.bind_ok h
  cases h
  obtain ⟨hw₁, ha⟩ := readReceiver_ok rfl hr
  obtain ⟨hu, hfresh, -, -⟩ := evaluateArgs_ok hargs ha
  have hwu := hw₁.trans hu
  rw [Eval.run_applyFunction] at happ
  obtain ⟨_, u₁, hexplicit, happ⟩ := Eval.bind_ok happ
  obtain ⟨_, u₂, himplicit, happ⟩ := Eval.bind_ok happ
  cases happ
  refine ⟨a, w₁, m', k, u, hr, hargs, (Eval.path_of_flag himplicit).trans (Eval.path_of_flag hexplicit), ?_⟩
  intro hc name i hi s f
  have hi' : u.path.clean.Refers name i := hwu.path.clean ▸ hi
  have hlt := Path.lt_of_refers hi'
  have hm' := hfresh.refers rfl hi
  have hknown : (u.path.addKnownSource edition m' function spot).Refers name i := by
    unfold Path.addKnownSource
    split
    · exact hm'.addSource _ _ _
    · exact hm'
  rw [if_neg hc, Path.has_sanitize hknown hlt]
  simp only [Path.has_addKnownSource hm' hlt, Pattern.pass_of_bare (hwu.path.view_own i).bare.symm]

/-- The flows that an attribute adds to those of its base when it is read as a value: the attribute may be a source, and
it may have a label of its own. -/
def Adds (edition : Edition) (p : Path) (name : String) (i : Nat) : Expr → String → Flow → Prop
  | .attribute _ attr spot, s, f =>
    (s = attr ∧ f = { position := edition.place spot p.scope } ∧ attr ∈ (p.view (.own i)).sources) ∨ p.Has attr name s f
  | _, _, _ => False

/-- An expression of operands. -/
def compound : Expr → Bool
  | .name _ _ | .call _ _ _ _ | .fails _ => false
  | _ => true

theorem has_clean_combine [SetOrder] {p : Path} {m : Taint} {name s : String} {f : Flow} :
    (p.clean.combine m).Has name s f ↔ m.Has name s f := by
  rw [MultiLabel.has_combine]
  exact or_iff_right (p.not_has_clean name s f)

theorem path_of_flagContainer [SetOrder] {container : Expr} {spot : Spot} {m : Taint} {w v : World}
    {r : Except Fault Unit} (h : (Eval.flagContainer edition container spot m).run w = (r, v)) : v.path = w.path := by
  unfold Eval.flagContainer at h
  split at h
  · exact Eval.path_of_flag h
  · cases h
    rfl
  · cases h
    rfl

theorem evaluateAll_nil [SetOrder] (m : Taint) (w : World) :
    (Expr.evaluateAll edition context [] m).run w = (.ok m, w) := by
  rw [Expr.evaluateAll.eq_def]
  rfl

theorem evaluateAll_cons [SetOrder] (e : Expr) (rest : List Expr) (m : Taint) :
    Expr.evaluateAll edition context (e :: rest) m =
      e.evaluate edition context >>= fun a => Expr.evaluateAll edition context rest (m.combine a) := by
  rw [Expr.evaluateAll.eq_def]

/-- The label that operands are added to does not matter for the world, and only its own flows matter for the result. -/
theorem evaluateAll_start [SetOrder] : ∀ {operands : List Expr} {m n m' : Taint} {w v : World},
    (Expr.evaluateAll edition context operands m).run w = (.ok m', v) →
    (∀ name s f, m.Has name s f ↔ n.Has name s f) →
    ∃ n', (Expr.evaluateAll edition context operands n).run w = (.ok n', v) ∧
      ∀ name s f, m'.Has name s f ↔ n'.Has name s f
  | [], m, n, m', w, v, h, hmn => by
    rw [Expr.evaluateAll.eq_def] at h ⊢
    cases h
    exact ⟨n, rfl, hmn⟩
  | e :: rest, m, n, m', w, v, h, hmn => by
    rw [Expr.evaluateAll.eq_def] at h ⊢
    obtain ⟨a, u, he, h⟩ := Eval.bind_ok h
    dsimp only
    rw [Eval.bind_of_ok he]
    exact evaluateAll_start h fun name s f => by rw [MultiLabel.has_combine, MultiLabel.has_combine, hmn]

/-- An expression of operands pools their flows, and adds its own if it is an attribute that is read as a value. -/
theorem compound_flows [SetOrder] : ∀ {e : Expr} {w v : World} {m : Taint}, e.compound = true →
    (e.evaluate edition context).run w = (.ok m, v) →
    ∃ m' u, (Expr.evaluateAll edition context e.operands w.path.clean).run w = (.ok m', u) ∧ v.path = u.path ∧
      ∀ {name i}, w.path.clean.Refers name i → ∀ {s f}, m.Has name s f ↔
        m'.Has name s f ∨ (context = .value ∧ e.Adds edition v.path name i s f)
  | .attribute base attr spot, w, v, m, _, h => by
    rw [Expr.evaluate.eq_def] at h
    obtain ⟨_, _, ho, h⟩ := Eval.bind_ok h
    cases ho
    obtain ⟨b, u, hb, h⟩ := Eval.bind_ok h
    have hall : (Expr.evaluateAll edition context [base] w.path.clean).run w = (.ok (w.path.clean.combine b), u) := by
      rw [evaluateAll_cons, Eval.bind_of_ok hb, evaluateAll_nil]
    refine ⟨_, u, hall, ?_⟩
    split at h
    · rename_i hc
      rw [Eval.run_readAttribute] at h
      cases h
      refine ⟨rfl, fun {name i} hi {s f} => ?_⟩
      have hlt : i < v.path.patterns.length := Path.lt_of_refers ((later_evaluate hb).path.clean ▸ hi)
      simp only [hc, true_and, Adds]
      unfold Path.Has
      cases v.path.labels.get? attr with
      | none => simp [Path.has_addKnownSource (hi.combine b) hlt]
      | some l => simp [Path.has_addKnownSource (hi.combine b) hlt, MultiLabel.has_combine, or_assoc]
    · rename_i hc
      cases h
      exact ⟨rfl, fun {name i} hi {s f} => by simp [hc]⟩
  | .subscript container index spot, w, v, m, _, h => by
    rw [Expr.evaluate.eq_def] at h
    obtain ⟨_, _, ho, h⟩ := Eval.bind_ok h
    cases ho
    obtain ⟨a, u, ha, h⟩ := Eval.bind_ok h
    obtain ⟨b, u', hb, h⟩ := Eval.bind_ok h
    refine ⟨(w.path.clean.combine a).combine b, u', ?_, ?_⟩
    · rw [operands, evaluateAll_cons, Eval.bind_of_ok ha, evaluateAll_cons, Eval.bind_of_ok hb, evaluateAll_nil]
    · split at h
      · obtain ⟨_, _, hflag, h⟩ := Eval.bind_ok h
        cases h
        exact ⟨path_of_flagContainer hflag, fun {name i} hi {s f} => by simp [Adds]⟩
      · cases h
        exact ⟨rfl, fun {name i} hi {s f} => by simp [Adds]⟩
  | .binary left right, w, v, m, _, h => by
    rw [Expr.evaluate.eq_def] at h
    obtain ⟨_, _, ho, h⟩ := Eval.bind_ok h
    cases ho
    obtain ⟨a, u, ha, h⟩ := Eval.bind_ok h
    obtain ⟨b, u', hb, h⟩ := Eval.bind_ok h
    cases h
    refine ⟨(w.path.clean.combine a).combine b, v, ?_, rfl, fun {name i} hi {s f} => by simp [Adds]⟩
    rw [operands, evaluateAll_cons, Eval.bind_of_ok ha, evaluateAll_cons, Eval.bind_of_ok hb, evaluateAll_nil]
  | .compare left rest, w, v, m, _, h => by
    rw [Expr.evaluate.eq_def] at h
    obtain ⟨a, u, ha, h⟩ := Eval.bind_ok h
    -- the first operand starts the pool
    obtain ⟨m', hrest, hm'⟩ := evaluateAll_start h fun name s f => has_clean_combine (p := w.path).symm
    refine ⟨m', v, ?_, rfl, fun {name i} hi {s f} => by simp [Adds, hm']⟩
    rw [operands, evaluateAll_cons, Eval.bind_of_ok ha, hrest]
  | .unary operand, w, v, m, _, h => by
    rw [Expr.evaluate.eq_def] at h
    refine ⟨w.path.clean.combine m, v, ?_, rfl, fun {name i} hi {s f} => by simp [Adds, has_clean_combine]⟩
    rw [operands, evaluateAll_cons, Eval.bind_of_ok h, evaluateAll_nil]
  | .boolean values, w, v, m, _, h => by
    rw [Expr.evaluate.eq_def] at h
    obtain ⟨_, _, ho, h⟩ := Eval.bind_ok h
    cases ho
    exact ⟨m, v, h, rfl, fun {name i} hi {s f} => by simp [Adds]⟩
  | .inert, w, v, m, _, h | .missing, w, v, m, _, h => by
    rw [Expr.evaluate.eq_def] at h
    cases h
    exact ⟨w.path.clean, w, by rw [operands, evaluateAll_nil], rfl, fun {name i} hi {s f} => by simp [Adds]⟩

end Expr

end TaintFlow
