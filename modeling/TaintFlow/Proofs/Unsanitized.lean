import TaintFlow.Proofs.Custody
import TaintFlow.Proofs.Reached
import TaintFlow.Proofs.Termination

/-
The analysis of a program that calls no sanitizer stops, in the plain edition. What keeps a search going is
a list of flows that grows from round to round. Where no flow passes a sanitizer, all flows are raw, and a raw
flow is told by the place where its source was read. Adding such a flow to a list and pooling two lists leave no
repetition, so a list of flows is never longer than the program has sites.
-/
namespace TaintFlow

open Filter Listing

/-! ## Raw flows -/

/-- The raw flow that starts at a site. -/
def Site.raw (site : Site) : Flow := { position := Edition.plain.place site.spot 0 }

/-- No call at the sites is one of a sanitizer of the pattern. -/
def Pattern.Spares (sites : List Site) (q : Pattern) : Prop :=
  ∀ receiver function spot, .call receiver function spot ∈ sites → q.isSanitizer function = false

/-- No flow of the label is repeated, and each has the property. -/
def Label.Each (P : Flow → Prop) (l : Label) : Prop :=
  ∀ s flows, l.flows.get? s = some flows → flows.Nodup ∧ ∀ f ∈ flows, P f

/-- The flows of the label are raw, from the sites, and not repeated. -/
def Label.Raw (sites : List Site) (l : Label) : Prop := l.Each (· ∈ sites.map Site.raw)

/-- The labels are raw, and the sites call no sanitizers of the patterns that they keep. -/
def MultiLabel.Raw (sites : List Site) (m : Taint) : Prop :=
  ∀ name t, m.entries.get? name = some t → (∀ q, t.pattern = .kept q → q.Spares sites) ∧ t.label.Raw sites

/-- What holds of both sides and of what is made of them holds of the combination. -/
theorem forall_merge {α : Type} {P : α → Prop} {f : α → α → α} {o o' : Option α} (ho : ∀ a, o = some a → P a)
    (ho' : ∀ b, o' = some b → P b) (hf : ∀ a, o = some a → ∀ b, o' = some b → P (f a b)) :
    ∀ c, o.merge f o' = some c → P c := by
  intro c h
  cases o with
  | none =>
    rw [Option.merge_none_left] at h
    exact ho' c h
  | some a =>
    cases o' with
    | none => exact ho c h
    | some b =>
      cases h
      exact hf a rfl b rfl

section

variable {sites : List Site}

namespace Label

theorem each_empty (P : Flow → Prop) : Label.empty.Each P := by
  intro s flows h
  cases h

theorem nodup_pool [SetOrder] {own : List Flow} (h : own.Nodup) (more : List Flow) : (pool own more).Nodup := by
  induction more generalizing own with
  | nil => exact h
  | cons f more ih => exact ih (SetOrder.nodup_members _ _)

theorem Each.combine [SetOrder] {P : Flow → Prop} {a b : Label} (ha : a.Each P) (hb : b.Each P) :
    (a.combine b).Each P := by
  intro s flows h
  rw [get?_combine] at h
  refine forall_merge (ha s) (hb s) (fun own hs more ht => ?_) flows h
  refine ⟨nodup_pool (ha s own hs).1 more, fun f hf => ?_⟩
  rcases mem_foldl_merge.1 hf with hf | hf
  · exact (ha s own hs).2 f hf
  · exact (hb s more ht).2 f hf

theorem Each.addSource {P : Flow → Prop} {l : Label} (h : l.Each P) (source : String) {position : Position}
    (hraw : P { position }) : (l.addSource source position).Each P := by
  have hown : ∀ s, ((l.flows.get? s).getD []).Nodup ∧ ∀ f ∈ (l.flows.get? s).getD [], P f := by
    intro s
    cases hs : l.flows.get? s with
    | none => exact ⟨List.nodup_nil, List.forall_mem_nil _⟩
    | some own => exact h s own hs
  intro s flows hs
  rw [get?_addSource] at hs
  split at hs
  · cases hs
    refine ⟨nodup_adjoin (hown s).1, fun f hf => ?_⟩
    rcases mem_adjoin.1 hf with hf | rfl
    · exact (hown s).2 f hf
    · exact hraw
  · exact h s flows hs

/-- A list of flows of a raw label is no longer than there are sites. -/
theorem Raw.length_le {l : Label} (h : l.Raw sites) {s : String} {flows : List Flow}
    (hs : l.flows.get? s = some flows) : flows.length ≤ sites.length := by
  obtain ⟨hnodup, hraw⟩ := h s flows hs
  simpa using (List.subperm_of_subset hnodup hraw).length_le

end Label

theorem Pattern.Spares.of_bare {a b : Pattern} (h : a.bare = b.bare) (ha : a.Spares sites) : b.Spares sites := by
  intro receiver function spot hcall
  rw [← Pattern.isSanitizer_of_bare h]
  exact ha receiver function spot hcall

theorem Path.spares_view {p : Path} (hp : ∀ q ∈ p.patterns, q.Spares sites) {r : PatternRef}
    (hr : ∀ q, r = .kept q → q.Spares sites) : (p.view r).Spares sites := by
  cases r with
  | own i =>
    rcases p.view_own_mem_or_default i with h | h
    · exact hp _ h
    · rw [h]
      exact fun _ _ _ _ => rfl
  | kept q => exact hr q rfl

namespace MultiLabel

theorem Raw.combine [SetOrder] {a b : Taint} (ha : a.Raw sites) (hb : b.Raw sites) : Raw sites (a.combine b) := by
  intro name t ht
  rw [get?_combine] at ht
  refine forall_merge (ha name) (hb name) (fun u hu v hv => ?_) t ht
  obtain ⟨hkept, hraw⟩ := ha name u hu
  exact ⟨hkept, hraw.combine (hb name v hv).2⟩

theorem raw_clean (p : Path) : Raw sites p.clean := by
  intro name t ht
  obtain ⟨i, -, rfl, -⟩ := Path.get?_clean ht
  exact ⟨fun q hq => (by cases hq), Label.each_empty _⟩

theorem Raw.addSource {m : Taint} (h : m.Raw sites) {site : Site} (hsite : site ∈ sites) (p : Path) (x : String) :
    Raw sites (p.addSource m x site.raw.position) := by
  intro name t ht
  have ht : (m.addSource p.view x site.raw.position).entries.get? name = some t := ht
  rw [get?_addSource] at ht
  obtain ⟨u, hu, rfl⟩ := Option.map_eq_some_iff.1 ht
  obtain ⟨hkept, hraw⟩ := h name u hu
  split
  · exact ⟨hkept, hraw.addSource x (List.mem_map_of_mem hsite)⟩
  · exact ⟨hkept, hraw⟩

/-- A call at the sites does not change raw labels. -/
theorem Raw.addSanitizer [SetOrder] {m : Taint} (h : m.Raw sites) {p : Path} (hp : ∀ q ∈ p.patterns, q.Spares sites)
    {receiver function : String} {spot : Spot} (hcall : .call receiver function spot ∈ sites) :
    Raw sites (m.addSanitizer p.view function spot.line) := by
  intro name t ht
  rw [get?_addSanitizer] at ht
  obtain ⟨u, hu, rfl⟩ := Option.map_eq_some_iff.1 ht
  have hspared := Path.spares_view hp (h name u hu).1 receiver function spot hcall
  -- the pattern of a label may be older than those of the path, but has the same sanitizers
  rw [hspared, if_neg Bool.false_ne_true]
  exact h name u hu

theorem Raw.fork {m : Taint} (h : m.Raw sites) {p : Path} (hp : ∀ q ∈ p.patterns, q.Spares sites) :
    Raw sites (m.mapPatterns p.keep) := by
  intro name t ht
  rw [get?_mapPatterns] at ht
  obtain ⟨u, hu, rfl⟩ := Option.map_eq_some_iff.1 ht
  obtain ⟨hkept, hraw⟩ := h name u hu
  refine ⟨fun q hq => ?_, hraw⟩
  cases hq
  exact Path.spares_view hp hkept

end MultiLabel

/-! ## Paths without sanitizers -/

/-- The sites call no sanitizers of the path's patterns, and all labels of the path are raw. -/
structure Path.Raw (sites : List Site) (p : Path) : Prop where
  patterns : ∀ q ∈ p.patterns, q.Spares sites
  stores : ∀ m, p.Stores m → m.Raw sites

theorem Path.Raw.bounded {p : Path} (h : p.Raw sites) : p.Bounded .plain sites.length := by
  rintro x name t ⟨m, hm, ht⟩ s flows hs
  exact ⟨((h.stores m (.inl ⟨x, hm⟩) name t ht).2).length_le hs, fun h => by cases h⟩

theorem Path.inherited_raw : Path.Inherited (Path.Raw sites) where
  fork p h := by
    refine ⟨h.patterns, fun m hm => ?_⟩
    obtain ⟨k, hk, rfl⟩ := stores_fork hm
    exact (h.stores k hk).fork h.patterns
  pop p h := ⟨h.patterns, fun m hm => h.stores m (stores_pop hm)⟩
  scope p k h := ⟨h.patterns, fun m hm => h.stores m hm⟩

/-- All labels are raw. -/
def Custody.raw (sites : List Site) : Custody where
  edition := .plain
  Kept p := p.Raw sites
  Later _ _ := True
  Sound _ m := m.Raw sites
  Reported _ := True
  refl _ := trivial
  trans _ _ := trivial

theorem Custody.lawful_raw [SetOrder] (sites : List Site) : (Custody.raw sites).Lawful (· ∈ sites) := by
  constructor
  case later => exact fun _ hm => hm
  case stores => exact fun hp hm => hp.stores _ hm
  case moves =>
    intro p q hp _ hpq hs
    refine ⟨⟨fun a ha => ?_, fun m hm => (hs m hm).elim (hp.stores m) id⟩, trivial⟩
    obtain ⟨b, hb, hba⟩ := forall₂_mem_right hpq a ha
    exact (hp.patterns b hb).of_bare hba.bare
  case combine => exact fun ha hb => ha.combine hb
  case clean => exact fun _ => MultiLabel.raw_clean _
  case source =>
    rintro p x _ m - ⟨site, hsite, -, rfl⟩ hm
    exact hm.addSource hsite p x
  case sanitized => exact fun hp hcall hm => hm.addSanitizer hp.patterns hcall
  case flag => exact fun _ _ _ _ _ => trivial

end

/-! ## The analysis stops -/

/-- If no call of a program is one of a sanitizer, there is a limit from which on the analysis does not reach the limit
of any loop, and has the same result at all of them. -/
theorem analysis_stops_without_sanitizers [SetOrder] {patterns : List Pattern} (tree : Document)
    (hcalls : ∀ receiver function spot, .call receiver function spot ∈ (Stmt.ofDocument tree).sites →
      ∀ q ∈ patterns, q.isSanitizer function = false) :
    ∃ limit₀ fault? paths report, fault? ≠ some .unsettled ∧ ∀ limit, limit₀ ≤ limit →
      analyseProgram .plain limit patterns (Stmt.ofDocument tree) =
        (fault?, { edition := .plain, limit, paths, report }) := by
  set program := Stmt.ofDocument tree
  have hclear : program.Fits (.lenient True) := (Reading.clear_ofDocument tree).stmt
  have hpolicy : Policy.Coherent .plain patterns := nofun
  obtain ⟨S, hS, hfits, hstart⟩ : ∃ S : Stock, S.Covers patterns ∧ program.Fits (.onStock .plain patterns S) ∧
      (Accord.onStock .plain patterns S).Tamed (Path.start patterns) :=
    ((Stock.eventually_covers patterns).and ((Accord.eventually_fits hpolicy program hclear).and
      (Accord.eventually_tamed_start .plain patterns))).exists
  have hraw : (Path.start patterns).Raw program.sites :=
    ⟨fun q hq receiver function spot hcall => hcalls receiver function spot hcall q hq,
      fun m hm => absurd hm (Path.not_stores_start patterns m)⟩
  -- every state is raw, so the states at which rounds end are bounded by the number of sites
  have hvisits : ∀ limit, ∀ q ∈ program.visits .plain limit [Path.start patterns] {},
      q.Bounded .plain program.sites.length := by
    intro limit q hq
    have hupholds := (Custody.lawful_raw program.sites).writes.upholds_analyse (fun _ => Iff.rfl)
      Path.inherited_raw limit program (fun _ hs => hs) [Path.start patterns] {}
      (List.forall_mem_singleton.2 hraw) trivial
    exact (hupholds.1 q (program.visits_subset_reached .plain limit _ _ hq)).bounded
  obtain ⟨y, hy, hrun⟩ := (Accord.stops_analyse hS program hfits [Path.start patterns] {}
    (List.forall_mem_singleton.2 hstart)).halts (.of_forall hvisits)
  obtain ⟨limit₀, hrun⟩ := eventually_atTop.1 hrun
  cases hpaths : y.paths? with
  | ok paths =>
    refine ⟨limit₀, none, paths, y.report, nofun, fun limit hle => ?_⟩
    have hy : program.analyse .plain limit [Path.start patterns] {} = y := hrun limit hle
    simp only [analyseProgram, Session.run, Session.start, hy, hpaths]
  | error fault =>
    refine ⟨limit₀, some fault, y.given, y.report, fun h => ?_, fun limit hle => ?_⟩
    · cases h
      exact hy (Run.paths?_eq_error.1 hpaths)
    · have hy : program.analyse .plain limit [Path.start patterns] {} = y := hrun limit hle
      simp only [analyseProgram, Session.run, Session.start, hy, hpaths]

namespace Rereading

/-- `x = get(x)` in a branch, in a loop over `x`, in a loop that does not end. -/
def tree : Document :=
  let assign : Document := .record [("ast_type", .text "Assign"), ("targets", .list [Wrapping.name "x"]),
    ("value", Wrapping.call "get" (Wrapping.name "x")), ("lineno", .int 2)]
  let branch : Document := .record [("ast_type", .text "If"), ("test", Wrapping.name "i"), ("body", .list [assign]),
    ("orelse", .list [])]
  let each : Document := .record [("ast_type", .text "For"), ("target", Wrapping.name "i"),
    ("iter", Wrapping.name "x"), ("body", .list [branch]), ("orelse", .list []), ("lineno", .int 1)]
  .record [("ast_type", .text "Module"), ("body", .list [.record [("ast_type", .text "While"),
    ("test", Wrapping.name "x"), ("body", .list [each]), ("orelse", .list [])]])]

theorem calls_tree {receiver function : String} {spot : Spot}
    (h : .call receiver function spot ∈ (Stmt.ofDocument tree).sites) : function = "get" := by
  have hsites : (Stmt.ofDocument tree).sites = [.name "x" { line := 2 }, .assigned "i" { line := 1 },
      .name "x" { line := 2 }, .name "i" { line := 2 }, .assigned "x" { line := 2 }, .name "x" { line := 2 },
      .call "" "get" { line := 2 }] := rfl
  rw [hsites] at h
  simp only [List.mem_cons, reduceCtorEq, false_or, List.not_mem_nil, or_false, Site.call.injEq] at h
  exact h.2.1

end Rereading

/-- The policy has the sanitizer `esc`, which the program does not call. -/
theorem analysis_of_rereading_stops :
    ∃ limit₀ fault? paths report, fault? ≠ some .unsettled ∧ ∀ limit, limit₀ ≤ limit →
      analyseProgram .plain limit Wrapping.policy (Stmt.ofDocument Rereading.tree) =
        (fault?, { edition := .plain, limit, paths, report }) := by
  refine analysis_stops_without_sanitizers Rereading.tree fun receiver function spot hcall q hq => ?_
  rw [Rereading.calls_tree hcall, List.mem_singleton.1 hq]
  rfl

end TaintFlow
