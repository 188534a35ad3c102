import TaintFlow.Proofs.Extension
import TaintFlow.Proofs.PartAssign
import TaintFlow.Syntax.Reading

/-
What a step of the analysis can touch. Evaluating an expression touches no flow: the control stack, what conditions left
on the variables and the nesting level stay as they are, the variables keep their labels, and a label that is new has no
flows. What grows are the assigned variables and the sources of the patterns, and only by variables that occur in the
expression.

An assignment touches the names of its target and no other. A variable that is assigned loses the flows it had and gets
those of the value; what conditions left on it stays, with what the enclosing conditions and the value add to it.
-/
namespace TaintFlow

open Accord (LeftOn leftOn_update)

/-! ## Variables in documents -/

namespace Document

mutual

/-- The variables of a document: the names of its nodes of type `Name`, at any depth. -/
def idents : Document → List String
  | .list items => identsOfItems items
  | .record fields =>
    (if lookup "ast_type" fields = some (.text "Name") then [Reading.nameOf fields "id"] else []) ++
      identsOfFields fields
  | .null | .bool _ | .int _ | .float _ | .text _ => []

def identsOfItems : List Document → List String
  | [] => []
  | d :: rest => d.idents ++ identsOfItems rest

def identsOfFields : List (String × Document) → List String
  | [] => []
  | (_, d) :: rest => d.idents ++ identsOfFields rest

end

end Document

/-- The expression reads variables of `N` only. -/
def Expr.ReadsIn (N : String → Prop) (e : Expr) : Prop := ∀ site ∈ e.sites, ∀ x ∈ site.reads, N x

theorem Expr.readsIn_allSites {N : String → Prop} : ∀ {es : List Expr}, (∀ e ∈ es, e.ReadsIn N) →
    ∀ site ∈ allSites es, ∀ x ∈ site.reads, N x
  | [], _ => by
    rw [allSites]
    exact List.forall_mem_nil _
  | e :: es, h => by
    rw [List.forall_mem_cons] at h
    rw [allSites, List.forall_mem_append]
    exact ⟨h.1, readsIn_allSites h.2⟩

namespace Reading

/-- In every role that is evaluated, the document reads variables of `N` only. -/
structure Within (N : String → Prop) (r : Reading) : Prop where
  asVariable : ∀ x, r.asVariable = some x → N x
  expr : r.expr.ReadsIn N
  exprs : ∀ e ∈ r.exprs, e.ReadsIn N
  callee : ∀ receiver function, r.callee = .ok (receiver, function) → ∀ x ∈ Site.receiver receiver, N x

variable {N : String → Prop}

theorem readsIn_nothing {e : Expr} (h : e.sites = []) : e.ReadsIn N := by
  unfold Expr.ReadsIn
  rw [h]
  exact List.forall_mem_nil _

theorem within_default : Within N {} where
  asVariable x h := by cases h
  expr := readsIn_nothing rfl
  exprs := List.forall_mem_singleton.2 (readsIn_nothing rfl)
  callee := by
    intro receiver function h x hx
    cases h
    cases hx

theorem within_ofKeys (count : Nat) : (ofKeys count).Within N := by
  refine { within_default with exprs := fun e he => ?_ }
  rw [List.eq_of_mem_replicate he]
  exact readsIn_nothing rfl

theorem within_ofList {items : List Reading} (h : ∀ r ∈ items, r.Within N) : (ofList items).Within N := by
  refine { within_default with exprs := fun e he => ?_ }
  obtain ⟨r, hr, rfl⟩ := List.mem_map.1 he
  exact (h r hr).expr

theorem within_emptyRecord : emptyRecord.Within N := { within_ofKeys 0 with expr := readsIn_nothing rfl }

theorem Within.mono {M : String → Prop} {r : Reading} (h : r.Within N) (hM : ∀ x, N x → M x) : r.Within M where
  asVariable x hx := hM x (h.asVariable x hx)
  expr site hs x hx := hM x (h.expr site hs x hx)
  exprs e he site hs x hx := hM x (h.exprs e he site hs x hx)
  callee receiver function hc x hx := hM x (h.callee receiver function hc x hx)

section Fields

variable {kids : List (String × Reading)} (h : ∀ kid ∈ kids, kid.2.Within N)

include h

theorem within_find {other : Reading} (ho : other.Within N) (name : String) :
    (((kids.find? (·.1 = name)).map (·.2)).getD other).Within N := by
  cases hf : kids.find? (·.1 = name) with
  | none => exact ho
  | some kid => exact h kid (List.mem_of_find?_eq_some hf)

theorem within_child (name : String) : (child kids name).Within N := within_find h within_emptyRecord name

theorem within_children (name : String) : (children kids name).Within N :=
  within_find h (within_ofList (List.forall_mem_nil _)) name

/-- A node reads what its parts read, and itself if it is a variable. -/
theorem readsIn_exprOf {type : String} {fields : List (String × Document)}
    (hname : type = "Name" → N (nameOf fields "id")) : (exprOf type fields kids).ReadsIn N := by
  have hexpr := fun name => (within_child h name).expr
  have hexprs := fun name => Expr.readsIn_allSites (within_children h name).exprs
  have hnone : ∀ x ∈ ([] : List String), N x := List.forall_mem_nil _
  unfold exprOf
  split
  · split
    · unfold Expr.ReadsIn
      rw [Expr.sites, List.forall_mem_singleton]
      exact List.forall_mem_singleton.2 (hname rfl)
    · exact readsIn_nothing rfl
  · unfold Expr.ReadsIn
    rw [Expr.sites, List.forall_mem_append, List.forall_mem_singleton]
    exact ⟨hexpr "value", hnone⟩
  · unfold Expr.ReadsIn
    rw [Expr.sites, List.forall_mem_append, List.forall_mem_append, List.forall_mem_singleton]
    exact ⟨⟨hexpr "value", hexpr "slice"⟩, hnone⟩
  · unfold Expr.ReadsIn
    rw [Expr.sites, List.forall_mem_append]
    exact ⟨hexpr "left", hexpr "right"⟩
  · split
    · rename_i receiver function hcallee
      unfold Expr.ReadsIn
      rw [Expr.sites, List.forall_mem_append, List.forall_mem_singleton]
      exact ⟨hexprs "args", (within_child h "func").callee receiver function hcallee⟩
    · exact readsIn_nothing rfl
  · unfold Expr.ReadsIn
    rw [Expr.sites, List.forall_mem_append]
    exact ⟨hexpr "left", hexprs "comparators"⟩
  · exact hexpr "operand"
  · exact hexprs "values"
  · exact readsIn_nothing rfl

/-- The receiver of a method is a variable that the called function is an attribute of. -/
theorem receiver_calleeOf {type : String} {fields : List (String × Document)} {receiver function : String}
    (hcallee : calleeOf type fields kids = .ok (receiver, function)) : ∀ x ∈ Site.receiver receiver, N x := by
  unfold calleeOf at hcallee
  split at hcallee
  · cases hcallee
    exact List.forall_mem_nil _
  · split at hcallee
    · cases hcallee
      cases hv : (child kids "value").asVariable with
      | none => exact List.forall_mem_nil _
      | some id =>
        unfold Site.receiver
        split
        · exact List.forall_mem_nil _
        · exact List.forall_mem_singleton.2 ((within_child h "value").asVariable id hv)
    · cases hcallee
  · cases hcallee
    exact List.forall_mem_nil _

/-- The roles of a node of the given type. -/
theorem within_node {type : String} {fields : List (String × Document)}
    (hname : type = "Name" → N (nameOf fields "id")) :
    Within N { ofKeys fields.length with
      isNode := true
      asVariable := variableOf type fields
      expr := exprOf type fields kids
      target := targetOf type fields kids
      stmt := stmtOf type fields kids
      callee := calleeOf type fields kids } := by
  refine { within_ofKeys fields.length with
    asVariable := fun x hx => ?_
    expr := readsIn_exprOf h hname
    callee := fun receiver function => receiver_calleeOf h }
  change (if type = "Name" then some (nameOf fields "id") else none) = some x at hx
  split at hx
  · rename_i ht
    cases hx
    exact hname ht
  · cases hx

theorem within_ofRecord {fields : List (String × Document)}
    (hname : Document.lookup "ast_type" fields = some (.text "Name") → N (nameOf fields "id")) :
    (ofRecord fields kids).Within N := by
  unfold ofRecord
  split
  · exact { within_ofKeys fields.length with expr := readsIn_nothing rfl }
  · exact { within_ofKeys fields.length with expr := readsIn_nothing rfl }
  · refine within_node h fun ht => ?_
    split at ht
    · rename_i s hs
      exact hname (ht ▸ hs)
    · exact absurd ht (by decide)

end Fields

mutual

/-- A document reads no variable that does not occur in it. -/
theorem within_ofDocument : ∀ d : Document, (ofDocument d).Within (· ∈ d.idents)
  | .text s => within_ofKeys s.length
  | .list items => within_ofList (within_ofItems items)
  | .record fields => by
    refine within_ofRecord (fun kid hkid => (within_ofFields fields kid hkid).mono fun x hx => ?_) fun hname => ?_
    · rw [Document.idents]
      exact List.mem_append_right _ hx
    · rw [Document.idents, if_pos hname]
      exact List.mem_append_left _ (List.mem_singleton_self _)
  | .null | .bool _ | .int _ | .float _ => within_default

theorem within_ofItems : ∀ items : List Document, ∀ r ∈ ofItems items, r.Within (· ∈ Document.identsOfItems items)
  | [] => List.forall_mem_nil _
  | d :: rest => by
    rw [ofItems, List.forall_mem_cons, Document.identsOfItems]
    exact ⟨(within_ofDocument d).mono fun x => List.mem_append_left _,
      fun r hr => (within_ofItems rest r hr).mono fun x => List.mem_append_right _⟩

theorem within_ofFields : ∀ fields : List (String × Document), ∀ kid ∈ ofFields fields,
    kid.2.Within (· ∈ Document.identsOfFields fields)
  | [] => List.forall_mem_nil _
  | (_, d) :: rest => by
    rw [ofFields, List.forall_mem_cons, Document.identsOfFields]
    exact ⟨(within_ofDocument d).mono fun x => List.mem_append_left _,
      fun kid hkid => (within_ofFields rest kid hkid).mono fun x => List.mem_append_right _⟩

end

end Reading

/-! ## Evaluations -/

/-- Evaluating an expression, in any context and also when a fault stops it, leaves the control stack, what conditions
left on the variables and the nesting level as they are. Every variable keeps its label, and only assigned
variables come to have one, without flows. Only variables that occur in the expression come to count as assigned or
become sources; in all else the patterns stay the same, in the same order. -/
theorem evaluation_leaves_flows_alone [SetOrder] (edition : Edition) (d : Document) (context : Context) (w : World) :
    let q := (((Expr.ofDocument d).evaluate edition context).run w).2.path
    q.control = w.path.control ∧ q.controlLabels = w.path.controlLabels ∧ q.scope = w.path.scope ∧
      (∀ x m, w.path.labels.get? x = some m → q.labels.get? x = some m) ∧
      (∀ x m, w.path.labels.get? x = none → q.labels.get? x = some m →
        x ∈ q.initialized ∧ ∀ name s f, ¬ m.Has name s f) ∧
      (∀ x ∈ w.path.initialized, x ∈ q.initialized) ∧
      (∀ x ∈ q.initialized, x ∈ w.path.initialized ∨ x ∈ d.idents) ∧
      List.Forall₂ (Pattern.Grows (· ∈ d.idents)) w.path.patterns q.patterns := by
  intro q
  have hreads : ∀ x, (Expr.ofDocument d).Reads x → x ∈ d.idents :=
    fun x ⟨site, hs, hx⟩ => (Reading.within_ofDocument d).expr site hs x hx
  have hgrows : w.path.Grows (· ∈ d.idents) q :=
    ((Expr.ofDocument d).grows_evaluate edition context w).path.mono hreads
  refine ⟨hgrows.control, hgrows.controlLabels, hgrows.scope, hgrows.labels, fun x m hnone hm => ?_,
    hgrows.initialized, fun x hx => (hgrows.found x hx).imp_right And.left, hgrows.patterns⟩
  rcases hgrows.filled x m hm with hold | ⟨-, hx, rfl⟩
  · rw [hnone] at hold
    cases hold
  · exact ⟨hx, w.path.not_has_clean⟩

/-- In `b.m(x, y)`, where only `x` was assigned, `b` and `y` are found as sources, and `x` gets a label without
flows. -/
theorem evaluation_of_method_call_leaves_flows_alone :
    let a : Pattern := { name := "A", sources := ["get"], sinks := ["m"], modes := [], implicit := false }
    let name (id : String) : Document := .record [("ast_type", .text "Name"), ("id", .text id)]
    let method : Document := .record [("ast_type", .text "Attribute"), ("value", name "b"), ("attr", .text "m")]
    let d : Document := .record [("ast_type", .text "Call"), ("func", method), ("args", .list [name "x", name "y"])]
    let p : Path := { (Path.start [a]).markInitialized "x" with scope := 2 }
    let q : Path := (((Expr.ofDocument d).evaluate .scoped .value).run ⟨p, {}⟩).2.path
    d.idents = ["b", "x", "y"] ∧ q.initialized = ["x", "b", "y"] ∧ q.patterns.map (·.sources) = [["get", "b", "y"]] ∧
      q.scope = 2 ∧ ∃ m, q.labels.get? "x" = some m ∧ ∀ name s f, ¬ m.Has name s f := by
  intro a name method d p q
  obtain ⟨-, -, hscope, -, hnew, -⟩ := evaluation_leaves_flows_alone .scoped d .value ⟨p, {}⟩
  obtain ⟨m, hm⟩ := Option.isSome_iff_exists.1 (show (q.labels.get? "x").isSome = true by decide +kernel)
  exact ⟨by decide +kernel, by decide +kernel, by decide +kernel, hscope, m, hm, (hnew "x" m rfl hm).2⟩

/-! ## Assignments -/

namespace Path

variable {N : String → Prop} {p q r : Path} {x y : String} {m k : Taint}

/-- The variable has the same flows on both paths, and conditions left the same flows on it. -/
def SameOn (x : String) (p q : Path) : Prop :=
  ∀ name s f, (q.Has x name s f ↔ p.Has x name s f) ∧
    (LeftOn q.controlLabels x name s f ↔ LeftOn p.controlLabels x name s f)

theorem SameOn.refl (x : String) (p : Path) : p.SameOn x p := fun _ _ _ => ⟨.rfl, .rfl⟩

theorem SameOn.trans (h : p.SameOn x q) (h' : q.SameOn x r) : p.SameOn x r :=
  fun name s f => ⟨(h' name s f).1.trans (h name s f).1, (h' name s f).2.trans (h name s f).2⟩

theorem Grows.sameOn (h : p.Grows N q) (x : String) : p.SameOn x q :=
  fun _ _ _ => ⟨h.has, by rw [h.controlLabels]⟩

/-- Assigning a variable leaves all others alone. -/
theorem sameOn_assign (hy : y ≠ x) (p : Path) (m k : Taint) :
    p.SameOn y { p with labels := p.labels.update x m, controlLabels := p.controlLabels.update x k } := by
  refine fun name s f => ⟨?_, ?_⟩
  · rw [has_assign, if_neg hy]
  · rw [leftOn_update, if_neg hy]

/-- What a name has before the value of an assignment is added. -/
theorem has_before_iff [SetOrder] {name s : String} {f : Flow} :
    (p.before x).Has name s f ↔ LeftOn p.controlLabels x name s f ∨ p.currentControl.Has name s f := by
  unfold before LeftOn
  cases p.controlLabels.get? x with
  | none => simp
  | some l => simp [MultiLabel.has_combine]

theorem Grows.currentControl [SetOrder] (h : p.Grows N q) : q.currentControl = p.currentControl := by
  unfold Path.currentControl
  rw [h.control, h.clean]

end Path

namespace Eval

variable {edition : Edition} {t : Target} {value : Expr} {spot : Spot} {x y : String} {p : Path}

/-- The names that are assigned are those of the target. -/
theorem names_takeTarget [SetOrder] : ∀ {t : Target} {taken : Taint × List String} {w v : World},
    (takeTarget edition t).run w = (.ok taken, v) → taken.2 = t.names
  | .name id, _, _, _, h => by
    cases h
    rfl
  | .attribute base attr, _, _, _, h => by
    cases h
    rfl
  | .subscript container whole, _, _, _, h => by
    obtain ⟨_, _, _, h⟩ := bind_ok h
    obtain ⟨_, _, _, h⟩ := bind_ok h
    cases container with
    | none =>
      cases h
      rfl
    | some id =>
      cases h
      rfl
  | .fails fault, _, _, _, h => by cases h

theorem preserves_sameOn_evaluate [SetOrder] (p : Path) (y : String) (e : Expr) (context : Context) :
    (e.evaluate edition context).Preserves fun w => p.SameOn y w.path :=
  fun w hw _ => ⟨hw.trans ((e.grows_evaluate edition context w).path.sameOn y), fun _ _ => trivial⟩

theorem preserves_sameOn_assignName [SetOrder] (p : Path) (hy : y ≠ x) (spot : Spot) (m k : Taint) :
    (assignName edition spot m k x).Preserves fun w => p.SameOn y w.path := by
  have hflag : ∀ (k : Taint) (kind : FlowKind),
      (flag edition x spot k kind).Preserves fun w => p.SameOn y w.path :=
    fun k kind => (secures_flag (T := fun _ => True) edition x spot k kind).preserves
  refine .path fun w _ _ => (hflag m .explicit).secures.bind fun _ => (hflag _ .implicit).secures.bind fun _ => ?_
  refine .path fun v hv _ => ?_
  exact (secures_setPath fun _ _ _ => ⟨hv.trans (Path.sameOn_assign hy v.path _ _), trivial⟩).bind fun _ =>
    preserves_pure _

theorem preserves_sameOn_assignNames [SetOrder] (p : Path) (spot : Spot) (m : Taint) :
    ∀ (names : List String) (k : Taint), y ∉ names →
      (assignNames edition spot m names k).Preserves fun w => p.SameOn y w.path
  | [], _, _ => preserves_pure _
  | name :: rest, k, hy => by
    rw [List.mem_cons, not_or] at hy
    exact (preserves_sameOn_assignName p hy.1 spot m k).bind fun _ => preserves_sameOn_assignNames p spot m rest _ hy.2

theorem secures_takeTarget [SetOrder] (p : Path) (t : Target) :
    Secures (fun w => p.SameOn y w.path) (fun _ => True) (takeTarget edition t) fun taken _ => taken.2 = t.names := by
  have hall : ∀ site ∈ t.sites {}, (fun _ : Site => True) site := fun _ _ => trivial
  have hkeep : (takeTarget edition t).Preserves fun w => p.SameOn y w.path :=
    preserves_takeTarget (fun _ _ h => h) (fun e _ => preserves_sameOn_evaluate p y e .value) t hall
  intro w hw _
  exact ⟨(hkeep w hw trivial).1, fun taken ht => names_takeTarget (Prod.ext ht rfl)⟩

/-- An assignment leaves a variable alone that is no name of its target, also when a fault stops it. -/
theorem preserves_sameOn_assign [SetOrder] (p : Path) (hy : y ∉ t.names) :
    (assign edition [t] value spot).Preserves fun w => p.SameOn y w.path := by
  have htake : ∀ m, Secures (fun w => p.SameOn y w.path) (fun _ => True) (takeTargets edition [t] m [])
      fun taken _ => True ∧ taken.2 = t.names :=
    fun m => (secures_takeTarget p t).bind fun taken => .pure fun _ _ hnames => ⟨trivial, hnames⟩
  refine preserves_clean.bind fun m => (htake m).bind fun taken => .assume fun hnames => ?_
  refine (preserves_sameOn_evaluate p y value .value).bind fun _ => preserves_clean.bind fun _ => ?_
  refine (preserves_sameOn_evaluate p y value .control).bind fun _ => ?_
  exact (preserves_sameOn_assignNames p spot _ taken.2 _ (hnames ▸ hy)).bind fun _ => preserves_pure _

/-- Nothing is detected at a name that is no sink. -/
theorem run_flag_of_not_sink [SetOrder] {sink : String} {w : World} (h : ∀ a ∈ w.path.patterns, a.isSink sink = false)
    (spot : Spot) (m : Taint) (kind : FlowKind) : (flag edition sink spot m kind).run w = (.ok (), w) := by
  rw [run_flag, if_pos]
  refine Table.isEmpty_iff.2 fun name => Option.eq_none_iff_forall_ne_some.2 fun t ht => ?_
  obtain ⟨i, _, hi, -, -, hsink, -⟩ := Path.get?_detect ht
  rw [h _ (Path.view_own_mem hi)] at hsink
  cases hsink

theorem exists_ok_assignName [SetOrder] {w : World} (hx : ∀ a ∈ w.path.patterns, a.isSink x = false) (spot : Spot)
    (m k : Taint) :
    ∃ k' v, (assignName edition spot m k x).run w = (.ok k', v) := by
  unfold assignName
  rw [run_path_bind, bind_of_ok (run_flag_of_not_sink hx spot m _), bind_of_ok (run_flag_of_not_sink hx spot _ _),
    run_path_bind]
  exact ⟨_, _, rfl⟩

/-- An assignment to a variable that is no sink goes through if its value can be evaluated. -/
theorem exists_ok_assign [SetOrder] {w u u' : World} {e k : Taint} (hx : ∀ a ∈ w.path.patterns, a.isSink x = false)
    (he : (value.evaluate edition .value).run { w with path := w.path.markInitialized x } = (.ok e, u))
    (hk : (value.evaluate edition .control).run u = (.ok k, u')) (spot : Spot) :
    ∃ r v, (assign edition [.name x] value spot).run w = (.ok r, v) := by
  have hgrows := ((Expr.later_evaluate he).trans (Expr.later_evaluate hk)).path
  have hx' : ∀ a ∈ u'.path.patterns, a.isSink x = false := by
    intro a ha
    obtain ⟨b, hb, hba⟩ := forall₂_mem_right hgrows.patterns a ha
    rw [← Pattern.isSink_of_bare hba.bare]
    exact hx b hb
  let m := w.path.clean.combine (w.path.markInitialized x).clean
  have htake : (takeTargets edition [.name x] w.path.clean []).run w =
      (.ok (m, [x]), { w with path := w.path.markInitialized x }) := rfl
  obtain ⟨k', v, hassign⟩ : ∃ k' v, (assignName edition spot (m.combine e) (u.path.clean.combine k) x).run u' =
      (.ok k', v) := exists_ok_assignName hx' spot _ _
  have hnames : (assignNames edition spot (m.combine e) [x] (u.path.clean.combine k)).run u' = (.ok k', v) :=
    bind_of_ok hassign _
  unfold assign
  rw [run_clean_bind, bind_of_ok htake, bind_of_ok he, run_clean_bind, bind_of_ok hk]
  exact ⟨_, _, bind_of_ok hnames _⟩

end Eval

/-- An assignment with one target touches the names of the target and no other, whether it goes through or not: every
other variable has the flows it had, and conditions left on it what they had left. If the target is a variable, it gets
exactly the flows of the value, evaluated with the variable marked as assigned. What conditions left on it stays, and
the flows of the enclosing conditions and those that conditions left on the value come to it, and no others. Such an
assignment goes through if the value can be evaluated and the variable is no sink. -/
theorem assignment_replaces_target_only [SetOrder] (edition : Edition) (t : Target) (value : Expr) (spot : Spot)
    (w : World) :
    (∀ y, y ∉ t.names → w.path.SameOn y ((Eval.assign edition [t] value spot).run w).2.path) ∧
      ∀ x, t = .name x →
        (∀ r v, (Eval.assign edition [t] value spot).run w = (.ok r, v) → ∃ e u k u',
          (value.evaluate edition .value).run { w with path := w.path.markInitialized x } = (.ok e, u) ∧
          (value.evaluate edition .control).run u = (.ok k, u') ∧
          ∀ name s f, (v.path.Has x name s f ↔ e.Has name s f) ∧
            (LeftOn v.path.controlLabels x name s f ↔
              LeftOn w.path.controlLabels x name s f ∨ w.path.currentControl.Has name s f ∨ k.Has name s f)) ∧
        ∀ e u k u', (value.evaluate edition .value).run { w with path := w.path.markInitialized x } = (.ok e, u) →
          (value.evaluate edition .control).run u = (.ok k, u') → (∀ a ∈ w.path.patterns, a.isSink x = false) →
          ∃ r v, (Eval.assign edition [t] value spot).run w = (.ok r, v) := by
  refine ⟨fun y hy => (Eval.preserves_sameOn_assign w.path hy w (.refl y _) trivial).1, ?_⟩
  rintro x rfl
  refine ⟨fun r v h => ?_, fun e u k u' he hk hx => Eval.exists_ok_assign hx he hk spot⟩
  have hnames : (Eval.assign edition (([] ++ [x]).map .name) value spot).run w = (.ok r, v) := h
  obtain ⟨e, k, u, u', he, hk, hm, hassign⟩ := Eval.assign_names_ok hnames
  obtain ⟨hcontrol, -, -, -, -, -, hpath⟩ := Eval.assignName_ok hassign
  have hgrows := ((Expr.later_evaluate he).trans (Expr.later_evaluate hk)).path
  refine ⟨e, u, k, u', he, hk, fun name s f => ⟨?_, ?_⟩⟩
  · rw [hpath, Path.has_assign, if_pos rfl, hm]
  · rw [hpath, leftOn_update, if_pos rfl, hcontrol, MultiLabel.has_combine, Path.has_before_iff, Expr.has_clean_combine,
      hgrows.controlLabels, hgrows.currentControl, or_assoc]
    rfl

/-- With `x = y` under a condition on `c`, the variable `x` loses the flow of `old` and gets that of `get`. Conditions
on `d`, which was there, on `c` and on `k`, which is on `y`, are left on it. Nothing changes for `y`. -/
theorem assignment_under_condition_replaces_target :
    let a : Pattern :=
      { name := "A", sources := ["get", "old", "c", "d", "k"], sinks := ["sink"], modes := [], implicit := true }
    let raw (source : String) : Taint := (Path.start [a]).addSource (Path.start [a]).clean source { line := 1 }
    let p : Path := { Path.start [a] with
      initialized := ["x", "y"]
      labels := (Labelling.update {} "x" (raw "old")).update "y" (raw "get")
      control := [raw "c"]
      controlLabels := (Labelling.update {} "x" (raw "d")).update "y" (raw "k") }
    let f : Flow := { position := { line := 1 } }
    ∃ r v, (Eval.assign .plain [.name "x"] (.name "y" { line := 2 }) { line := 2 }).run ⟨p, {}⟩ = (.ok r, v) ∧
      (v.path.Has "x" "A" "get" f ∧ ¬ v.path.Has "x" "A" "old" f) ∧
      (∀ s ∈ ["d", "c", "k"], LeftOn v.path.controlLabels "x" "A" s f) ∧ p.SameOn "y" v.path := by
  intro a raw p f
  let value : Expr := .name "y" { line := 2 }
  have he : ∃ e ∈ ((value.evaluate .plain .value).run ⟨p.markInitialized "x", {}⟩).1.toOption,
      e.Has "A" "get" f ∧ ¬ e.Has "A" "old" f := by decide +kernel
  have hk : ∃ k ∈ ((value.evaluate .plain .control).run
      ((value.evaluate .plain .value).run ⟨p.markInitialized "x", {}⟩).2).1.toOption,
      k.Has "A" "k" f := by decide +kernel
  have hc : p.currentControl.Has "A" "c" f := by decide +kernel
  have hd : LeftOn p.controlLabels "x" "A" "d" f := ⟨raw "d", rfl, by decide +kernel⟩
  obtain ⟨hothers, hname⟩ := assignment_replaces_target_only .plain (.name "x") value { line := 2 } ⟨p, {}⟩
  obtain ⟨hflows, htotal⟩ := hname "x" rfl
  obtain ⟨e, u, he', hget, hold⟩ := Eval.exists_ok_and he
  rw [he'] at hk
  obtain ⟨k, u', hk', hk⟩ := Eval.exists_ok_and hk
  obtain ⟨r, v, hrun⟩ := htotal e u k u' he' hk' (List.forall_mem_singleton.2 rfl)
  have hy := hothers "y" (by decide)
  rw [hrun] at hy
  obtain ⟨e₁, u₁, k₁, u₁', he₁, hk₁, hall⟩ := hflows r v hrun
  obtain ⟨h₁, rfl⟩ := Prod.mk.inj (he'.symm.trans he₁)
  obtain rfl := Except.ok.inj h₁
  obtain ⟨h₁, rfl⟩ := Prod.mk.inj (hk'.symm.trans hk₁)
  obtain rfl := Except.ok.inj h₁
  refine ⟨r, v, hrun, ⟨(hall _ _ _).1.2 hget, fun h => hold ((hall _ _ _).1.1 h)⟩, ?_, hy⟩
  simp only [List.forall_mem_cons]
  exact ⟨(hall _ _ _).2.2 (.inl hd), (hall _ _ _).2.2 (.inr (.inl hc)), (hall _ _ _).2.2 (.inr (.inr hk)),
    List.forall_mem_nil _⟩

end TaintFlow
