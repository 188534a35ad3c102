import TaintFlow.Proofs.Ahead
import TaintFlow.Syntax.Reading

/-
What a call is built from. The flows of a positional argument, as it would be evaluated on its own where the call
stands, are in the label of the call, with the mark of the function if that sanitizes them. By the time the argument
is evaluated the receiver and the arguments before it have been read, so the path is ahead of where the call
started.

All flows of a call come from its positional arguments, from the function itself and from a receiver that was not
assigned. The values of keyword arguments are never evaluated, nor is what is stored for a receiver that is
assigned, nor a receiver that is not a variable.
-/
namespace TaintFlow

/-! ## Arguments -/

namespace Expr

variable {edition : Edition}

theorem evaluateArgs_append [SetOrder] : ∀ {before after : List Expr} {m k : Taint} {r : Taint × Taint} {w v : World},
    (Expr.evaluateArgs edition (before ++ after) m k).run w = (.ok r, v) →
    ∃ m' k' u, (Expr.evaluateArgs edition before m k).run w = (.ok (m', k'), u) ∧
      (Expr.evaluateArgs edition after m' k').run u = (.ok r, v)
  | [], after, m, k, r, w, v, h => by
    refine ⟨m, k, w, ?_, h⟩
    rw [Expr.evaluateArgs.eq_def]
    rfl
  | e :: before, after, m, k, r, w, v, h => by
    rw [List.cons_append, Expr.evaluateArgs.eq_def] at h
    obtain ⟨a, w₁, ha, h⟩ := Eval.bind_ok h
    obtain ⟨b, w₂, hb, h⟩ := Eval.bind_ok h
    obtain ⟨m', k', u, hbefore, hafter⟩ := evaluateArgs_append h
    refine ⟨m', k', u, ?_, hafter⟩
    rw [Expr.evaluateArgs.eq_def]
    dsimp only
    rw [Eval.bind_of_ok ha, Eval.bind_of_ok hb, hbefore]

/-- Arguments make the world grow by the variables that they read. -/
theorem grows_evaluateArgs [SetOrder] : ∀ {args : List Expr} {m k : Taint} {r : Taint × Taint} {w v : World},
    (Expr.evaluateArgs edition args m k).run w = (.ok r, v) → w.Grows (fun x => ∃ e ∈ args, e.Reads x) v
  | [], m, k, r, w, v, h => by
    rw [Expr.evaluateArgs.eq_def] at h
    cases h
    exact .refl w
  | e :: rest, m, k, r, w, v, h => by
    rw [Expr.evaluateArgs.eq_def] at h
    obtain ⟨a, w₁, ha, h⟩ := Eval.bind_ok h
    obtain ⟨b, w₂, hb, h⟩ := Eval.bind_ok h
    have hvalue := e.grows_evaluate edition .value w
    have hcontrol := e.grows_evaluate edition .control w₁
    rw [ha] at hvalue
    rw [hb] at hcontrol
    have hfirst : ∀ x, e.Reads x → ∃ e' ∈ e :: rest, e'.Reads x := fun x hx => ⟨e, List.mem_cons_self .., hx⟩
    have hrest : ∀ x, (∃ e' ∈ rest, e'.Reads x) → ∃ e' ∈ e :: rest, e'.Reads x :=
      fun x ⟨e', he, hx⟩ => ⟨e', List.mem_cons_of_mem _ he, hx⟩
    exact (hvalue.mono hfirst).trans ((hcontrol.mono hfirst).trans ((grows_evaluateArgs h).mono hrest))

/-- The flows of arguments come from one of them, as it was evaluated when its turn came. -/
theorem evaluateArgs_origin [SetOrder] : ∀ {args : List Expr} {m k m' k' : Taint} {w v : World},
    (Expr.evaluateArgs edition args m k).run w = (.ok (m', k'), v) →
    ∀ {q s : String} {f : Flow}, m'.Has q s f → m.Has q s f ∨
      ∃ e ∈ args, ∃ u n u', w.Later u ∧ (e.evaluate edition .value).run u = (.ok n, u') ∧ n.Has q s f
  | [], m, k, m', k', w, v, h, q, s, f, hf => by
    rw [Expr.evaluateArgs.eq_def] at h
    cases h
    exact .inl hf
  | e :: rest, m, k, m', k', w, v, h, q, s, f, hf => by
    rw [Expr.evaluateArgs.eq_def] at h
    obtain ⟨a, w₁, ha, h⟩ := Eval.bind_ok h
    obtain ⟨b, w₂, hb, h⟩ := Eval.bind_ok h
    rcases evaluateArgs_origin h hf with hf | ⟨e', he, u, n, u', hu, hrun, hf⟩
    · rcases MultiLabel.has_combine.1 hf with hf | hf
      · exact .inl hf
      · exact .inr ⟨e, List.mem_cons_self .., w, a, w₁, .refl w, ha, hf⟩
    · have hlater := (later_evaluate ha).trans (later_evaluate hb)
      exact .inr ⟨e', List.mem_cons_of_mem _ he, u, n, u', hlater.trans hu, hrun, hf⟩

/-! ## Calls -/

variable {receiver function : String} {spot : Spot} {w v : World} {m : Taint}

/-- Receivers and arguments that are read before an argument leave it on a path ahead. -/
theorem behind_argument [SetOrder] {before : List Expr} {arg : Expr} {a k : Taint} {r : Taint × Taint} {w₁ u : World}
    (hreceiver : (Eval.readReceiver edition receiver spot).run w = (.ok a, w₁))
    (hbefore : (Expr.evaluateArgs edition before a k).run w₁ = (.ok r, u))
    (hnew : ∀ x, arg.Invokes x → x ∈ w.path.initialized ∨ (x ≠ receiver ∧ ∀ e ∈ before, ¬ e.Reads x)) :
    w.path.Behind arg.Invokes u.path := by
  obtain ⟨rfl, -⟩ := Eval.readReceiver_flows hreceiver
  have hgrows : w.path.Grows (fun x => x = receiver ∨ ∃ e ∈ before, e.Reads x) u.path :=
    ((w.path.grows_consult receiver).mono fun _ => .inl).trans ((grows_evaluateArgs hbefore).path.mono fun _ => .inr)
  refine hgrows.behind fun x hx hread => (hnew x hx).elim id fun ⟨hne, hfresh⟩ => ?_
  rcases hread with rfl | ⟨e, he, hread⟩
  · exact absurd rfl hne
  · exact absurd hread (hfresh e he)

/-- The flows of a positional argument are passed on. -/
theorem call_has_argument [SetOrder] {before after : List Expr} {arg : Expr} {n : Taint} {u : World}
    (hrun : ((Expr.call receiver function (before ++ arg :: after) spot).evaluate edition .value).run w = (.ok m, v))
    (harg : (arg.evaluate edition .value).run w = (.ok n, u))
    (hnew : ∀ x, arg.Invokes x → x ∈ w.path.initialized ∨ (x ≠ receiver ∧ ∀ e ∈ before, ¬ e.Reads x))
    {name s : String} {i : Nat} {f : Flow} (hi : w.path.clean.Refers name i) (hf : n.Has name s f) :
    m.Has name s ((w.path.view (.own i)).pass function spot.line f) := by
  obtain ⟨a, w₁, m', k, u', hreceiver, hargs, -, hm⟩ := call_flows hrun
  obtain ⟨m₁, k₁, u₁, hbefore, hrest⟩ := evaluateArgs_append hargs
  rw [Expr.evaluateArgs.eq_def] at hrest
  obtain ⟨n', u₂, harg', hrest⟩ := Eval.bind_ok hrest
  obtain ⟨_, u₃, -, hrest⟩ := Eval.bind_ok hrest
  have hahead := behind_argument hreceiver hbefore hnew
  have hf' : n'.Has name s f := ((arg.follows fun _ hr => hr) (.inl rfl) hahead harg harg').2 rfl name i hi s f hf
  obtain ⟨-, hfresh, -, -⟩ := evaluateArgs_ok hbefore (readReceiver_ok rfl hreceiver).2
  obtain ⟨-, -, hkept, -⟩ := evaluateArgs_ok hrest (hfresh.combine n')
  exact (hm (by simp) hi).2 ⟨f, .inl (hkept name s f (has_combine_right name s f hf')), rfl⟩

/-- All flows of a call come from its arguments, from the function and from a receiver that was not assigned. -/
theorem call_origin [SetOrder] {args : List Expr}
    (hrun : ((Expr.call receiver function args spot).evaluate edition .value).run w = (.ok m, v))
    {name s : String} {i : Nat} {f : Flow} (hi : w.path.clean.Refers name i) (hf : m.Has name s f) :
    ∃ g, f = (w.path.view (.own i)).pass function spot.line g ∧
      ((g = { position := edition.place spot w.path.scope } ∧
          ((s = receiver ∧ receiver ≠ "" ∧ receiver ∉ w.path.initialized) ∨
            (s = function ∧ function ∈ (v.path.view (.own i)).sources))) ∨
        ∃ arg ∈ args, ∃ u n u', w.Later u ∧ (arg.evaluate edition .value).run u = (.ok n, u') ∧ n.Has name s g) := by
  obtain ⟨a, w₁, m', k, u, hreceiver, hargs, hpath, hm⟩ := call_flows hrun
  obtain ⟨hw₁, hfresh⟩ := readReceiver_ok rfl hreceiver
  have hscope : u.path.scope = w.path.scope := ((hw₁.trans (evaluateArgs_ok hargs hfresh).1).path).scope
  obtain ⟨g, hg, rfl⟩ := (hm (by simp) hi).1 hf
  refine ⟨g, rfl, ?_⟩
  rcases hg with hg | ⟨hs, hg, hsource⟩
  · rcases evaluateArgs_origin hargs hg with hg | ⟨arg, harg, u', n, u'', hu', hrun, hg⟩
    · obtain ⟨hne, hnew, hs, hg⟩ := ((Eval.readReceiver_flows hreceiver).2 hi).1 hg
      exact .inl ⟨hg, .inl ⟨hs, hne, hnew⟩⟩
    · exact .inr ⟨arg, harg, u', n, u'', hw₁.trans hu', hrun, hg⟩
  · exact .inl ⟨hscope ▸ hg, .inr ⟨hs, hpath ▸ hsource⟩⟩

/-- A receiver that was not assigned brings in a raw flow at the place of the call. -/
theorem call_has_receiver [SetOrder] {args : List Expr}
    (hrun : ((Expr.call receiver function args spot).evaluate edition .value).run w = (.ok m, v))
    (hne : receiver ≠ "") (hnew : receiver ∉ w.path.initialized) {name : String} {i : Nat}
    (hi : w.path.clean.Refers name i) :
    m.Has name receiver ((w.path.view (.own i)).pass function spot.line
      { position := edition.place spot w.path.scope }) := by
  obtain ⟨a, w₁, m', k, u, hreceiver, hargs, -, hm⟩ := call_flows hrun
  obtain ⟨-, -, hkept, -⟩ := evaluateArgs_ok hargs (readReceiver_ok rfl hreceiver).2
  have ha := ((Eval.readReceiver_flows hreceiver).2 hi).2 ⟨hne, hnew, rfl, rfl⟩
  exact (hm (by simp) hi).2 ⟨_, .inl (hkept _ _ _ ha), rfl⟩

end Expr

/-! ## Calls in syntax trees -/

namespace Reading

theorem find_ofFields (name : String) : ∀ fields : List (String × Document),
    ((ofFields fields).find? (·.1 = name)).map (·.2) = (Document.lookup name fields).map ofDocument
  | [] => rfl
  | (k, d) :: rest => by
    rw [ofFields, Document.lookup, List.find?_cons]
    by_cases hk : k = name
    · simp [hk]
    · simp [hk, find_ofFields name rest]

theorem exprs_ofItems : ∀ items : List Document, (ofItems items).map (·.expr) = items.map Expr.ofDocument
  | [] => rfl
  | d :: rest => by
    rw [ofItems, List.map_cons, List.map_cons, exprs_ofItems rest]
    rfl

end Reading

/-- A call is read from its function and its positional arguments, and from nothing else. -/
theorem Expr.ofDocument_call {fields : List (String × Document)} {func : Document} {args : List Document}
    {receiver function : String} (htype : Document.lookup "ast_type" fields = some (.text "Call"))
    (hfunc : Document.lookup "func" fields = some func) (hargs : Document.lookup "args" fields = some (.list args))
    (hcallee : (Reading.ofDocument func).callee = .ok (receiver, function)) :
    Expr.ofDocument (.record fields) =
      .call receiver function (args.map Expr.ofDocument) (Reading.spotOf fields) := by
  have hfunc' : Reading.child (Reading.ofFields fields) "func" = Reading.ofDocument func := by
    rw [Reading.child, Reading.find_ofFields, hfunc]
    rfl
  have hargs' : (Reading.children (Reading.ofFields fields) "args").exprs = args.map Expr.ofDocument := by
    rw [Reading.children, Reading.find_ofFields, hargs, ← Reading.exprs_ofItems]
    rfl
  show (Reading.ofRecord fields (Reading.ofFields fields)).expr = _
  unfold Reading.ofRecord
  rw [htype]
  show Reading.exprOf "Call" fields (Reading.ofFields fields) = _
  unfold Reading.exprOf
  simp only [hfunc', hcallee, hargs']

/-- A call passes on the flows of its positional arguments and of a receiver that was not assigned. All its other
flows are from the function. -/
theorem call_has_flows_of_positional_arguments [SetOrder] {edition : Edition} {fields : List (String × Document)}
    {func : Document} {args : List Document} {receiver function : String} {w v : World} {m : Taint} {a : Pattern}
    (htype : Document.lookup "ast_type" fields = some (.text "Call"))
    (hfunc : Document.lookup "func" fields = some func) (hargs : Document.lookup "args" fields = some (.list args))
    (hcallee : (Reading.ofDocument func).callee = .ok (receiver, function))
    (hrun : ((Expr.ofDocument (.record fields)).evaluate edition .value).run w = (.ok m, v))
    (ha : (w.path.named a.name).getLast? = some a) :
    (∀ before arg after, args = before ++ arg :: after →
      (∀ x, (Expr.ofDocument arg).Invokes x →
        x ∈ w.path.initialized ∨ (x ≠ receiver ∧ ∀ d ∈ before, ¬ (Expr.ofDocument d).Reads x)) →
      ∀ n u, ((Expr.ofDocument arg).evaluate edition .value).run w = (.ok n, u) →
      ∀ s f, n.Has a.name s f → m.Has a.name s (a.pass function (Reading.spotOf fields).line f)) ∧
    (receiver ≠ "" → receiver ∉ w.path.initialized →
      m.Has a.name receiver (a.pass function (Reading.spotOf fields).line
        { position := edition.place (Reading.spotOf fields) w.path.scope })) ∧
    ∀ s f, m.Has a.name s f → ∃ g, f = a.pass function (Reading.spotOf fields).line g ∧
      ((g = { position := edition.place (Reading.spotOf fields) w.path.scope } ∧
          ((s = receiver ∧ receiver ≠ "" ∧ receiver ∉ w.path.initialized) ∨
            (s = function ∧ ∃ b ∈ v.path.patterns, b.bare = a.bare ∧ b.isSource function = true))) ∨
        ∃ arg ∈ args, ∃ u n u', w.Later u ∧
          ((Expr.ofDocument arg).evaluate edition .value).run u = (.ok n, u') ∧ n.Has a.name s g) := by
  rw [Expr.ofDocument_call htype hfunc hargs hcallee] at hrun
  obtain ⟨i, hi, rfl⟩ := Path.exists_refers ha
  refine ⟨?_, ?_, ?_⟩
  · rintro before arg after rfl hnew n u harg s f hf
    rw [List.map_append, List.map_cons] at hrun
    refine Expr.call_has_argument hrun harg (fun x hx => (hnew x hx).imp id fun ⟨hne, hfresh⟩ => ⟨hne, ?_⟩) hi hf
    exact List.forall_mem_map.2 hfresh
  · intro hne hnew
    exact Expr.call_has_receiver hrun hne hnew hi
  · intro s f hf
    obtain ⟨g, rfl, hg⟩ := Expr.call_origin hrun hi hf
    refine ⟨g, rfl, ?_⟩
    rcases hg with ⟨hg, hs | ⟨hs, hsource⟩⟩ | ⟨arg, harg, u, n, u', hu, hrun', hg⟩
    · exact .inl ⟨hg, .inl hs⟩
    · have hgrows := (Expr.later_evaluate hrun).path
      have hlt : i < v.path.patterns.length := Path.lt_of_refers (hgrows.clean ▸ hi)
      exact .inl ⟨hg, .inr ⟨hs, _, Path.view_own_mem hlt, (hgrows.view_own i).bare.symm, decide_eq_true hsource⟩⟩
    · obtain ⟨d, hd, rfl⟩ := List.mem_map.1 harg
      exact .inr ⟨d, hd, u, n, u', hu, hrun', hg⟩

/-- In `o.esc(x, y.h(), k=get())` the flow of `y`, which the second argument calls a method of, and the flow of the
receiver have passed `esc`. -/
theorem flows_of_second_argument_escaped :
    let node (type : String) (column : Int) (fields : List (String × Document)) : List (String × Document) :=
      ("ast_type", .text type) :: ("lineno", .int 1) :: ("col_offset", .int column) :: fields
    let name (id : String) (column : Int) : Document := .record (node "Name" column [("id", .text id)])
    let method (o : String) (column : Int) (id : String) : Document :=
      .record (node "Attribute" column [("value", name o column), ("attr", .text id)])
    let h : Document := .record (node "Call" 9 [("func", method "y" 9 "h"), ("args", .list [])])
    let get : Document := .record (node "Call" 18 [("func", name "get" 18), ("args", .list [])])
    let fields := node "Call" 0 [("func", method "o" 0 "esc"), ("args", .list [name "x" 6, h]),
      ("keywords", .list [.record [("arg", .text "k"), ("value", get)]])]
    let a : Pattern :=
      { name := "A", sources := ["get"], sinks := ["sink"], modes := [("esc", .text "show")], implicit := false }
    ∃ m v, ((Expr.ofDocument (.record fields)).evaluate .scoped .value).run ⟨Path.start [a], {}⟩ = (.ok m, v) ∧
      m.Has "A" "y" { position := { line := 1, column := 9 }, marks := [.sanitizer "esc" 1] } ∧
      m.Has "A" "o" { position := { line := 1, column := 0 }, marks := [.sanitizer "esc" 1] } := by
  intro node name method h get fields a
  obtain ⟨m, v, hrun⟩ : ∃ m v,
      ((Expr.ofDocument (.record fields)).evaluate .scoped .value).run ⟨Path.start [a], {}⟩ = (.ok m, v) :=
    Eval.exists_ok (by decide +kernel)
  obtain ⟨n, u, harg, hn⟩ : ∃ n u,
      ((Expr.ofDocument h).evaluate .scoped .value).run ⟨Path.start [a], {}⟩ = (.ok n, u) ∧
        n.Has "A" "y" { position := { line := 1, column := 9 } } :=
    Eval.exists_ok_and (by decide +kernel)
  have hargs : Document.lookup "args" fields = some (.list [name "x" 6, h]) := rfl
  have hcallee : (Reading.ofDocument (method "o" 0 "esc")).callee = .ok ("o", "esc") := rfl
  obtain ⟨hpositional, hreceiver, -⟩ := call_has_flows_of_positional_arguments (a := a) rfl rfl hargs hcallee hrun rfl
  have hnew : ∀ x, (Expr.ofDocument h).Invokes x → x ∈ (Path.start [a]).initialized ∨
      (x ≠ "o" ∧ ∀ d ∈ [name "x" 6], ¬ (Expr.ofDocument d).Reads x) := by
    rintro x ⟨-, function, spot, hs⟩
    have hsites : (Expr.ofDocument h).sites = [.call "y" "h" { line := 1, column := 9 }] := by decide +kernel
    have hreads : (Expr.ofDocument (name "x" 6)).sites = [.name "x" { line := 1, column := 6 }] := by decide +kernel
    rw [hsites, List.mem_singleton] at hs
    cases hs
    refine .inr ⟨by decide, List.forall_mem_singleton.2 ?_⟩
    rintro ⟨site, hsite, hread⟩
    rw [hreads, List.mem_singleton] at hsite
    subst hsite
    revert hread
    decide
  exact ⟨m, v, hrun, hpositional [name "x" 6] h [] rfl hnew n u harg "y" _ hn, hreceiver (by decide) (by decide)⟩

/-- The value of a keyword argument, a receiver that is assigned, a receiver that is itself a call, and a method of a
variable that an earlier argument reads are lost: `sink(k=get())`, `o.sink()`, `get().sink()` and `sink(x, x.m())`. -/
theorem call_loses_keywords_and_receivers :
    let node (type : String) (line : Int) (fields : List (String × Document)) : Document :=
      .record (("ast_type", .text type) :: ("lineno", .int line) :: ("col_offset", .int 0) :: fields)
    let name (id : String) : Document := node "Name" 1 [("id", .text id)]
    let method (o : Document) (id : String) : Document := node "Attribute" 1 [("value", o), ("attr", .text id)]
    let call (line : Int) (func : Document) (args keywords : List Document) : Document :=
      node "Call" line [("func", func), ("args", .list args), ("keywords", .list keywords)]
    let get : Document := call 1 (name "get") [] []
    let later : Document := call 2 (method (name "x") "m") [] []
    let a : Pattern :=
      { name := "A", sources := ["get"], sinks := ["sink"], modes := [], implicit := false }
    let start : World := ⟨Path.start [a], {}⟩
    let assigned (edition : Edition) : World :=
      ((Eval.assign edition [.name "o"] (Expr.ofDocument get) { line := 1 }).run start).2
    let has (m : Taint) (s : String) (line : Int) : Prop := m.Has "A" s { position := { line } }
    let label (edition : Edition) (d : Document) (w : World) : Option Taint :=
      (((Expr.ofDocument d).evaluate edition .value).run w).1.toOption
    let loses (edition : Edition) (d part : Document) (w : World) (s : String) (line : Int) : Prop :=
      (∃ n ∈ label edition part w, has n s line) ∧ ∃ m ∈ label edition d w, ¬ has m s line
    let losesAll (edition : Edition) : Prop :=
      loses edition (call 1 (name "sink") [] [.record [("arg", .text "k"), ("value", get)]]) get start "get" 1 ∧
        loses edition (call 1 (method (name "o") "sink") [] []) (name "o") (assigned edition) "get" 1 ∧
        loses edition (call 1 (method get "sink") [] []) get start "get" 1 ∧
        loses edition (call 1 (name "sink") [name "x", later] []) later start "x" 2
    losesAll .plain ∧ losesAll .scoped := by
  decide +kernel

end TaintFlow
