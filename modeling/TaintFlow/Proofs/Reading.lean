import TaintFlow.Proofs.Stock
import TaintFlow.Syntax.Reading

/-
Programs that are read from documents. What a document has wrong stops the analysis with the fault of a field or
of a kind; that a loop does not settle is nothing a document can say. So if a program from a document stops with
this fault, a search reached its limit.
-/
namespace TaintFlow

namespace Reading

/-- No role of the document carries the fault of an unsettled loop. -/
structure Clear [SetOrder] (r : Reading) : Prop where
  expr : r.expr.Fits (.lenient True)
  exprs : Expr.FitAll (.lenient True) r.exprs
  target : r.target.Fits (.lenient True)
  targets : ∀ t ∈ r.targets, t.Fits (.lenient True)
  stmt : r.stmt.Fits (.lenient True)
  callee : r.callee ≠ .error .unsettled

theorem reads_lenient (id : String) (spot : Spot) : (Accord.lenient True).Reads id spot :=
  ⟨trivial, fun _ _ => trivial⟩

theorem clear_default [SetOrder] : Clear {} :=
  ⟨trivial, ⟨fun _ => nofun, trivial⟩, fun _ => nofun, List.forall_mem_singleton.2 fun _ => nofun, trivial, nofun⟩

theorem clear_ofKeys [SetOrder] (count : Nat) : (ofKeys count).Clear := by
  refine { clear_default with exprs := ?_, targets := fun t ht => ?_ }
  · unfold ofKeys
    induction count with
    | zero => exact trivial
    | succ n ih => exact ⟨trivial, ih⟩
  · rw [List.eq_of_mem_replicate ht]
    exact fun _ => nofun

theorem clear_ofList [SetOrder] {items : List Reading} (h : ∀ r ∈ items, r.Clear) : (ofList items).Clear := by
  refine { clear_default with exprs := ?_, targets := ?_, stmt := ?_ }
  · unfold ofList
    induction items with
    | nil => exact trivial
    | cons r rest ih =>
      exact ⟨(h r (List.mem_cons_self ..)).expr, ih fun r' hr => h r' (List.mem_cons_of_mem _ hr)⟩
  · intro t ht
    obtain ⟨r, hr, rfl⟩ := List.mem_map.1 ht
    exact (h r hr).target
  · show Stmt.FitAll _ (items.map (·.stmt))
    induction items with
    | nil => exact trivial
    | cons r rest ih =>
      exact ⟨(h r (List.mem_cons_self ..)).stmt, ih fun r' hr => h r' (List.mem_cons_of_mem _ hr)⟩

theorem clear_emptyRecord [SetOrder] : emptyRecord.Clear :=
  { clear_ofKeys 0 with expr := trivial, target := fun _ => nofun }

section Fields

variable [SetOrder] {kids : List (String × Reading)} (h : ∀ e ∈ kids, e.2.Clear)

include h

theorem clear_find {other : Reading} (ho : other.Clear) (name : String) :
    (((kids.find? (·.1 = name)).map (·.2)).getD other).Clear := by
  cases hf : kids.find? (·.1 = name) with
  | none => exact ho
  | some e => exact h e (List.mem_of_find?_eq_some hf)

theorem clear_child (name : String) : (child kids name).Clear := clear_find h clear_emptyRecord name

theorem clear_children (name : String) : (children kids name).Clear :=
  clear_find h (clear_ofList (by intro r hr; cases hr)) name

theorem clear_exprOf (type : String) (fields : List (String × Document)) :
    (exprOf type fields kids).Fits (.lenient True) := by
  unfold exprOf
  split
  · split
    · exact reads_lenient ..
    · exact fun _ => nofun
  · exact ⟨(clear_child h _).expr, reads_lenient ..⟩
  · exact ⟨(clear_child h _).expr, (clear_child h _).expr⟩
  · exact ⟨(clear_child h _).expr, (clear_child h _).expr⟩
  · have hcallee := (clear_child h "func").callee
    split
    · exact ⟨fun _ => reads_lenient .., reads_lenient .., fun _ _ _ _ _ => trivial, (clear_children h _).exprs⟩
    · rename_i f hf
      exact fun _ he => hcallee (he ▸ hf)
  · exact ⟨(clear_child h _).expr, (clear_children h _).exprs⟩
  · exact (clear_child h _).expr
  · exact (clear_children h _).exprs
  · exact trivial

theorem clear_targetOf (type : String) (fields : List (String × Document)) :
    (targetOf type fields kids).Fits (.lenient True) := by
  unfold targetOf
  split
  · split
    · exact trivial
    · exact fun _ => nofun
  · split
    · exact ⟨fun _ _ => trivial, trivial⟩
    · exact fun _ => nofun
  · exact ⟨fun _ _ => trivial, clear_exprOf h _ fields⟩
  · exact fun _ => nofun

theorem clear_stmtOf (type : String) (fields : List (String × Document)) :
    (stmtOf type fields kids).Fits (.lenient True) := by
  unfold stmtOf
  split
  · exact (clear_children h _).stmt
  · exact ⟨(clear_children h _).targets, (clear_child h _).expr⟩
  · exact ⟨(clear_child h _).target, (clear_child h _).expr⟩
  · exact ⟨(clear_child h _).target, (clear_child h _).expr, (clear_child h _).expr⟩
  · exact (clear_child h _).expr
  · exact ⟨(clear_child h _).expr, (clear_children h _).stmt, (clear_children h _).stmt⟩
  · exact ⟨(clear_child h _).expr, (clear_children h _).stmt, (clear_children h _).stmt⟩
  · exact ⟨(clear_child h _).target, (clear_child h _).expr, (clear_children h _).stmt, (clear_children h _).stmt⟩
  · exact trivial

theorem clear_ofRecord (fields : List (String × Document)) : (ofRecord fields kids).Clear := by
  unfold ofRecord
  split
  · exact { clear_ofKeys fields.length with expr := fun _ => nofun, target := fun _ => nofun, stmt := fun _ => nofun }
  · exact { clear_ofKeys fields.length with expr := fun _ => nofun, target := fun _ => nofun, stmt := fun _ => nofun }
  · refine { clear_ofKeys fields.length with
      expr := clear_exprOf h _ fields
      target := clear_targetOf h _ fields
      stmt := clear_stmtOf h _ fields
      callee := ?_ }
    show calleeOf _ fields kids ≠ _
    unfold calleeOf
    split
    · exact nofun
    · split
      · exact nofun
      · exact nofun
    · exact nofun

end Fields

mutual

theorem clear_ofDocument [SetOrder] : ∀ d : Document, (ofDocument d).Clear
  | .text s => clear_ofKeys s.length
  | .list items => clear_ofList (clear_ofItems items)
  | .record fields => clear_ofRecord (clear_ofFields fields) fields
  | .null => clear_default
  | .bool _ => clear_default
  | .int _ => clear_default
  | .float _ => clear_default

theorem clear_ofItems [SetOrder] : ∀ items : List Document, ∀ r ∈ ofItems items, r.Clear
  | [], _, h => nomatch h
  | d :: rest, r, h => by
    rcases List.mem_cons.1 h with rfl | h
    · exact clear_ofDocument d
    · exact clear_ofItems rest r h

theorem clear_ofFields [SetOrder] : ∀ fields : List (String × Document), ∀ e ∈ ofFields fields, e.2.Clear
  | [], _, h => nomatch h
  | (_, d) :: rest, e, h => by
    rcases List.mem_cons.1 h with rfl | h
    · exact clear_ofDocument d
    · exact clear_ofFields rest e h

end

end Reading
end TaintFlow
