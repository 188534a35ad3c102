import TaintFlow.Syntax

/-
The sites of a program: the places at which a variable, an attribute or a part of a container is read,
a function is called, or a name is assigned. Everything that the analysis puts into labels and reports
comes from a site; `mentions`, `reads` and `sinks` say what a site can contribute.
-/
namespace TaintFlow

/-- A place in a program. -/
inductive Site where
  | name (id : String) (spot : Spot)
  | attribute (attr : String) (spot : Spot)
  /-- A part of the variable `container`, or of some other expression. -/
  | item (container : Option String) (spot : Spot)
  /-- A call of `function`, on the variable `receiver` if that is not empty. -/
  | call (receiver function : String) (spot : Spot)
  | assigned (name : String) (spot : Spot)
deriving DecidableEq, Repr, Inhabited

namespace Site

def spot : Site → Spot
  | .name _ spot | .attribute _ spot | .item _ spot | .call _ _ spot | .assigned _ spot => spot

/-- The variable that a method is called on. -/
def receiver (name : String) : List String := if name = "" then [] else [name]

/-- The names that may be sources at the site. -/
def mentions : Site → List String
  | .name id _ => [id]
  | .attribute attr _ => [attr]
  | .call r function _ => receiver r ++ [function]
  | .item _ _ | .assigned _ _ => []

/-- The variables that are read at the site. -/
def reads : Site → List String
  | .name id _ => [id]
  | .call r _ _ => receiver r
  | .attribute _ _ | .item _ _ | .assigned _ _ => []

/-- The names that may be sinks at the site. -/
def sinks : Site → List String
  | .call _ function _ => [function]
  | .item container _ => container.toList
  | .assigned x _ => [x]
  | .name _ _ | .attribute _ _ => []

end Site

/-- The variable that an expression is. -/
def Expr.variable? : Expr → Option String
  | .name id _ => some id
  | _ => none

mutual

/-- The sites of an expression. -/
def Expr.sites : Expr → List Site
  | .name id spot => [.name id spot]
  | .attribute base attr spot => base.sites ++ [.attribute attr spot]
  | .subscript container index spot => container.sites ++ index.sites ++ [.item container.variable? spot]
  | .binary left right => left.sites ++ right.sites
  | .call receiver function args spot => Expr.allSites args ++ [.call receiver function spot]
  | .compare left rest => left.sites ++ Expr.allSites rest
  | .unary operand => operand.sites
  | .boolean values => Expr.allSites values
  | .inert => []
  | .missing => []
  | .fails _ => []

def Expr.allSites : List Expr → List Site
  | [] => []
  | e :: rest => e.sites ++ Expr.allSites rest

end

mutual

/-- The variables that a test reads, apart from those in arguments of calls, which are read as values. -/
def Expr.tested : Expr → List String
  | .name id _ => [id]
  | .attribute base _ _ => base.tested
  | .subscript container index _ => container.tested ++ index.tested
  | .binary left right => left.tested ++ right.tested
  | .call _ _ _ _ => []
  | .compare left rest => left.tested ++ Expr.allTested rest
  | .unary operand => operand.tested
  | .boolean values => Expr.allTested values
  | .inert => []
  | .missing => []
  | .fails _ => []

def Expr.allTested : List Expr → List String
  | [] => []
  | e :: rest => e.tested ++ Expr.allTested rest

end

mutual

/-- A variable that a test reads is read at one of its sites. -/
theorem Expr.site_of_tested {x : String} : ∀ e : Expr, x ∈ e.tested → ∃ spot, .name x spot ∈ e.sites
  | .name id spot, h => by
    rw [Expr.tested, List.mem_singleton] at h
    exact ⟨spot, by rw [Expr.sites, h]; exact List.mem_singleton_self _⟩
  | .attribute base attr spot, h => by
    rw [Expr.tested] at h
    obtain ⟨spot, hs⟩ := Expr.site_of_tested base h
    exact ⟨spot, by rw [Expr.sites]; exact List.mem_append_left _ hs⟩
  | .subscript container index spot, h => by
    rw [Expr.tested] at h
    rw [Expr.sites]
    rcases List.mem_append.1 h with h | h
    · obtain ⟨spot, hs⟩ := Expr.site_of_tested container h
      exact ⟨spot, List.mem_append_left _ (List.mem_append_left _ hs)⟩
    · obtain ⟨spot, hs⟩ := Expr.site_of_tested index h
      exact ⟨spot, List.mem_append_left _ (List.mem_append_right _ hs)⟩
  | .binary left right, h => by
    rw [Expr.tested] at h
    rw [Expr.sites]
    rcases List.mem_append.1 h with h | h
    · exact (Expr.site_of_tested left h).imp fun _ hs => List.mem_append_left _ hs
    · exact (Expr.site_of_tested right h).imp fun _ hs => List.mem_append_right _ hs
  | .call _ _ _ _, h => by
    rw [Expr.tested] at h
    cases h
  | .compare left rest, h => by
    rw [Expr.tested] at h
    rw [Expr.sites]
    rcases List.mem_append.1 h with h | h
    · exact (Expr.site_of_tested left h).imp fun _ hs => List.mem_append_left _ hs
    · exact (Expr.site_of_allTested rest h).imp fun _ hs => List.mem_append_right _ hs
  | .unary operand, h => by
    rw [Expr.tested] at h
    rw [Expr.sites]
    exact Expr.site_of_tested operand h
  | .boolean values, h => by
    rw [Expr.tested] at h
    rw [Expr.sites]
    exact Expr.site_of_allTested values h
  | .inert, h => by
    rw [Expr.tested] at h
    cases h
  | .missing, h => by
    rw [Expr.tested] at h
    cases h
  | .fails _, h => by
    rw [Expr.tested] at h
    cases h

theorem Expr.site_of_allTested {x : String} : ∀ es : List Expr, x ∈ Expr.allTested es →
    ∃ spot, .name x spot ∈ Expr.allSites es
  | [], h => by
    rw [Expr.allTested] at h
    cases h
  | e :: rest, h => by
    rw [Expr.allTested] at h
    rw [Expr.allSites]
    rcases List.mem_append.1 h with h | h
    · exact (Expr.site_of_tested e h).imp fun _ hs => List.mem_append_left _ hs
    · exact (Expr.site_of_allTested rest h).imp fun _ hs => List.mem_append_right _ hs

end

/-- The names that an assignment to the target assigns. -/
def Target.names : Target → List String
  | .name id => [id]
  | .attribute base attr => base.toList ++ [attr]
  | .subscript container _ => container.toList
  | .fails _ => []

/-- The sites of a target that is assigned at a spot. -/
def Target.sites (spot : Spot) (t : Target) : List Site :=
  t.names.map (.assigned · spot) ++ match t with
    | .subscript _ whole => whole.sites
    | _ => []

mutual

/-- The sites of a statement. Iterations and assignments with an annotation or an operator stand at a
line, without a column. -/
def Stmt.sites : Stmt → List Site
  | .skip => []
  | .block body => Stmt.allSites body
  | .assign targets value spot => targets.flatMap (·.sites spot) ++ value.sites
  | .annotated target value spot => target.sites { line := spot.line } ++ value.sites
  | .augmented target current value spot => target.sites { line := spot.line } ++ current.sites ++ value.sites
  | .eval value => value.sites
  | .branch test body orelse => test.sites ++ body.sites ++ orelse.sites
  | .loop test body orelse => test.sites ++ body.sites ++ orelse.sites
  | .each target iter body orelse spot =>
    target.sites { line := spot.line } ++ iter.sites ++ body.sites ++ orelse.sites
  | .fails _ => []

def Stmt.allSites : List Stmt → List Site
  | [] => []
  | s :: rest => s.sites ++ Stmt.allSites rest

end

mutual

/-- The variables that the tests of branches and loops read. -/
def Stmt.tested : Stmt → List String
  | .block body => Stmt.allTested body
  | .branch test body orelse => test.tested ++ body.tested ++ orelse.tested
  | .loop test body orelse => test.tested ++ body.tested ++ orelse.tested
  | .each _ _ body orelse _ => body.tested ++ orelse.tested
  | .skip | .assign _ _ _ | .annotated _ _ _ | .augmented _ _ _ _ | .eval _ | .fails _ => []

def Stmt.allTested : List Stmt → List String
  | [] => []
  | s :: rest => s.tested ++ Stmt.allTested rest

end

end TaintFlow
