import TaintFlow.Document
import TaintFlow.Listing
import TaintFlow.Position
import TaintFlow.Table

/-
Labels: the flows that reach a value. A flow comes from a source at a position and carries the
sanitizers it has passed; a raw flow has passed none. The flows of a label are grouped by source, in
order of first arrival. `Label.Holds` is the view of a label as a set of flows, and the laws say
what the operations do to it.
-/
namespace TaintFlow

open Listing

/-- A step of a flow: a call to a sanitizer at a line, or a remark that is no sanitizer call. -/
inductive Mark where
  | sanitizer (name : String) (line : Int)
  | remark (content : Document)
deriving DecidableEq, Repr, Inhabited

namespace Mark

variable [SetOrder]

/-- The marks of a flow with one more, as a set lists them. -/
def extend (marks : List Mark) (m : Mark) : List Mark := SetOrder.members marks [m]

theorem mem_extend {m x : Mark} {marks : List Mark} : x ∈ extend marks m ↔ x ∈ marks ∨ x = m := by
  rw [extend, SetOrder.mem_members, List.mem_singleton]

theorem nodup_extend (marks : List Mark) (m : Mark) : (extend marks m).Nodup := SetOrder.nodup_members _ _

end Mark

/-- A flow of a label: where its source was read, and what it has passed since. -/
structure Flow where
  position : Position
  marks : List Mark := []
deriving DecidableEq, Repr, Inhabited

namespace Flow

/-- The flow has passed no sanitizer. -/
def isRaw (f : Flow) : Bool := f.marks.isEmpty

/-- The flow after one more step. -/
def sanitize [SetOrder] (f : Flow) (m : Mark) : Flow := { f with marks := Mark.extend f.marks m }

end Flow

/-- The flows that reach a value, by source. -/
structure Label where
  flows : Table String (List Flow) := {}
deriving DecidableEq, Inhabited

namespace Label

def empty : Label := {}

/-- A raw flow from a source, unless the label has it. -/
def addSource (l : Label) (source : String) (position : Position) : Label :=
  ⟨l.flows.insert source (adjoin ((l.flows.get? source).getD []) { position })⟩

/-- Every flow passes a sanitizer. -/
def addSanitizer [SetOrder] (l : Label) (name : String) (line : Int) : Label :=
  ⟨l.flows.map (·.map (·.sanitize (.sanitizer name line)))⟩

/-- The flows of a source and one more, as a set lists them. -/
def merge [SetOrder] (flows : List Flow) (f : Flow) : List Flow := SetOrder.members flows [f]

/-- The label with the flows of a source of another label. -/
def absorb [SetOrder] (l : Label) (source : String) (flows : List Flow) : Label :=
  ⟨l.flows.insert source (match l.flows.get? source with
    | none => flows
    | some own => flows.foldl merge own)⟩

/-- The flows of both labels. -/
def combine [SetOrder] (a b : Label) : Label :=
  b.flows.entries.foldl (fun l e => l.absorb e.1 e.2) a

/-- The sources of the label. -/
def sources (l : Label) : List String := l.flows.keys

/-- Some flow is raw. -/
def isTainted (l : Label) : Bool := l.flows.values.any (·.any Flow.isRaw)

/-- Some flow from the source is raw. -/
def isTaintedBy (l : Label) (source : String) : Bool :=
  ((l.flows.get? source).getD []).any Flow.isRaw

/-- The labels have the same flows for each source, in the same order. -/
def same (a b : Label) : Bool := a.flows.agree (fun x y => x = y) b.flows

/-- The label has this flow from this source. -/
def Holds (l : Label) (source : String) (f : Flow) : Prop :=
  ∃ flows, l.flows.get? source = some flows ∧ f ∈ flows

theorem mem_merge [SetOrder] {flows : List Flow} {f g : Flow} : g ∈ merge flows f ↔ g ∈ flows ∨ g = f := by
  rw [merge, SetOrder.mem_members, List.mem_singleton]

theorem mem_foldl_merge [SetOrder] {more flows : List Flow} {g : Flow} :
    g ∈ more.foldl merge flows ↔ g ∈ flows ∨ g ∈ more := by
  induction more generalizing flows with
  | nil => simp
  | cons f more ih => rw [List.foldl_cons, ih, mem_merge, List.mem_cons, or_assoc]

theorem holds_empty (source : String) (f : Flow) : ¬ empty.Holds source f :=
  fun ⟨_, h, _⟩ => nomatch h

theorem holds_addSource {l : Label} {source s : String} {position : Position} {f : Flow} :
    (l.addSource source position).Holds s f ↔ l.Holds s f ∨ (s = source ∧ f = { position }) := by
  unfold Holds addSource
  by_cases h : s = source
  · subst h
    simp only [Table.get?_insert_self, Option.some.injEq, exists_eq_left', mem_adjoin]
    cases l.flows.get? s <;> simp
  · simp [Table.get?_insert_of_ne _ h, h]

end Label

end TaintFlow
