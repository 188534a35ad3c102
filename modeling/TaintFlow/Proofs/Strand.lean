import Mathlib.Data.Finset.Image
import Mathlib.Order.WithBot
import TaintFlow.Proofs.Label

/-
Labels as sets. A strand is a flow told by its source, its position and the set of the marks it has passed; a label is
read as the set of its strands, so that the order of sources, of flows and of marks does not count, nor does a repeated
flow.
Every operation on labels is told by what it does to this set: a source is a new strand, a sanitizer is passed by every
strand, and combining is the union.

A multilabel is read name by name, and a labelling variable by variable, with a bottom below the empty set where nothing
is tracked. Combining is then the join at each of the three levels (`Joins`), and the laws of a semilattice are those of
the readings. A position is whatever an edition records, so all this holds of both.
-/
namespace TaintFlow

/-! ## Joins -/

/-- As far as `read` tells values apart, `join` is a join and `unit` its unit. -/
structure Joins {α β : Type} [SemilatticeSup β] [OrderBot β] (read : α → β) (join : α → α → α) (unit : α) :
    Prop where
  read_join : ∀ a b, read (join a b) = read a ⊔ read b
  read_unit : read unit = ⊥
  assoc : ∀ a b c, read (join (join a b) c) = read (join a (join b c))
  comm : ∀ a b, read (join a b) = read (join b a)
  idem : ∀ a, read (join a a) = read a
  unit_join : ∀ a, read (join unit a) = read a
  join_unit : ∀ a, read (join a unit) = read a

/-- The laws hold of whatever is read as the join. -/
theorem Joins.of_read {α β : Type} [SemilatticeSup β] [OrderBot β] {read : α → β} {join : α → α → α} {unit : α}
    (hjoin : ∀ a b, read (join a b) = read a ⊔ read b) (hunit : read unit = ⊥) : Joins read join unit where
  read_join := hjoin
  read_unit := hunit
  assoc a b c := by rw [hjoin, hjoin, hjoin, hjoin, sup_assoc]
  comm a b := by rw [hjoin, hjoin, sup_comm]
  idem a := by rw [hjoin, sup_idem]
  unit_join a := by rw [hjoin, hunit, bot_sup_eq]
  join_unit a := by rw [hjoin, hunit, sup_bot_eq]

/-- The reading of what may be absent. -/
def readOption {α β : Type} (read : α → β) (o : Option α) : WithBot β := o.elim ⊥ fun a => read a

/-- What is read as the join where both sides have something is so where a side has nothing. -/
theorem readOption_merge {α β : Type} [SemilatticeSup β] {read : α → β} {join : α → α → α}
    (h : ∀ a b, read (join a b) = read a ⊔ read b) (o o' : Option α) :
    readOption read (o.merge join o') = readOption read o ⊔ readOption read o' := by
  cases o with
  | none =>
    rw [Option.merge_none_left]
    exact (bot_sup_eq _).symm
  | some a =>
    cases o' with
    | none =>
      rw [Option.merge_none_right]
      exact (sup_bot_eq _).symm
    | some b =>
      show ((read (join a b) : β) : WithBot β) = read a ⊔ read b
      rw [h, WithBot.coe_sup]

/-! ## Strands -/

/-- A flow from a source, with what it has passed as a set. -/
structure Strand where
  source : String
  position : Position
  passed : Finset Mark
deriving DecidableEq

namespace Strand

/-- The strand passes one more mark. -/
def pass (m : Mark) (x : Strand) : Strand := { x with passed := insert m x.passed }

theorem pass_pass_self (m : Mark) (x : Strand) : (x.pass m).pass m = x.pass m := by
  unfold pass
  rw [Finset.insert_idem]

theorem pass_comm (m n : Mark) (x : Strand) : (x.pass m).pass n = (x.pass n).pass m := by
  unfold pass
  rw [Finset.insert_comm]

end Strand

namespace Flow

/-- The flow as a strand of a source. -/
def strand (source : String) (f : Flow) : Strand := ⟨source, f.position, f.marks.toFinset⟩

theorem strand_sanitize [SetOrder] (source : String) (f : Flow) (m : Mark) :
    (f.sanitize m).strand source = (f.strand source).pass m := by
  -- marks are kept in order and once, which a set does not show
  have hmarks : (Mark.extend f.marks m).toFinset = insert m f.marks.toFinset := by
    ext x
    rw [List.mem_toFinset, Mark.mem_extend, Finset.mem_insert, List.mem_toFinset, or_comm]
  unfold strand sanitize Strand.pass
  rw [hmarks]

/-- A flow is raw if its strand has passed nothing. -/
theorem isRaw_iff (source : String) {f : Flow} : f.isRaw = true ↔ (f.strand source).passed = ∅ := by
  unfold isRaw strand
  rw [List.isEmpty_iff, List.toFinset_eq_empty_iff]

end Flow

namespace Label

/-- The label as the set of its strands. -/
def strands (l : Label) : Finset Strand :=
  (l.flows.entries.flatMap fun e => e.2.map (·.strand e.1)).toFinset

theorem mem_strands {l : Label} {x : Strand} : x ∈ l.strands ↔ ∃ s f, l.Holds s f ∧ f.strand s = x := by
  simp only [strands, List.mem_toFinset, List.mem_flatMap, List.mem_map]
  constructor
  · rintro ⟨⟨s, flows⟩, he, f, hf, rfl⟩
    exact ⟨s, f, ⟨flows, Table.mem_entries.1 he, hf⟩, rfl⟩
  · rintro ⟨s, f, ⟨flows, he, hf⟩, rfl⟩
    exact ⟨(s, flows), Table.mem_entries.2 he, f, hf, rfl⟩

theorem strands_empty : empty.strands = ∅ := rfl

theorem strands_addSource (l : Label) (source : String) (position : Position) :
    (l.addSource source position).strands = insert ⟨source, position, ∅⟩ l.strands := by
  ext x
  rw [mem_strands, Finset.mem_insert, mem_strands]
  constructor
  · rintro ⟨s, f, h, rfl⟩
    rcases holds_addSource.1 h with h | ⟨rfl, rfl⟩
    · exact .inr ⟨s, f, h, rfl⟩
    · exact .inl rfl
  · rintro (rfl | ⟨s, f, h, rfl⟩)
    · exact ⟨source, { position }, holds_addSource.2 (.inr ⟨rfl, rfl⟩), rfl⟩
    · exact ⟨s, f, holds_addSource.2 (.inl h), rfl⟩

theorem strands_addSanitizer [SetOrder] (l : Label) (name : String) (line : Int) :
    (l.addSanitizer name line).strands = l.strands.image (Strand.pass (.sanitizer name line)) := by
  ext x
  rw [mem_strands, Finset.mem_image]
  constructor
  · rintro ⟨s, f, h, rfl⟩
    -- two flows may become one strand here: the label keeps both, the set does not
    obtain ⟨g, hg, rfl⟩ := holds_addSanitizer.1 h
    exact ⟨g.strand s, mem_strands.2 ⟨s, g, hg, rfl⟩, (g.strand_sanitize s _).symm⟩
  · rintro ⟨_, hy, rfl⟩
    obtain ⟨s, g, hg, rfl⟩ := mem_strands.1 hy
    exact ⟨s, g.sanitize _, holds_addSanitizer.2 ⟨g, hg, rfl⟩, g.strand_sanitize s _⟩

theorem strands_combine [SetOrder] (a b : Label) : (a.combine b).strands = a.strands ∪ b.strands := by
  ext x
  simp only [Finset.mem_union, mem_strands, holds_combine, or_and_right, exists_or]

theorem joins_combine [SetOrder] : Joins strands combine empty := .of_read strands_combine strands_empty

/-- A label is tainted by a source if it has a strand of the source that has passed nothing. -/
theorem isTaintedBy_iff {l : Label} {s : String} :
    l.isTaintedBy s = true ↔ ∃ position, (⟨s, position, ∅⟩ : Strand) ∈ l.strands := by
  unfold isTaintedBy
  rw [List.any_eq_true]
  constructor
  · rintro ⟨f, hf, hraw⟩
    refine ⟨f.position, mem_strands.2 ⟨s, f, holds_iff.2 hf, ?_⟩⟩
    rw [← (Flow.isRaw_iff s).1 hraw]
    rfl
  · rintro ⟨position, h⟩
    obtain ⟨s', f, hf, he⟩ := mem_strands.1 h
    cases congrArg Strand.source he
    exact ⟨f, holds_iff.1 hf, (Flow.isRaw_iff s).2 (congrArg Strand.passed he)⟩

/-- What is sanitized together could have been sanitized on each side. -/
theorem strands_addSanitizer_combine [SetOrder] (a b : Label) (name : String) (line : Int) :
    ((a.combine b).addSanitizer name line).strands =
      ((a.addSanitizer name line).combine (b.addSanitizer name line)).strands := by
  rw [strands_addSanitizer, strands_combine, Finset.image_union, strands_combine, strands_addSanitizer,
    strands_addSanitizer]

theorem strands_addSanitizer_comm [SetOrder] (l : Label) (name name' : String) (line line' : Int) :
    ((l.addSanitizer name line).addSanitizer name' line').strands =
      ((l.addSanitizer name' line').addSanitizer name line).strands := by
  simp only [strands_addSanitizer, Finset.image_image]
  exact Finset.image_congr fun x _ => Strand.pass_comm _ _ x

theorem strands_addSanitizer_self [SetOrder] (l : Label) (name : String) (line : Int) :
    ((l.addSanitizer name line).addSanitizer name line).strands = (l.addSanitizer name line).strands := by
  simp only [strands_addSanitizer, Finset.image_image]
  exact Finset.image_congr fun x _ => Strand.pass_pass_self _ x

end Label

/-! ## Multilabels and labellings -/

namespace MultiLabel

variable {π : Type}

theorem label?_combine [SetOrder] (a b : MultiLabel π) (name : String) :
    (a.combine b).label? name = (a.label? name).merge Label.combine (b.label? name) := by
  unfold label?
  rw [get?_combine]
  cases a.entries.get? name <;> cases b.entries.get? name <;> rfl

/-- The strands for each pattern name; a name that is not tracked is below one without strands. -/
def strands (m : MultiLabel π) (name : String) : WithBot (Finset Strand) := readOption Label.strands (m.label? name)

theorem joins_combine [SetOrder] : Joins strands (combine (π := π)) {} := by
  refine .of_read (fun a b => funext fun name => ?_) rfl
  unfold strands
  rw [label?_combine]
  exact readOption_merge Label.strands_combine _ _

end MultiLabel

namespace Labelling

variable {π : Type}

theorem get?_combine [SetOrder] (a b : Labelling π) (x : String) :
    (a.combine b).get? x = (a.get? x).merge MultiLabel.combine (b.get? x) :=
  Table.get?_combine MultiLabel.combine a.table b.table x

/-- The strands for each variable and each pattern name. -/
def strands (g : Labelling π) (x : String) : WithBot (String → WithBot (Finset Strand)) :=
  readOption MultiLabel.strands (g.get? x)

theorem joins_combine [SetOrder] : Joins strands (combine (π := π)) {} := by
  refine .of_read (fun a b => funext fun x => ?_) rfl
  unfold strands
  rw [get?_combine]
  exact readOption_merge MultiLabel.joins_combine.read_join _ _

end Labelling

end TaintFlow
