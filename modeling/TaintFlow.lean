import TaintFlow.Analysis.Assignment
import TaintFlow.Analysis.Expression
import TaintFlow.Analysis.Statement
import TaintFlow.Check.CommandLine
import TaintFlow.Check.Compare
import TaintFlow.Check.Options
import TaintFlow.Check.Shape
import TaintFlow.CommandLine
import TaintFlow.Decimal.Shortest
import TaintFlow.Description
import TaintFlow.Document
import TaintFlow.Document.Access
import TaintFlow.Document.Alike
import TaintFlow.Document.Literal
import TaintFlow.Document.Printer
import TaintFlow.Document.Reader
import TaintFlow.Fault
import TaintFlow.Files
import TaintFlow.Gallery
import TaintFlow.Label
import TaintFlow.Listing
import TaintFlow.Main
import TaintFlow.MultiLabel
import TaintFlow.Path
import TaintFlow.Pattern
import TaintFlow.PatternFile
import TaintFlow.Policy
import TaintFlow.Position
import TaintFlow.Report
import TaintFlow.Session
import TaintFlow.Source.Expression
import TaintFlow.Source.Literal
import TaintFlow.Source.Place
import TaintFlow.Source.Program
import TaintFlow.Source.Token
import TaintFlow.Source.Tree
import TaintFlow.Syntax
import TaintFlow.Syntax.Reading
import TaintFlow.Table
import TaintFlow.Text.Identifier
import TaintFlow.Text.Integer
import TaintFlow.Text.Printable
import TaintFlow.Text.Quoted
import TaintFlow.Trace
import TaintFlow.Trace.Phrase
import TaintFlow.Workbench
import TaintFlow.Workbench.Copy
import TaintFlow.Workbench.Evaluation
import TaintFlow.Workbench.Operations
import TaintFlow.Workload
import TaintFlow.Proofs.Label
import TaintFlow.Proofs.Accord
import TaintFlow.Proofs.Kin
import TaintFlow.Proofs.Evaluation
import TaintFlow.Proofs.Stack
import TaintFlow.Proofs.Lockstep
import TaintFlow.Proofs.Independence
import TaintFlow.Proofs.Search
import TaintFlow.Proofs.Completeness
import TaintFlow.Proofs.Counting
import TaintFlow.Proofs.Implicit
import TaintFlow.Proofs.Termination
import TaintFlow.Proofs.Reading
import TaintFlow.Proofs.Filing
import TaintFlow.Proofs.Site
import TaintFlow.Proofs.Coupling
import TaintFlow.Proofs.Discipline
import TaintFlow.Proofs.Growth
import TaintFlow.Proofs.Detection
import TaintFlow.Proofs.DirectFlow
import TaintFlow.Proofs.Reached
import TaintFlow.Proofs.Custody
import TaintFlow.Proofs.Provenance
import TaintFlow.Proofs.Bridge
import TaintFlow.Proofs.Outcome
import TaintFlow.Proofs.SideBySide
import TaintFlow.Proofs.Editions
import TaintFlow.Proofs.Ways
import TaintFlow.Proofs.Submissions
import TaintFlow.Proofs.Lineage
import TaintFlow.Proofs.Unsanitized
import TaintFlow.Proofs.Region
import TaintFlow.Proofs.Nesting
import TaintFlow.Proofs.Placement
import TaintFlow.Proofs.FindingName
import TaintFlow.Proofs.Numbering
import TaintFlow.Proofs.Writing
import TaintFlow.Proofs.Separation
import TaintFlow.Proofs.Tilt
import TaintFlow.Proofs.Meeting
import TaintFlow.Proofs.Sweep
import TaintFlow.Proofs.ImplicitFlag
import TaintFlow.Proofs.Contract
import TaintFlow.Proofs.Extension
import TaintFlow.Proofs.Straight
import TaintFlow.Proofs.Loading
import TaintFlow.Proofs.Format
import TaintFlow.Proofs.Sameness
import TaintFlow.Proofs.Pairing
import TaintFlow.Proofs.Height
import TaintFlow.Proofs.Enclosing
import TaintFlow.Proofs.Unwinding
import TaintFlow.Proofs.Ahead
import TaintFlow.Proofs.CallFlow
import TaintFlow.Proofs.TestFlow
import TaintFlow.Proofs.AssignFlow
import TaintFlow.Proofs.Log
import TaintFlow.Proofs.PartAssign
import TaintFlow.Proofs.Shorthand
import TaintFlow.Proofs.LoopElse
import TaintFlow.Proofs.Repeats
import TaintFlow.Proofs.Variety
import TaintFlow.Proofs.Footprint
import TaintFlow.Proofs.Enumeration
import TaintFlow.Proofs.Correspondence
import TaintFlow.Proofs.Strand
import TaintFlow.Proofs.Bench
import TaintFlow.Proofs.Ownership
import TaintFlow.Proofs.Semilattice
import TaintFlow.Proofs.Sight
import TaintFlow.Proofs.Following
import TaintFlow.Proofs.Sharing
