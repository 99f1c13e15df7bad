import Pathwise.Run.Analysis
import Pathwise.Proofs.Exhaustive
import Pathwise.Proofs.Termination
import Pathwise.Proofs.Stacks
import Pathwise.Proofs.Edges
import Pathwise.Proofs.Depths
import Pathwise.Proofs.StackSafety
import Pathwise.Proofs.Bounds
import Pathwise.Proofs.Worlds
import Pathwise.Proofs.Meets
import Pathwise.Proofs.Absorption
import Pathwise.Proofs.Comparisons
import Pathwise.Proofs.Decisions
import Pathwise.Proofs.Facts
import Pathwise.Proofs.Valuations
import Pathwise.Proofs.Coherence
import Pathwise.Proofs.Forms
import Pathwise.Proofs.Growth
import Pathwise.Proofs.Narrowing
import Pathwise.Proofs.Feasibility
import Pathwise.Proofs.Outcomes
import Pathwise.Proofs.Doubles
import Pathwise.Proofs.Unordered
import Pathwise.Proofs.Assertions
import Pathwise.Proofs.Booleans
import Pathwise.Proofs.Assignments
import Pathwise.Proofs.Contracts
import Pathwise.Proofs.Dereferences
import Pathwise.Proofs.Casts
import Pathwise.Proofs.Queues
import Pathwise.Proofs.Cycles
import Pathwise.Proofs.Classification
import Pathwise.Proofs.Accesses
import Pathwise.Proofs.Interning
import Pathwise.Proofs.Losses
import Pathwise.Proofs.CommonClasses
import Pathwise.Proofs.Verdicts
import Pathwise.Proofs.Contradictions
import Pathwise.Proofs.Canonical
import Pathwise.Proofs.Orderings
import Pathwise.Proofs.Throughout
import Pathwise.Proofs.Forgetting
import Pathwise.Proofs.Overrides
import Pathwise.Proofs.NormalForms
import Pathwise.Proofs.Arithmetic
import Pathwise.Proofs.WellShaped
import Pathwise.Proofs.IntegerConditions
import Pathwise.Proofs.Locality
import Pathwise.Proofs.Destinations
import Pathwise.Proofs.Handlers
import Pathwise.Proofs.Slots
import Pathwise.Proofs.Remainders
import Pathwise.Proofs.Concatenation
import Pathwise.Proofs.StateCaps
import Pathwise.Proofs.Subtyping
import Pathwise.Proofs.Inclusions
import Pathwise.Proofs.Severities
import Pathwise.Proofs.Mutations
import Pathwise.Proofs.ClassNarrowing
import Pathwise.Proofs.Expansions
import Pathwise.Proofs.BreadthFirst
