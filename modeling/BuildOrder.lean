import BuildOrder.Order.Recursive
import BuildOrder.Policy.File
import BuildOrder.Proofs.Closure
import BuildOrder.Proofs.Closure.Nearest
import BuildOrder.Proofs.Closure.Outcome
import BuildOrder.Proofs.Closure.Strays
import BuildOrder.Proofs.Cycle
import BuildOrder.Proofs.DependencyGraph
import BuildOrder.Proofs.DependencyGraph.Edges
import BuildOrder.Proofs.Digraph
import BuildOrder.Proofs.Distinct
import BuildOrder.Proofs.GraphSort
import BuildOrder.Proofs.Order.DepthFirst
import BuildOrder.Proofs.Order.Kahn
import BuildOrder.Proofs.Order.Least
import BuildOrder.Proofs.Order.Recursive
import BuildOrder.Proofs.Order.Sorted
import BuildOrder.Proofs.Order.Stability
import BuildOrder.Proofs.Order.Strategy
import BuildOrder.Proofs.Order.Turns
import BuildOrder.Proofs.Precedence
import BuildOrder.Proofs.Registry
import BuildOrder.Proofs.Registration
import BuildOrder.Proofs.Registration.Log
import BuildOrder.Proofs.Remainder
import BuildOrder.Proofs.Resorting
import BuildOrder.Proofs.Session.Agreement
import BuildOrder.Proofs.Session.Candidates
import BuildOrder.Proofs.Session.Coherence
import BuildOrder.Proofs.Session.CyclePath
import BuildOrder.Proofs.Session.Inputs
import BuildOrder.Proofs.Session.Manifest
import BuildOrder.Proofs.Session.Origins
import BuildOrder.Proofs.Session.Outcome
import BuildOrder.Proofs.Session.Provenance
import BuildOrder.Proofs.Session.Rearrangement
import BuildOrder.Proofs.Session.Repetition
import BuildOrder.Proofs.Session.Representation
import BuildOrder.Proofs.Session.Requests
import BuildOrder.Proofs.Session.Roles
import BuildOrder.Proofs.Session.SelfContained
import BuildOrder.Proofs.Session.Steps
import BuildOrder.Proofs.Session.WellFormed
import BuildOrder.Proofs.Sorting
import BuildOrder.Session.History
import BuildOrder.SourceUnit.Draft
import BuildOrder.Proofs.Declaration
import BuildOrder.Proofs.Order.Moments
import BuildOrder.Proofs.Localisation
import BuildOrder.Proofs.Order.Run
