import FactGraph.Fact.Build
import FactGraph.Files.Tree
import FactGraph.Main
import FactGraph.Model.Traversal
import FactGraph.Proofs.Linking.CallEdges
import FactGraph.Proofs.Linking.Confinement
import FactGraph.Proofs.Linking.Containment
import FactGraph.Proofs.Linking.Hygiene
import FactGraph.Proofs.Linking.Identity
import FactGraph.Proofs.Linking.Membership
import FactGraph.Proofs.Linking.Merge
import FactGraph.Proofs.Linking.Resolved
import FactGraph.Proofs.Linking.Root
import FactGraph.Proofs.Metrics.Complexity
import FactGraph.Proofs.Metrics.Relations
import FactGraph.Proofs.Model.Calls
import FactGraph.Proofs.Name.Documented
import FactGraph.Proofs.Linking.Conservation
import FactGraph.Proofs.Linking.Synthetic
import FactGraph.Proofs.Resolution.Ambiguity
import FactGraph.Proofs.Resolution.Exactness
import FactGraph.Proofs.Resolution.Generic
import FactGraph.Proofs.Resolution.Idempotence
import FactGraph.Proofs.Resolution.Isolation
import FactGraph.Proofs.Resolution.Locality
import FactGraph.Proofs.Resolution.ScopeByName
import FactGraph.Proofs.Resolution.Shape
import FactGraph.Proofs.Resolution.Transparency
import FactGraph.Proofs.RoundTrip
import FactGraph.Proofs.Scope.InsertionOrder
import FactGraph.Proofs.Linking.Sibling
import FactGraph.Proofs.Linking.FirstCall
import FactGraph.Proofs.Linking.Settled
