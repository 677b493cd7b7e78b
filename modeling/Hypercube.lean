import Hypercube.Interchange.Category
import Hypercube.Proofs.CanonicalNames
import Hypercube.Proofs.CheckedBindings
import Hypercube.Proofs.Conversions
import Hypercube.Proofs.FreeUnification
import Hypercube.Proofs.Navigation
import Hypercube.Proofs.Peers
import Hypercube.Proofs.Quantities
import Hypercube.Proofs.ScalarExchange
import Hypercube.Proofs.SetElements
import Hypercube.Proofs.SharedBindings
import Hypercube.Proofs.StructureNames
import Hypercube.Proofs.Unions
import Hypercube.Proofs.Widening
import Hypercube.Proofs.WordCounts
import Hypercube.Schema.Inspect
import Hypercube.Unify.Report
