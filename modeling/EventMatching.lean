import EventMatching.Document.Codec
import EventMatching.Store.Context
import EventMatching.Trial
import EventMatching.Proofs.Digest
import EventMatching.Proofs.Document
import EventMatching.Proofs.Index.Equality
import EventMatching.Proofs.Index.Extent
import EventMatching.Proofs.Index.Failure
import EventMatching.Proofs.Lookup
import EventMatching.Proofs.Numeric.Text
import EventMatching.Proofs.Quadtree.NodeSize
import EventMatching.Proofs.Quadtree.Order
import EventMatching.Proofs.Quadtree.Paths
import EventMatching.Proofs.Quadtree.Shape
import EventMatching.Proofs.Store.Access
import EventMatching.Proofs.Store.EqualEvents
import EventMatching.Proofs.Store.Interleaving
import EventMatching.Proofs.Store.Lifetime
import EventMatching.Proofs.Store.Sharing
