import ObjectRelational.Catalog.Listing
import ObjectRelational.Commit.Sorter
import ObjectRelational.Path.Navigator
import ObjectRelational.Schema.Descriptor
import ObjectRelational.Proofs.Schema.Descriptor
import ObjectRelational.Proofs.Catalog.Verdict
import ObjectRelational.Proofs.Commit.Index
import ObjectRelational.Proofs.Path.Recall
import ObjectRelational.Proofs.Path.Location
import ObjectRelational.Proofs.Path.Expansion
import ObjectRelational.Proofs.Path.TreeShape
import ObjectRelational.Proofs.Path.Accounting
import ObjectRelational.Proofs.Digraph.Greedy
import ObjectRelational.Proofs.Commit.Rows
import ObjectRelational.Proofs.Commit.Sorting
import ObjectRelational.Proofs.Catalog.Restated
import ObjectRelational.Proofs.Digraph.Agreement
import ObjectRelational.Proofs.Commit.Independence
import ObjectRelational.Proofs.Commit.RowStability
import ObjectRelational.Proofs.Catalog.Matched
import ObjectRelational.Proofs.Path.Ending
import ObjectRelational.Proofs.Path.Course
import ObjectRelational.Proofs.Path.Crossing
import ObjectRelational.Proofs.Path.IdPath
import ObjectRelational.Proofs.Path.Gap
import ObjectRelational.Proofs.Catalog.Sides
import ObjectRelational.Proofs.Path.Numbering
import ObjectRelational.Proofs.Catalog.Naming
import ObjectRelational.Proofs.Path.LastJoin
import ObjectRelational.Proofs.Digraph.LeastOrder
import ObjectRelational.Proofs.Commit.Reflexive
import ObjectRelational.Proofs.Schema.Rearranged
import ObjectRelational.Proofs.Catalog.Supply
import ObjectRelational.Proofs.Path.Grammar
import ObjectRelational.Proofs.Digraph.Countdown
import ObjectRelational.Proofs.Digraph.SearchTrace
import ObjectRelational.Proofs.Digraph.Indexed
