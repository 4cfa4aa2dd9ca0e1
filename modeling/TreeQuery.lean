import TreeQuery.Main
import TreeQuery.NodeSet.Traversal
import TreeQuery.Proofs.Adjacency.Law
import TreeQuery.Proofs.Attribute.Predicate
import TreeQuery.Proofs.Branches.Stable
import TreeQuery.Proofs.Compound.Combinators
import TreeQuery.Proofs.Compound.Escaped
import TreeQuery.Proofs.Compound.Fragments
import TreeQuery.Proofs.Compound.Layout
import TreeQuery.Proofs.Compound.Splitting
import TreeQuery.Proofs.Condition.Composition
import TreeQuery.Proofs.Condition.Has
import TreeQuery.Proofs.Condition.Not
import TreeQuery.Proofs.Grammar.Compiled
import TreeQuery.Proofs.Groups.Order
import TreeQuery.Proofs.NodeSet.Below
import TreeQuery.Proofs.NodeSet.Copy
import TreeQuery.Proofs.NodeSet.Run
import TreeQuery.Proofs.NodeSet.Union
import TreeQuery.Proofs.Picking.Law
import TreeQuery.Proofs.Session.Soundness
import TreeQuery.Proofs.Splitting.Spans
import TreeQuery.Proofs.Traversal.Closest
import TreeQuery.Proofs.Traversal.Inverse
import TreeQuery.Proofs.WhiteSpace.Law
import TreeQuery.Proofs.Written.Compiling
