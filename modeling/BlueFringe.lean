import BlueFringe.Sorting
import BlueFringe.Text.Render
import BlueFringe.Text.Literal
import BlueFringe.Text.Grid
import BlueFringe.Word
import BlueFringe.Trace.Line
import BlueFringe.Partition
import BlueFringe.Pair
import BlueFringe.Graph.Basic
import BlueFringe.Graph.Lemmas
import BlueFringe.Graph.Reach
import BlueFringe.Graph.Difference
import BlueFringe.Graph.Blueprint
import BlueFringe.Graph.Chart
import BlueFringe.Sample
import BlueFringe.PrefixTree
import BlueFringe.Scoring
import BlueFringe.Quotient
import BlueFringe.Inquiry
import BlueFringe.Learner.Run
import BlueFringe.Conformance
import BlueFringe.Random.Wyrand
import BlueFringe.Random.Acceptor
import BlueFringe.Proofs.Traversals
import BlueFringe.Proofs.Partitions
import BlueFringe.Proofs.Blanks
import BlueFringe.Proofs.Layouts
import BlueFringe.Proofs.Search
import BlueFringe.Proofs.Reachability
import BlueFringe.Proofs.Determinisation
import BlueFringe.Proofs.Offers
import BlueFringe.Proofs.Walk
import BlueFringe.Proofs.Rounds
import BlueFringe.Proofs.TreeFolding
import BlueFringe.Proofs.Renaming
import BlueFringe.Proofs.Mergeability
import BlueFringe.Proofs.Merging
import BlueFringe.Proofs.Quotient
import BlueFringe.Proofs.Growth
import BlueFringe.Proofs.RootedTree
import BlueFringe.Proofs.PrefixTree
import BlueFringe.Proofs.Fringe
import BlueFringe.Proofs.Learning
import BlueFringe.Proofs.Hypotheses
import BlueFringe.Proofs.Moves
import BlueFringe.Proofs.Preference
import BlueFringe.Proofs.Greedy
import BlueFringe.Proofs.Termination
import BlueFringe.Proofs.Accounting
import BlueFringe.Proofs.Interruption
import BlueFringe.Proofs.Irreducibility
import BlueFringe.Proofs.Languages
import BlueFringe.Proofs.NearestFirst
import BlueFringe.Proofs.Difference
import BlueFringe.Proofs.Demands
import BlueFringe.Proofs.Denotation
import BlueFringe.Proofs.Conflicts
import BlueFringe.Proofs.Consistency
import BlueFringe.Proofs.Conformance
import BlueFringe.Proofs.Skipping
import BlueFringe.Proofs.SuiteSample
import BlueFringe.Proofs.WellFormed
import BlueFringe.Proofs.Lineage
import BlueFringe.Proofs.AccessWords
import BlueFringe.Proofs.Evidence
import BlueFringe.Proofs.Guidance
import BlueFringe.Proofs.Recovery
import BlueFringe.Proofs.SuiteRecovery
import BlueFringe.Proofs.Introduced
import BlueFringe.Proofs.Admission
import BlueFringe.Proofs.Answers
import BlueFringe.Proofs.Limits
import BlueFringe.Proofs.Layers
import BlueFringe.Proofs.RandomGraphs
import BlueFringe.Proofs.RandomSamples
import BlueFringe.Proofs.Depths
