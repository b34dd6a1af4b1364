import Winners.Main
import Winners.Proofs.Counting
import Winners.Proofs.Graph.Edges
import Winners.Proofs.Graph.Independent
import Winners.Proofs.Graph.Lists
import Winners.Proofs.Number.Exact
import Winners.Proofs.Search.BestSeen
import Winners.Proofs.Search.Consistent
import Winners.Proofs.Search.NeverFails
import Winners.Proofs.Search.Population
import Winners.Proofs.Search.Reached
import Winners.Proofs.Search.Round
import Winners.Proofs.Search.Solved
import Winners.Proofs.Tracker.Coloring
import Winners.Proofs.Tracker.Members
import Winners.Proofs.Tracker.Message
import Winners.Proofs.Tracker.Sides
import Winners.Proofs.Tracker.VertexSubset
import Winners.Proofs.Tracker.Undo
import Winners.Proofs.Tracker.Exchange
import Winners.Proofs.Search.Termination
import Winners.Proofs.Search.Goal
import Winners.Proofs.Number.Faithful
import Winners.Proofs.Threshold.Median
import Winners.Proofs.Tracker.Fitness
import Winners.Proofs.Search.Majority
import Winners.Proofs.Draws.Distinct
import Winners.Proofs.Tracker.Size
import Winners.Proofs.Walk.Size
import Winners.Proofs.Tracker.Descent
import Winners.Proofs.Search.FixedSize
import Winners.Proofs.Tracker.Audit
import Winners.Proofs.Search.Audit
import Winners.Proofs.Walk.Oblivious
import Winners.Proofs.Search.SideBySide
import Winners.Proofs.Search.Resampling
import Winners.Proofs.Walk.Journal
import Winners.Proofs.Walk.IntoBounds
import Winners.Proofs.Graph.Queries
import Winners.Proofs.Graph.Grammar
import Winners.Proofs.Code.Checks
import Winners.Proofs.Search.Path
import Winners.Proofs.Tracker.BestFlip
import Winners.Proofs.Search.Interrupted
import Winners.Proofs.Search.Snapshots
import Winners.Proofs.Search.Stepping
import Winners.Proofs.Code.Regular
import Winners.Proofs.Graph.RoundTrip
import Winners.Proofs.Tracker.ColoringDescent
import Winners.Proofs.Tracker.LocalOptimum
import Winners.Proofs.Walk.Recoloring
import Winners.Proofs.Walk.AllOrNothing
import Winners.Proofs.Tracker.Locality
import Winners.Proofs.Tracker.ColoringQueries
import Winners.Proofs.Draws.Coins
import Winners.Proofs.Tracker.Channel
import Winners.Proofs.Tracker.Density
import Winners.Proofs.Graph.Planted
import Winners.Proofs.Search.FirstFailure
import Winners.Proofs.Search.Seeds
import Winners.Proofs.Tracker.Faults
import Winners.Proofs.Code.Picks
import Winners.Proofs.Tracker.Codeword
import Winners.Proofs.Threshold.SlotOrder
